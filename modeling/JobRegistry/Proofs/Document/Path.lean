import JobRegistry.Document.Basic

/-!
# Paths through documents

A path is cut at each of its dots, wherever they stand: a dot at an end of the path or next to
another dot leaves an empty key, and every key counts. So the keys along two paths with a dot
between them are those along the first and then those along the second (`pathKeys_append`), and the
value at the end is found by following the first path to a document and the second one from there
(`getPath?_append`). A path without a dot is a key (`getPath?_of_not_mem`).

Neither law looks at what the keys are, so that they also speak of paths with empty keys, and of
those that meet something else than a document on their way, which lead nowhere.
-/

namespace JobRegistry.Document

/-! ## Cutting paths -/

theorem segments_ne_nil (cs : List Char) : segments cs ≠ [] := by
  cases cs with
  | nil => exact List.cons_ne_nil _ _
  | cons c rest =>
    rw [segments]
    split
    · exact List.cons_ne_nil _ _
    · split <;> exact List.cons_ne_nil _ _

/-- A path that is cut at one of its dots falls apart into the segments of both sides. -/
theorem segments_append (front back : List Char) :
    segments (front ++ '.' :: back) = segments front ++ segments back := by
  induction front with
  | nil => rfl
  | cons c rest ih =>
    rw [List.cons_append, segments, segments, ih]
    by_cases hc : c = '.'
    · rw [if_pos hc, if_pos hc, List.cons_append]
    · rw [if_neg hc, if_neg hc]
      -- the last segment of `rest` is there to take the character
      obtain ⟨first, others, h⟩ := List.exists_cons_of_ne_nil (segments_ne_nil rest)
      rw [h, List.cons_append]
      rfl

theorem segments_of_not_mem {cs : List Char} (h : '.' ∉ cs) : segments cs = [cs] := by
  induction cs with
  | nil => rfl
  | cons c rest ih =>
    obtain ⟨hc, hrest⟩ := not_or.1 (mt List.mem_cons.2 h)
    rw [segments, if_neg (Ne.symm hc), ih hrest]

theorem pathKeys_ne_nil (path : String) : pathKeys path ≠ [] :=
  mt List.map_eq_nil_iff.1 (segments_ne_nil _)

theorem pathKeys_append (p q : String) : pathKeys (p ++ "." ++ q) = pathKeys p ++ pathKeys q := by
  have hchars : (p ++ "." ++ q).toList = p.toList ++ '.' :: q.toList := by
    rw [String.toList_append, String.toList_append, List.append_assoc]
    rfl
  rw [pathKeys, hchars, segments_append, List.map_append]
  rfl

theorem pathKeys_of_not_mem {key : String} (h : '.' ∉ key.toList) : pathKeys key = [key] := by
  rw [pathKeys, segments_of_not_mem h, List.map_singleton, String.ofList_toList]

/-! ## Following keys -/

/-- One step along a path: what stands under the first key has to be a document. -/
theorem follow?_cons (entries : Entries) (key : String) {rest : List String} (h : rest ≠ []) :
    follow? entries (key :: rest) =
      ((Entries.get? key entries).bind Value.entries?).bind fun inner => follow? inner rest := by
  rw [follow?]
  · cases Entries.get? key entries with
    | none => rfl
    | some v => cases v <;> rfl
  · exact h

/-- Keys are followed in two stretches, with a document between them. -/
theorem follow?_append (entries : Entries) {front back : List String} (hf : front ≠ [])
    (hb : back ≠ []) : follow? entries (front ++ back) =
      ((follow? entries front).bind Value.entries?).bind fun inner => follow? inner back := by
  induction front generalizing entries with
  | nil => exact absurd rfl hf
  | cons key rest ih =>
    rw [List.cons_append, follow?_cons entries key (List.append_ne_nil_of_right_ne_nil _ hb)]
    by_cases hr : rest = []
    · subst hr
      rfl
    · simp only [follow?_cons entries key hr, ih _ hr, Option.bind_assoc]

/-! ## Paths -/

theorem getPath?_append (d : Document) (p q : String) : d.getPath? (p ++ "." ++ q) =
    ((d.getPath? p).bind Value.entries?).bind fun inner => getPath? ⟨inner⟩ q := by
  rw [getPath?, pathKeys_append, follow?_append _ (pathKeys_ne_nil p) (pathKeys_ne_nil q)]
  rfl

theorem getPath?_of_not_mem {d : Document} {key : String} (h : '.' ∉ key.toList) :
    d.getPath? key = d.get? key := by
  rw [getPath?, pathKeys_of_not_mem h]
  rfl

/-- **Paths compose.** A path that is cut at any one of its dots leads where its second part leads
from the document to which its first part leads, and leads nowhere if there is no such document. A
path without a dot leads to what stands under it as a key. Cut at its dots one after another, every
path is accounted for. -/
theorem paths_compose (d : Document) (p q : String) :
    (d.getPath? (p ++ "." ++ q) =
      ((d.getPath? p).bind Value.entries?).bind fun inner => getPath? ⟨inner⟩ q) ∧
    ('.' ∉ p.toList → d.getPath? p = d.get? p) :=
  ⟨getPath?_append d p q, getPath?_of_not_mem⟩

/-- A path through empty keys: it starts and ends with a dot and has two in a row. -/
theorem paths_compose_emptyKeys :
    let inner : Entries := [("", .document [("", .bool true)])]
    let d := ofList [("", .document [("a", .document inner)]), ("b", .null)]
    '.' ∉ "b".toList ∧ d.getPath? "b" = some .null ∧ d.getPath? ".a" = some (.document inner) ∧
      d.getPath? ".a.." = some (.bool true) ∧ d.getPath? "b.a" = none := by
  intro inner d
  have hnot : '.' ∉ "b".toList := by decide
  have hkey : d.getPath? "b" = some .null := (paths_compose d "b" "").2 hnot
  have hfront : d.getPath? ".a" = some (.document inner) := rfl
  have hwhole : d.getPath? ".a.." = some (.bool true) := by
    have h := (paths_compose d ".a" ".").1
    rw [hfront] at h
    exact h
  have hscalar : d.getPath? "b.a" = none := by
    have h := (paths_compose d "b" "a").1
    rw [hkey] at h
    exact h
  exact ⟨hnot, hkey, hfront, hwhole, hscalar⟩

end JobRegistry.Document
