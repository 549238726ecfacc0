import JobRegistry.Json.Printer
import JobRegistry.Proofs.Json.Normal
import JobRegistry.Proofs.Text.Literal

/-!
# Printed trees are read back

A text that spells a tree is read as that tree if arrays and objects are nested no deeper in it than
the reader goes (`Spelled.read?_eq`). The indented text of a tree spells the tree if each of its
scalars is spelled by its own text (`Printable`, `spells_pretty`), as all are that are no numbers.
So printed trees are read back (`read?_pretty`).
-/

namespace JobRegistry.Json

open Text

/-! ## Depth -/

mutual

/-- How deep arrays and objects are nested in a tree. -/
def depth : Json → Nat
  | .array items => depthItems items + 1
  | .object members => depthMembers members + 1
  | _ => 0

/-- How deep they are nested in the items of an array. -/
def depthItems : List Json → Nat
  | [] => 0
  | j :: rest => max j.depth (depthItems rest)

/-- How deep they are nested in the members of an object. -/
def depthMembers : List (String × Json) → Nat
  | [] => 0
  | (_, j) :: rest => max j.depth (depthMembers rest)

end

theorem depthItems_le {items : List Json} {n : Nat} :
    depthItems items ≤ n ↔ ∀ j ∈ items, j.depth ≤ n := by
  induction items with
  | nil => exact iff_of_true (Nat.zero_le n) (List.forall_mem_nil _)
  | cons j rest ih => rw [depthItems, Nat.max_le, ih, List.forall_mem_cons]

theorem depthMembers_le {members : List (String × Json)} {n : Nat} :
    depthMembers members ≤ n ↔ ∀ m ∈ members, m.2.depth ≤ n := by
  induction members with
  | nil => exact iff_of_true (Nat.zero_le n) (List.forall_mem_nil _)
  | cons m rest ih => rw [depthMembers, Nat.max_le, ih, List.forall_mem_cons]

mutual

/-- The normal form of a tree is not nested deeper. -/
theorem depth_sorted_le : (j : Json) → j.sorted.depth ≤ j.depth
  | .null => Nat.le_refl _
  | .bool _ => Nat.le_refl _
  | .whole _ => Nat.le_refl _
  | .real _ => Nat.le_refl _
  | .text _ => Nat.le_refl _
  | .array items => Nat.succ_le_succ (depthItems_sorted_le items)
  | .object members => Nat.succ_le_succ <| depthMembers_le.2 fun m hm =>
    depthMembers_le.1 (depthMembers_sorted_le members) m (Sorted.mem_ofList hm)

theorem depthItems_sorted_le : (items : List Json) →
    depthItems (sortedItems items) ≤ depthItems items
  | [] => Nat.le_refl _
  | j :: rest => max_le_max (depth_sorted_le j) (depthItems_sorted_le rest)

theorem depthMembers_sorted_le : (members : List (String × Json)) →
    depthMembers (sortedMembers members) ≤ depthMembers members
  | [] => Nat.le_refl _
  | (_, j) :: rest => max_le_max (depth_sorted_le j) (depthMembers_sorted_le rest)

end

/-! ## What is spelled is read, up to a depth -/

theorem Spells.length_pos {j : Json} {t : List Char} (h : Spells j t) : 0 < t.length := by
  cases h <;> exact Nat.succ_pos _

theorem SpellsItems.length_le {items : List Json} {t : List Char} (h : SpellsItems items t) :
    items.length ≤ t.length := by
  cases h with
  | last h _ =>
    rw [List.length_append]
    exact Nat.le_add_right_of_le h.length_pos
  | cons h _ hs =>
    have hlength := hs.length_le
    simp only [List.length_append, List.length_cons]
    omega

theorem SpellsName.length_pos {name : String} {n : List Char} (h : SpellsName name n) :
    0 < n.length := by
  obtain ⟨b, t, b', -, -, -, rfl⟩ := h
  simp only [List.length_append, List.length_cons]
  omega

theorem SpellsMembers.length_le {members : List (String × Json)} {t : List Char}
    (h : SpellsMembers members t) : members.length ≤ t.length := by
  cases h with
  | last hn _ _ =>
    rw [List.length_append]
    exact Nat.le_add_right_of_le hn.length_pos
  | cons hn _ _ hs =>
    have hlength := hs.length_le
    simp only [List.length_append, List.length_cons]
    omega

mutual

/-- The tree that a text spells is read where enough levels are left. -/
theorem Spells.value?_eq : ∀ {j : Json} {t : List Char}, Spells j t →
    ∀ {depth : Nat} {cs : List Char}, j.depth ≤ depth → Ends cs →
      Json.value? depth (t ++ cs) = some (j, cs)
  | _, _, .scalar hc h, depth, cs, _, hend => by
    rw [List.cons_append, value?_scalar depth hc]
    exact h cs hend
  | _, _, .blank hc h, depth, cs, hle, hend => by
    rw [List.cons_append, value?_skipBlanks depth (List.dropWhile_cons_of_pos hc)]
    exact h.value?_eq hle hend
  | _, _, .noItems hb, depth + 1, cs, _, _ => by
    rw [List.cons_append, List.append_assoc, List.singleton_append]
    show array? (Json.value? depth) _ = _
    rw [array?, skipBlanks_append hb, skipBlanks_cons (by decide)]
    rfl
  | _, _, .array h, depth + 1, cs, hle, _ => by
    rw [List.cons_append]
    show array? (Json.value? depth) _ = _
    rw [h.array?_eq, h.items?_eq (Nat.le_of_succ_le_succ hle)
      (Nat.le_trans h.length_le (List.sublist_append_left _ _).length_le)]
    rfl
  | _, _, .noMembers hb, depth + 1, cs, _, _ => by
    rw [List.cons_append, List.append_assoc, List.singleton_append]
    show object? (Json.value? depth) _ = _
    rw [object?, skipBlanks_append hb, skipBlanks_cons (by decide)]
    rfl
  | _, _, .object h, depth + 1, cs, hle, _ => by
    rw [List.cons_append]
    show object? (Json.value? depth) _ = _
    rw [h.object?_eq, h.members?_eq (Nat.le_of_succ_le_succ hle)
      (Nat.le_trans h.length_le (List.sublist_append_left _ _).length_le)]
    rfl

theorem SpellsItems.items?_eq : ∀ {items : List Json} {t : List Char}, SpellsItems items t →
    ∀ {depth fuel : Nat} {cs : List Char}, depthItems items ≤ depth → items.length ≤ fuel →
      items? (Json.value? depth) fuel (t ++ cs) = some (items, cs)
  | _, _, .last h hb, depth, fuel + 1, cs, hle, _ => by
    rw [List.append_assoc, List.append_assoc, List.singleton_append, items?,
      h.value?_eq (Nat.le_trans (Nat.le_max_left _ _) hle) (ends_append hb (by simp) cs)]
    simp only [skipBlanks_append hb, skipBlanks_cons (show isBlankChar ']' = false by decide)]
  | _, _, .cons h hb hs, depth, fuel + 1, cs, hle, hfuel => by
    rw [List.append_assoc, List.append_assoc, List.cons_append, items?,
      h.value?_eq (Nat.le_trans (Nat.le_max_left _ _) hle) (ends_append hb (by simp) _)]
    simp only [skipBlanks_append hb, skipBlanks_cons (show isBlankChar ',' = false by decide)]
    rw [hs.items?_eq (Nat.le_trans (Nat.le_max_right _ _) hle) (Nat.le_of_succ_le_succ hfuel)]
    rfl

theorem SpellsMembers.members?_eq : ∀ {members : List (String × Json)} {t : List Char},
    SpellsMembers members t → ∀ {depth fuel : Nat} {cs : List Char},
      depthMembers members ≤ depth → members.length ≤ fuel →
      members? (Json.value? depth) fuel (t ++ cs) = some (members, cs)
  | _, _, .last hn h hb, depth, fuel + 1, cs, hle, _ => by
    rw [List.append_assoc, List.append_assoc, List.append_assoc, List.singleton_append,
      hn.members?_eq, h.value?_eq (Nat.le_trans (Nat.le_max_left _ _) hle)
        (ends_append hb (by simp) cs), Option.bind_some]
    simp only [skipBlanks_append hb, skipBlanks_cons (show isBlankChar '\x7d' = false by decide)]
  | _, _, .cons hn h hb hs, depth, fuel + 1, cs, hle, hfuel => by
    rw [List.append_assoc, List.append_assoc, List.append_assoc, List.cons_append,
      hn.members?_eq, h.value?_eq (Nat.le_trans (Nat.le_max_left _ _) hle)
        (ends_append hb (by simp) _), Option.bind_some]
    simp only [skipBlanks_append hb, skipBlanks_cons (show isBlankChar ',' = false by decide)]
    rw [hs.members?_eq (Nat.le_trans (Nat.le_max_right _ _) hle) (Nat.le_of_succ_le_succ hfuel)]
    rfl

end

/-- **A text is read as the tree that it spells**, if this is not nested too deep. -/
theorem Spelled.read?_eq {s : String} {j : Json} (h : Spelled j s) (hdepth : j.depth ≤ maxDepth) :
    read? s = some j := by
  obtain ⟨t, b, ht, hs, hb⟩ := h
  have hend : Ends b := fun c hc => .inl (hb c (List.mem_of_mem_head? hc))
  have hrest : skipBlanks b = [] := by
    rw [← List.append_nil b, skipBlanks_append hb]
    rfl
  rw [read?, readFront?, ht, hs.value?_eq hdepth hend]
  simp only [hrest, List.isEmpty_nil, if_true]

/-! ## Indented texts -/

/-- Every scalar of the tree is spelled by its own text. -/
inductive Printable : Json → Prop
  | scalar {j : Json} (h : Spells j j.scalarText) : Printable j
  | array {items : List Json} (h : ∀ j ∈ items, Printable j) : Printable (.array items)
  | object {members : List (String × Json)} (h : ∀ m ∈ members, Printable m.2) :
    Printable (.object members)

theorem printable_bool : (b : Bool) → Printable (.bool b)
  | true => .scalar (.scalar (.inr (.inl rfl)) fun _ _ => rfl)
  | false => .scalar (.scalar (.inr (.inr (.inl rfl))) fun _ _ => rfl)

theorem printable_text (s : String) : Printable (.text s) := by
  refine .scalar (.scalar (.inr (.inr (.inr (.inl rfl)))) fun cs _ => ?_)
  show (literal? (literal s ++ cs)).map (fun read => (Json.text read.1, read.2)) = _
  rw [literal?_literal]
  rfl

theorem Printable.sorted {j : Json} (h : j.Printable) : j.sorted.Printable := by
  induction h with
  | @scalar j h =>
    cases j with
    | array _ => exact absurd h.length_pos (Nat.lt_irrefl 0)
    | object _ => exact absurd h.length_pos (Nat.lt_irrefl 0)
    | _ => exact .scalar h
  | array h ih =>
    rw [Json.sorted, sortedItems_eq_map]
    exact .array (List.forall_mem_map.2 ih)
  | object h ih =>
    rw [Json.sorted, sortedMembers_eq_map]
    apply Printable.object
    intro m hm
    obtain ⟨n, hn, rfl⟩ := List.mem_map.1 (Sorted.mem_ofList hm)
    exact ih n hn

theorem blank_newline (level : Nat) : Blank (newline level) := by
  intro c hc
  rcases List.mem_cons.1 hc with rfl | hc
  · rfl
  · rw [List.eq_of_mem_replicate hc]
    rfl

theorem spellsName_literal {b : List Char} (hb : Blank b) (name : String) :
    SpellsName name (b ++ (literal name ++ [':'])) :=
  ⟨b, _, [], hb, List.forall_mem_nil _, fun cs _ => literal?_literal name cs, rfl⟩

theorem spellsItems_pretty {level : Nat} {items : List Json} (hne : items ≠ [])
    (h : ∀ j ∈ items, Spells j (j.prettyChars level)) {b : List Char} (hb : Blank b) :
    SpellsItems items (prettyItems level items ++ (b ++ [']'])) := by
  induction items with
  | nil => exact absurd rfl hne
  | cons j rest ih =>
    obtain ⟨hj, hrest⟩ := List.forall_mem_cons.1 h
    have hline := hj.blanks (blank_newline level)
    cases rest with
    | nil => exact .last hline hb
    | cons k rest =>
      rw [prettyItems, List.append_assoc, List.cons_append]
      · exact .cons hline (List.forall_mem_nil _) (ih (List.cons_ne_nil _ _) hrest)
      · exact List.cons_ne_nil _ _

theorem spellsMembers_pretty {level : Nat} {members : List (String × Json)} (hne : members ≠ [])
    (h : ∀ m ∈ members, Spells m.2 (m.2.prettyChars level)) {b : List Char} (hb : Blank b) :
    SpellsMembers members (prettyMembers level members ++ (b ++ ['\x7d'])) := by
  induction members with
  | nil => exact absurd rfl hne
  | cons m rest ih =>
    obtain ⟨name, j⟩ := m
    obtain ⟨hj, hrest⟩ := List.forall_mem_cons.1 h
    have hname := spellsName_literal (blank_newline level) name
    have hvalue := Spells.blank (show isBlankChar ' ' = true by decide) hj
    cases rest with
    | nil =>
      have hlast := SpellsMembers.last hname hvalue hb
      simp only [List.append_assoc, List.cons_append, List.nil_append] at hlast
      simpa only [prettyMembers, List.append_assoc, List.cons_append] using hlast
    | cons n rest =>
      have hcons := SpellsMembers.cons hname hvalue (List.forall_mem_nil _)
        (ih (List.cons_ne_nil _ _) hrest)
      simp only [List.append_assoc, List.cons_append, List.nil_append] at hcons
      simpa only [prettyMembers, List.append_assoc, List.cons_append] using hcons

/-- **The indented text of a tree spells it.** -/
theorem spells_pretty {j : Json} (h : j.Printable) (level : Nat) :
    Spells j (j.prettyChars level) := by
  induction h generalizing level with
  | @scalar j h =>
    cases j with
    | array _ => exact absurd h.length_pos (Nat.lt_irrefl 0)
    | object _ => exact absurd h.length_pos (Nat.lt_irrefl 0)
    | _ => exact h
  | @array items h ih =>
    cases items with
    | nil => exact .noItems (List.forall_mem_nil _)
    | cons j rest =>
      rw [prettyChars, List.append_assoc]
      · exact .array (spellsItems_pretty (List.cons_ne_nil _ _) (fun j hj => ih j hj _)
          (blank_newline level))
      · exact List.cons_ne_nil _ _
  | @object members h ih =>
    cases members with
    | nil => exact .noMembers (List.forall_mem_nil _)
    | cons m rest =>
      rw [prettyChars, List.append_assoc]
      · exact .object (spellsMembers_pretty (List.cons_ne_nil _ _) (fun m hm => ih m hm _)
          (blank_newline level))
      · exact List.cons_ne_nil _ _

/-- **A tree is read back from its indented text**, with or without blanks after it. -/
theorem read?_pretty {j : Json} (h : j.Printable) (hdepth : j.depth ≤ maxDepth) {b : String}
    (hb : Blank b.toList) : read? (j.pretty ++ b) = some j := by
  have hspelled : Spelled j (j.pretty ++ b) :=
    ⟨j.prettyChars 0, b.toList, by rw [String.toList_append, pretty, String.toList_ofList],
      spells_pretty h 0, hb⟩
  exact hspelled.read?_eq hdepth

end JobRegistry.Json
