import JobRegistry.Proofs.Json.Pretty
import JobRegistry.Proofs.Mapper.KeyOrder

/-!
# Documents are printed and read back

A layout is full (`Layout.Full`) when it is made like a plain one, but that the fields of its
records may be missing where they are read; they are written all the same. What a full layout writes
holds no numbers and is nested no deeper than the layout (`Layout.depth`), so that the indented JSON
text of what a plain layout writes is read back (`read?_pretty_toDocument`). The document of the
tree that is read has its keys in another order than the one that was written, and holds the same
value (`ofDocument_ofJson`).
-/

namespace JobRegistry

namespace Json

/-- The tree can be printed, and arrays and objects are nested at most so deep in it. -/
def Fits (n : Nat) (j : Json) : Prop :=
  j.Printable ∧ j.depth ≤ n

theorem Fits.mono {n m : Nat} (hle : n ≤ m) {j : Json} (h : j.Fits n) : j.Fits m :=
  ⟨h.1, Nat.le_trans h.2 hle⟩

theorem Fits.sorted {n : Nat} {j : Json} (h : j.Fits n) : j.sorted.Fits n :=
  ⟨h.1.sorted, Nat.le_trans (depth_sorted_le j) h.2⟩

theorem fits_text (n : Nat) (s : String) : (text s).Fits n :=
  ⟨printable_text s, Nat.zero_le n⟩

theorem fits_bool (n : Nat) (b : Bool) : (bool b).Fits n :=
  ⟨printable_bool b, Nat.zero_le n⟩

theorem fits_array {n : Nat} {items : List Json} (h : ∀ j ∈ items, j.Fits n) :
    (array items).Fits (n + 1) :=
  ⟨.array fun j hj => (h j hj).1,
    Nat.succ_le_succ (depthItems_le.2 fun j hj => (h j hj).2)⟩

theorem fits_object {n : Nat} {members : List (String × Json)} (h : ∀ m ∈ members, m.2.Fits n) :
    (object members).Fits (n + 1) :=
  ⟨.object fun m hm => (h m hm).1,
    Nat.succ_le_succ (depthMembers_le.2 fun m hm => (h m hm).2)⟩

end Json

namespace Layout

mutual

/-- The layout is made of texts, flags, identifiers and timestamps only, and all fields of its
records are written. -/
def Full : Layout → Prop
  | .bool => True
  | .text => True
  | .recordId => True
  | .timestamp => True
  | .list item => Full item
  | .record _ _ fields => FullFields fields
  | .choice _ variants => variants.Bare
  | _ => False

/-- The layouts of all fields are full, and all fields are written. -/
def FullFields : Fields → Prop
  | .nil => True
  | .cons _ absence layout rest => absence ≠ .omitted ∧ Full layout ∧ FullFields rest

end

mutual

theorem full_of_plain : (l : Layout) → l.Plain → l.Full
  | .bool, _ | .text, _ | .recordId, _ | .timestamp, _ => trivial
  | .list item, hl => full_of_plain item hl
  | .record _ _ fields, hl => fullFields_of_plain fields hl
  | .choice _ _, hl => hl

theorem fullFields_of_plain : (fs : Fields) → PlainFields fs → FullFields fs
  | .nil, _ => trivial
  | .cons _ _ l rest, ⟨ha, hl, hrest⟩ =>
    ⟨by rw [ha]; exact nofun, full_of_plain l hl, fullFields_of_plain rest hrest⟩

end

mutual

/-- How deep arrays and documents are nested in what a full layout writes. -/
def depth : Layout → Nat
  | .list item => depth item + 1
  | .record _ _ fields => fieldsDepth fields + 1
  | _ => 0

/-- How deep they are nested in the fields of a record. -/
def fieldsDepth : Fields → Nat
  | .nil => 0
  | .cons _ _ layout rest => max (depth layout) (fieldsDepth rest)

end

theorem fits_of_encodeVariant : {vs : Variants} → vs.Bare → {x : VariantsCarrier vs} →
    {v : Value} → encodeVariant vs x = .ok v → v.tree.Fits 0
  | .cons tag _ _, ⟨hp, _⟩, .inl _, _, h => by
    subst hp
    obtain rfl := Except.ok.inj h
    exact Json.fits_text 0 tag
  | .cons _ _ _, ⟨_, hvs⟩, .inr _, _, h => fits_of_encodeVariant hvs h

mutual

/-- **What is written by a full layout can be printed** and is nested no deeper than the layout. -/
theorem fits_of_encode : (l : Layout) → l.Full → {x : l.Carrier} → {v : Value} →
    encode l x = .ok v → v.tree.Fits l.depth
  | .bool, _, b, _, h => Except.ok.inj h ▸ Json.fits_bool 0 b
  | .text, _, s, _, h => Except.ok.inj h ▸ Json.fits_text 0 s
  | .recordId, _, id, _, h => Except.ok.inj h ▸ Json.fits_text 0 id.toHex
  | .timestamp, _, t, _, h => Except.ok.inj h ▸ Json.fits_text 0 t.format
  | .list item, hl, xs, _, h => by
    obtain ⟨vs, hlist, rfl⟩ := map_eq_ok.1 h
    have hvs := encodeList_eq_ok.1 hlist
    clear h hlist
    rw [Value.tree, Value.treeItems_eq_map]
    apply Json.fits_array
    rw [List.forall_mem_map]
    induction hvs with
    | nil => exact List.forall_mem_nil _
    | cons ha _ ih => exact List.forall_mem_cons.2 ⟨fits_of_encode item hl ha, ih⟩
  | .record _ _ fields, hl, _, _, h => by
    obtain ⟨entries, hentries, rfl⟩ := map_eq_ok.1 h
    rw [Value.tree, Value.treeMembers_eq_map]
    apply Json.fits_object
    rw [List.forall_mem_map]
    exact fits_of_encodeFields fields hl (Nat.le_refl _) hentries (List.forall_mem_nil _)
  | .choice _ _, hl, _, _, h => fits_of_encodeVariant hl h

theorem fits_of_encodeFields : (fs : Fields) → FullFields fs → {n : Nat} → fieldsDepth fs ≤ n →
    {entries entries' : Entries} → {xs : FieldsCarrier fs} →
    encodeFields fs entries xs = .ok entries' → (∀ e ∈ entries, e.2.tree.Fits n) →
    ∀ e ∈ entries', e.2.tree.Fits n
  | .nil, _, _, _, _, _, _, h, hentries => Except.ok.inj h ▸ hentries
  | .cons tag absence l rest, ⟨ha, hl, hrest⟩, n, hn, entries, _, (x, _), h, hentries => by
    rw [encodeFields, if_neg fun h => ha h.1] at h
    obtain ⟨v, hv, h⟩ := bind_eq_ok.1 h
    apply fits_of_encodeFields rest hrest (Nat.le_trans (Nat.le_max_right _ _) hn) h
    intro e he
    rcases Entries.mem_put he with rfl | he
    · exact (fits_of_encode l hl hv).mono (Nat.le_trans (Nat.le_max_left _ _) hn)
    · exact hentries e he

end

section

variable {l : Layout} (hl : l.Plain) {x : l.Carrier} {d : Document} (hd : l.toDocument x = .ok d)
include hl hd

/-- **The document of a plain layout is read back from its indented text.** -/
theorem read?_pretty_toDocument (hdepth : l.depth ≤ Json.maxDepth) {b : String}
    (hb : Json.Blank b.toList) : Json.read? (d.toJson.pretty ++ b) = some d.toJson := by
  have hfits : d.toJson.Fits l.depth := 
    (fits_of_encode l (full_of_plain l hl) (toDocument_eq_ok.1 hd)).sorted
  exact Json.read?_pretty hfits.1 (Nat.le_trans hfits.2 hdepth) hb

/-- **The JSON of a document holds the same value as the document**, in whatever order the keys
stand in either. -/
theorem ofDocument_ofJson {y : l.Carrier} (hread : l.ofDocument d = .ok y) :
    ∃ d', Document.ofJson d.toJson = .ok d' ∧ l.ofDocument d' = .ok y := by
  have hdistinct := distinct_of_encode l (toDocument_eq_ok.1 hd)
  have hy := decode_resorted l hl hdistinct (mapError_eq_ok.1 hread)
  cases hdistinct with
  | document hkeys _ =>
    obtain ⟨entries, hentries, -⟩ := Value.resorted_document hkeys
    refine ⟨⟨entries⟩, ?_, mapError_eq_ok.2 ?_⟩
    · have hsorted : d.toJson.sorted = d.toJson := Json.sorted_sorted _
      rw [Document.ofJson, hsorted]
      exact congrArg Document.ofValue hentries
    · show decode .document l (.document entries) = .ok y
      rw [← hentries]
      exact hy

end

end Layout

end JobRegistry
