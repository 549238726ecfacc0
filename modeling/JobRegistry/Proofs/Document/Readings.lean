import JobRegistry.Proofs.Document.Value
import JobRegistry.Proofs.Json.Normal

/-!
# Two ways to read a document

A text is read as a document by its tree in normal form (`Document.ofJson`) or as it is written
(`Document.ofWire`). The two readings treat keys that occur twice and integers that are too great
each in a way of its own, and come to the same entries in another order: `Value.sorted` puts the
entries of every document into the order of their keys, and what is read as written, once sorted, is
what is read in normal form (`sorted_ofWritten`). In particular both readings take the same texts
for documents (`readings_agree`).
-/

namespace JobRegistry

open Number

/-! ## Entries in order -/

namespace Entries

/-- The entries in the order of their keys. -/
def sort (entries : Entries) : Entries :=
  entries.mergeSort fun a b => !Sorted.textBefore b.1 a.1

theorem sort_perm (entries : Entries) : entries.sort.Perm entries :=
  List.mergeSort_perm _ _

/-- Entries with different keys are in order when they are sorted. -/
theorem ordered_sort {entries : Entries} (h : (entries.map Prod.fst).Nodup) :
    Sorted.Ordered entries.sort := by
  have hsorted : entries.sort.Pairwise fun a b => (!Sorted.textBefore b.1 a.1) = true := by
    apply List.pairwise_mergeSort
    · intro a b c hab hbc
      simp only [Bool.not_eq_true', Sorted.textBefore, decide_eq_false_iff_not,
        String.not_lt] at *
      exact String.le_trans hab hbc
    · intro a b
      cases hab : Sorted.textBefore a.1 b.1 with
      | false => simp
      | true => simp [Sorted.textBefore_asymm hab]
  have hkeys : (entries.sort.map Prod.fst).Nodup := (entries.sort_perm.map _).nodup_iff.2 h
  refine (hsorted.and (List.pairwise_map.1 hkeys)).imp fun {a b} hab => ?_
  by_contra hnot
  exact hab.2 (Sorted.eq_of_not_textBefore hnot (by simpa using hab.1))

theorem sort_of_ordered {entries : Entries} (h : Sorted.Ordered entries) :
    entries.sort = entries :=
  List.mergeSort_of_pairwise (h.imp fun hab => by rw [Sorted.textBefore_asymm hab, Bool.not_false])

end Entries

/-! ## Values in order -/

namespace Value

mutual

/-- The value with the entries of every document in the order of their keys. -/
def sorted : Value → Value
  | .array items => .array (sortedItems items)
  | .document entries => .document (sortedEntries entries).sort
  | v => v

/-- Items, each with its entries in order. -/
def sortedItems : List Value → List Value
  | [] => []
  | v :: rest => sorted v :: sortedItems rest

/-- Entries where they stand, their values with entries in order. -/
def sortedEntries : List (String × Value) → Entries
  | [] => []
  | (key, v) :: rest => (key, sorted v) :: sortedEntries rest

end

theorem sortedItems_eq_map (items : List Value) : sortedItems items = items.map sorted := by
  induction items with
  | nil => rfl
  | cons v rest ih => rw [sortedItems, ih, List.map_cons]

theorem sortedEntries_eq_map (entries : Entries) :
    sortedEntries entries = entries.map fun e => (e.1, e.2.sorted) := by
  induction entries with
  | nil => rfl
  | cons e rest ih => rw [sortedEntries, ih, List.map_cons]

/-! ## Integers -/

theorem ofWhole_of_le {n : Whole64} (h : n.1 ≤ 9223372036854775807) :
    ofWhole n = .int ⟨n.1, n.2.1, h⟩ := by
  have hfits : Ranged.ofInt? _ _ n.1 = some (⟨n.1, n.2.1, h⟩ : Signed64) :=
    Ranged.ofInt?_eq_some.2 rfl
  rw [ofWhole, hfits]

theorem ofWhole_of_lt {n : Whole64} (h : 9223372036854775807 < n.1) :
    ofWhole n = .float (.ofInt binary64 n.1) := by
  have hnone : (Ranged.ofInt? _ _ n.1 : Option Signed64) = none := dif_neg (by omega)
  rw [ofWhole, hnone]

/-- An integer is the same value whether its sign is looked at first or its size. -/
theorem ofInteger_eq_ofWhole (n : Whole64) : ofInteger n = ofWhole n := by
  obtain ⟨n, hlow, hhigh⟩ := n
  unfold ofInteger ofUnsigned
  split
  · next hneg => exact (ofWhole_of_le (n := ⟨n, hlow, hhigh⟩) (by simp at hneg ⊢; omega)).symm
  · next hneg =>
    have hnat : (n.toNat : Int) = n := Int.toNat_of_nonneg (by simpa using hneg)
    split
    · next hle =>
      rw [ofWhole_of_le (n := ⟨n, hlow, hhigh⟩) (by simp at hle ⊢; omega)]
      simp only [hnat]
    · next hlt =>
      rw [ofWhole_of_lt (n := ⟨n, hlow, hhigh⟩) (by simp at hlt ⊢; omega)]
      simp only [hnat]

/-! ## Documents come from objects -/

theorem ofWhole_ne_document (n : Whole64) (entries : Entries) : ofWhole n ≠ .document entries := by
  rw [ofWhole]
  split <;> nofun

theorem ofJson_eq_document {j : Json} {entries : Entries} (h : ofJson j = .document entries) :
    ∃ members, j = .object members ∧ entries = ofMembers members := by
  cases j with
  | object members => exact ⟨members, rfl, (document.inj h).symm⟩
  | whole n => exact absurd h (ofWhole_ne_document n entries)
  | _ => cases h

theorem ofWritten_eq_document {j : Json} {entries : Entries}
    (h : ofWritten j = .document entries) :
    ∃ members, j = .object members ∧ entries = Entries.ofList (ofWrittenMembers members) := by
  cases j with
  | object members => exact ⟨members, rfl, (document.inj h).symm⟩
  | whole n => exact absurd ((ofInteger_eq_ofWhole n).symm.trans h) (ofWhole_ne_document n entries)
  | _ => cases h

/-! ## The two readings -/

/-- The members of an object, put one after another and then sorted, are those that the normal form
of the object leaves, each with its value in the same relation. -/
theorem sort_ofWrittenMembers {members : List (String × Json)}
    (h : ∀ m ∈ members, (ofWritten m.2).sorted = ofJson m.2.sorted) :
    (sortedEntries (Entries.ofList (ofWrittenMembers members))).sort =
      ofMembers (Sorted.ofList Sorted.textBefore (Json.sortedMembers members)) := by
  have hkeys : ((sortedEntries (Entries.ofList (ofWrittenMembers members))).map
      Prod.fst).Nodup := by
    rw [sortedEntries_eq_map, List.map_map]
    exact Entries.nodup_ofList _
  have hordered : Sorted.Ordered
      (ofMembers (Sorted.ofList Sorted.textBefore (Json.sortedMembers members))) := by
    rw [ofMembers_eq_map]
    exact List.pairwise_map.2 (Sorted.ordered_ofList _)
  refine (Entries.ordered_sort hkeys).ext hordered fun k => ?_
  -- under each key stands the value of its last member
  calc (sortedEntries (Entries.ofList (ofWrittenMembers members))).sort.lookup k
    _ = (sortedEntries (Entries.ofList (ofWrittenMembers members))).lookup k :=
        (Sorted.lookup_perm hkeys (Entries.sort_perm _).symm k).symm
    _ = (Sorted.last? k members).map fun j => (ofWritten j).sorted := by
        rw [sortedEntries_eq_map, Sorted.lookup_map_snd, ← Entries.get?_eq_lookup,
          Entries.get?_ofList, ofWrittenMembers_eq_map, Sorted.last?_map_snd, Option.map_map]
        rfl
    _ = (Sorted.last? k members).map fun j => ofJson j.sorted :=
        Option.map_congr fun j hj => h (k, j) (Sorted.mem_of_last? hj)
    _ = (ofMembers (Sorted.ofList Sorted.textBefore (Json.sortedMembers members))).lookup k := by
        rw [ofMembers_eq_map, Sorted.lookup_map_snd, Sorted.lookup_ofList,
          Json.sortedMembers_eq_map, Sorted.last?_map_snd, Option.map_map]
        rfl

mutual

/-- **What is read as written, once sorted, is what is read in normal form.** -/
theorem sorted_ofWritten : (j : Json) → (ofWritten j).sorted = ofJson j.sorted
  | .null => rfl
  | .bool _ => rfl
  | .whole n => by
    show (ofInteger n).sorted = ofWhole n
    rw [ofInteger_eq_ofWhole, ofWhole]
    split <;> rfl
  | .real _ => rfl
  | .text _ => rfl
  | .array items => by
    rw [ofWritten, sorted, Json.sorted, ofJson, sortedItems_ofWrittenItems items]
  | .object members => by
    rw [ofWritten, sorted, Json.sorted, ofJson,
      sort_ofWrittenMembers (sorted_of_mem_members members)]

theorem sortedItems_ofWrittenItems : (items : List Json) →
    sortedItems (ofWrittenItems items) = ofItems (Json.sortedItems items)
  | [] => rfl
  | j :: rest => by
    rw [ofWrittenItems, sortedItems, Json.sortedItems, ofItems, sorted_ofWritten j,
      sortedItems_ofWrittenItems rest]

theorem sorted_of_mem_members : (members : List (String × Json)) →
    ∀ m ∈ members, (ofWritten m.2).sorted = ofJson m.2.sorted
  | [] => List.forall_mem_nil _
  | (_, j) :: rest => List.forall_mem_cons.2 ⟨sorted_ofWritten j, sorted_of_mem_members rest⟩

end

end Value

namespace Document

/-- The document with the entries of every document in it in the order of their keys. -/
def sorted (d : Document) : Document :=
  ⟨(Value.sortedEntries d.entries).sort⟩

theorem ofValue_sorted {v : Value} {d : Document} :
    ofValue v.sorted = .ok d ↔ ∃ d', ofValue v = .ok d' ∧ d'.sorted = d := by
  cases v with
  | document entries => simp [Value.sorted, ofValue, sorted]
  | _ => simp [Value.sorted, ofValue]

/-- A document is read as written from the texts of which the tree can be read. -/
theorem ofWire_eq_ok {s : String} {d : Document} : ofWire s = .ok d ↔
    ∃ j, Json.read? s = some j ∧ ofValue (.ofWritten j) = .ok d := by
  unfold ofWire Json.read?
  cases Json.readFront? s with
  | none => exact iff_of_false nofun nofun
  | some read =>
    obtain ⟨j, rest⟩ := read
    cases hv : ofValue (Value.ofWritten j) with
    | error e => by_cases hb : (Json.skipBlanks rest).isEmpty = true <;> simp [hv, hb]
    | ok d' => by_cases hb : (Json.skipBlanks rest).isEmpty = true <;> simp [hv, hb]

end Document

/-- **The two ways to read a document agree.** For every text, the value that its tree has in normal
form is the value that is read as it is written, sorted; one is there when the other is. The text is
taken for a document in both ways or in neither, and the documents agree in the same sense. Of the
numbers, both readings keep exactly the integers that fit sixty-four bits with a sign and make the
same floats of the others. -/
theorem readings_agree (s : String) :
    (Json.read? s).map (fun j => Value.ofJson j.sorted) = (Value.ofWire? s).map Value.sorted ∧
      (∀ d, (∃ j, Json.read? s = some j ∧ Document.ofJson j = .ok d) ↔
        ∃ d', Document.ofWire s = .ok d' ∧ d'.sorted = d) ∧
      (∀ n : Whole64, Value.ofJson (.whole n) = Value.ofWritten (.whole n) ∧
        (∀ m, Value.ofJson (.whole n) = .int m ↔ n.1 = m.1) ∧
        (9223372036854775807 < n.1 → Value.ofJson (.whole n) = .float (.ofInt binary64 n.1))) ∧
      ∀ x, Value.ofJson (.real x) = .float x ∧ Value.ofWritten (.real x) = .float x := by
  refine ⟨?_, fun d => ?_, fun n => ⟨?_, fun m => ?_, Value.ofWhole_of_lt⟩, fun x => ⟨rfl, rfl⟩⟩
  · rw [Value.ofWire?, Option.map_map]
    exact Option.map_congr fun j _ => (Value.sorted_ofWritten j).symm
  · simp only [Document.ofJson, ← Value.sorted_ofWritten, Document.ofValue_sorted,
      Document.ofWire_eq_ok]
    constructor
    · rintro ⟨j, hj, d', hd', rfl⟩
      exact ⟨d', ⟨j, hj, hd'⟩, rfl⟩
    · rintro ⟨d', ⟨j, hj, hd'⟩, rfl⟩
      exact ⟨j, hj, d', hd', rfl⟩
  · exact (Value.ofInteger_eq_ofWhole n).symm
  · by_cases h : n.1 ≤ 9223372036854775807
    · rw [Value.ofJson, Value.ofWhole_of_le h, Value.int.injEq, Subtype.ext_iff]
    · rw [Value.ofJson, Value.ofWhole_of_lt (by omega)]
      have := m.2.2
      exact iff_of_false nofun (by omega)

end JobRegistry
