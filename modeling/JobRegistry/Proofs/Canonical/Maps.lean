import JobRegistry.Proofs.Json.Alike
import JobRegistry.Proofs.Text.Bytes

/-!
# Canonical maps

A map has one canonical text, however it was put together: of entries in any order, among them such
as later ones replace, of a map whose keys are in order already, or of a JSON object (`Assembled`).
The text tells the last value that was given for every key and nothing else, and the keys stand in
it in the order of their bytes (`maps_have_one_text`).
-/

namespace JobRegistry

open Sorted (textBefore ordered_ofList mem_ofList lookup_ofList ofList_eq_iff ofList_perm
  last?_eq_lookup_reverse last?_eq_lookup last?_map_snd)

namespace Canonical

theorem render_inj {v w : Canonical} : v.render = w.render ↔ v = w :=
  ⟨fun h => chars_inj (String.ofList_injective h), fun h => by rw [h]⟩

/-- **Entries make the same map exactly when the last values of all keys are the same.** -/
theorem ofEntries_eq_iff {l l' : List (String × Canonical)} :
    ofEntries l = ofEntries l' ↔ ∀ k, l.reverse.lookup k = l'.reverse.lookup k := by
  rw [ofEntries, ofEntries, Canonical.map.injEq, ofList_eq_iff]
  simp only [last?_eq_lookup_reverse]

/-- The map of entries is that of their ordered map. -/
theorem ofMap_ofList {α : Type} (value : α → Canonical) (l : List (String × α)) :
    ofMap value (Sorted.ofList textBefore l) = ofEntries (l.map fun e => (e.1, value e.2)) := by
  rw [ofMap, ofEntries, ofEntries, Canonical.map.injEq, ofList_eq_iff]
  intro k
  rw [last?_map_snd, last?_map_snd, last?_eq_lookup (ordered_ofList l).nodup_keys, lookup_ofList]

theorem mapChars_eq (entries : List (String × Canonical)) : mapChars entries =
    entries.flatMap fun e => Text.literal e.1 ++ ':' :: (e.2.chars ++ [';']) := by
  induction entries with
  | nil => rfl
  | cons e rest ih =>
    rw [mapChars, ih, List.flatMap_cons]
    simp only [List.append_assoc, List.cons_append, List.nil_append]

/-! ## Keys in the order of their bytes -/

/-- In all maps of the value the keys are in the order of their bytes. -/
inductive InByteOrder : Canonical → Prop
  | null : InByteOrder .null
  | bool (b : Bool) : InByteOrder (.bool b)
  | int (n : Number.Signed64) : InByteOrder (.int n)
  | text (s : String) : InByteOrder (.text s)
  | seq {items : List Canonical} (h : ∀ v ∈ items, InByteOrder v) : InByteOrder (.seq items)
  | map {entries : List (String × Canonical)}
    (ordered : entries.Pairwise fun e f => e.1.toUTF8.toList < f.1.toUTF8.toList)
    (h : ∀ e ∈ entries, InByteOrder e.2) : InByteOrder (.map entries)

theorem pairwise_bytes_ofList {α : Type} (l : List (String × α)) :
    (Sorted.ofList textBefore l).Pairwise fun e f => e.1.toUTF8.toList < f.1.toUTF8.toList :=
  (ordered_ofList l).imp fun h => Text.bytes_lt_iff.2 (of_decide_eq_true h)

theorem inByteOrder_ofEntries {l : List (String × Canonical)} (h : ∀ e ∈ l, e.2.InByteOrder) :
    (ofEntries l).InByteOrder :=
  .map (pairwise_bytes_ofList l) fun e he => h e (mem_ofList he)

theorem inByteOrder_ofWhole (n : Number.Whole64) : (ofWhole n).InByteOrder := by
  unfold ofWhole
  split
  · exact .int _
  · exact .text _

mutual

/-- The canonical value of a tree has its keys in the order of their bytes. -/
theorem inByteOrder_ofJson : (j : Json) → (ofJson j).InByteOrder
  | .null => .null
  | .bool b => .bool b
  | .whole n => inByteOrder_ofWhole n
  | .real _ => .text _
  | .text s => .text s
  | .array items => .seq (inByteOrder_ofItems items)
  | .object members => inByteOrder_ofEntries (inByteOrder_ofMembers members)

theorem inByteOrder_ofItems : (items : List Json) → ∀ v ∈ ofItems items, v.InByteOrder
  | [] => List.forall_mem_nil _
  | j :: rest => List.forall_mem_cons.2 ⟨inByteOrder_ofJson j, inByteOrder_ofItems rest⟩

theorem inByteOrder_ofMembers : (members : List (String × Json)) →
    ∀ e ∈ ofMembers members, e.2.InByteOrder
  | [] => List.forall_mem_nil _
  | (_, j) :: rest => List.forall_mem_cons.2 ⟨inByteOrder_ofJson j, inByteOrder_ofMembers rest⟩

end

/-! ## Values put together of the parts of a tree -/

mutual

/-- The value is put together of the parts of a JSON tree, at every level in a way of its own. The
objects that are taken apart have no member twice. -/
inductive Assembled : Json → Canonical → Prop
  /-- The tree is converted as a whole. -/
  | converted (j : Json) : Assembled j (ofJson j)
  | items {items : List Json} {vs : List Canonical} (h : AssembledItems items vs) :
    Assembled (.array items) (.seq vs)
  /-- The members of an object are entered in any order. -/
  | entries {members : List (String × Json)} {entries entries' : List (String × Canonical)}
    (hn : (members.map Prod.fst).Nodup) (h : AssembledEntries members entries)
    (hp : entries.Perm entries') : Assembled (.object members) (ofEntries entries')
  /-- The members of an object are entered in any order into an ordered map of values of some
  type, and the map is converted. -/
  | ordered {α : Type} (value : α → Canonical) {members : List (String × Json)}
    {map map' : List (String × α)} (hn : (members.map Prod.fst).Nodup)
    (h : AssembledEntries members (map.map fun e => (e.1, value e.2))) (hp : map.Perm map') :
    Assembled (.object members) (ofMap value (Sorted.ofList textBefore map'))

/-- The values are put together of the items, one by one. -/
inductive AssembledItems : List Json → List Canonical → Prop
  | nil : AssembledItems [] []
  | cons {j : Json} {v : Canonical} {items : List Json} {vs : List Canonical} (h : Assembled j v)
    (hs : AssembledItems items vs) : AssembledItems (j :: items) (v :: vs)

/-- The values under the names are put together of the members, one by one. -/
inductive AssembledEntries : List (String × Json) → List (String × Canonical) → Prop
  | nil : AssembledEntries [] []
  | cons {name : String} {j : Json} {v : Canonical} {members : List (String × Json)}
    {entries : List (String × Canonical)} (h : Assembled j v)
    (hs : AssembledEntries members entries) :
    AssembledEntries ((name, j) :: members) ((name, v) :: entries)

end

/-- The entries of an object in another order make the same map. -/
theorem ofEntries_of_perm {members : List (String × Json)} (hn : (members.map Prod.fst).Nodup)
    {entries : List (String × Canonical)} (hp : (ofMembers members).Perm entries) :
    ofEntries entries = ofJson (.object members) := by
  have hkeys : ((ofMembers members).map Prod.fst).Nodup := by
    rwa [ofMembers_eq_map, List.map_map]
  rw [ofJson, ofEntries, ofEntries, ofList_perm hkeys hp]

mutual

/-- **What is put together of the parts of a tree is the canonical value of the tree.** -/
theorem Assembled.eq_ofJson : {j : Json} → {v : Canonical} → Assembled j v → v = ofJson j
  | _, _, .converted _ => rfl
  | _, _, .items h => by rw [ofJson, h.eq_ofItems]
  | _, _, .entries hn h hp => ofEntries_of_perm hn (h.eq_ofMembers ▸ hp)
  | _, _, .ordered value hn h hp => by
    rw [ofMap_ofList]
    exact ofEntries_of_perm hn (h.eq_ofMembers ▸ hp.map _)

theorem AssembledItems.eq_ofItems : {items : List Json} → {vs : List Canonical} →
    AssembledItems items vs → vs = ofItems items
  | _, _, .nil => rfl
  | _, _, .cons h hs => by rw [ofItems, h.eq_ofJson, hs.eq_ofItems]

theorem AssembledEntries.eq_ofMembers : {members : List (String × Json)} →
    {entries : List (String × Canonical)} → AssembledEntries members entries →
      entries = ofMembers members
  | _, _, .nil => rfl
  | _, _, .cons h hs => by rw [ofMembers, h.eq_ofJson, hs.eq_ofMembers]

end

theorem assembledEntries_converted (members : List (String × Json)) :
    AssembledEntries members (members.map fun m => (m.1, ofJson m.2)) := by
  induction members with
  | nil => exact .nil
  | cons m rest ih => exact .cons (.converted m.2) ih

/-! ## One text -/

/-- **A map has one canonical text.** The maps of two lists of entries have the same text exactly
when every key has the same last value in both or is in neither. The text holds these values under
their keys, which stand in the order of their bytes. So it does not matter whether a JSON object is
converted, or its members are entered in any order, or converted from an ordered map of them, nor
which of these is done at which level of a tree. -/
theorem maps_have_one_text :
    (∀ l l' : List (String × Canonical), (ofEntries l).render = (ofEntries l').render ↔
      ∀ key, l.reverse.lookup key = l'.reverse.lookup key) ∧
    (∀ l : List (String × Canonical), ∃ sorted : List (String × Canonical),
      (sorted.Pairwise fun e f => e.1.toUTF8.toList < f.1.toUTF8.toList) ∧
      (∀ key, sorted.lookup key = l.reverse.lookup key) ∧
      (ofEntries l).render = String.ofList ('\x7b' :: (sorted.flatMap fun e =>
        Text.literal e.1 ++ ':' :: (e.2.render.toList ++ [';'])) ++ ['\x7d'])) ∧
    (∀ members members' : List (String × Json), (members.map Prod.fst).Nodup →
      members.Perm members' →
      (ofEntries (members'.map fun m => (m.1, ofJson m.2))).render =
          (ofJson (.object members)).render ∧
        (ofMap ofJson (Sorted.ofList textBefore members')).render =
          (ofJson (.object members)).render) ∧
    ∀ (j : Json) (v : Canonical), Assembled j v → v.render = (ofJson j).render ∧ v.InByteOrder := by
  have hassembled (j : Json) (v : Canonical) (h : Assembled j v) :
      v.render = (ofJson j).render ∧ v.InByteOrder := by
    rw [h.eq_ofJson]
    exact ⟨rfl, inByteOrder_ofJson j⟩
  refine ⟨fun l l' => render_inj.trans ofEntries_eq_iff, fun l => ?_, ?_, hassembled⟩
  · refine ⟨Sorted.ofList textBefore l, pairwise_bytes_ofList l, fun key => ?_, ?_⟩
    · rw [lookup_ofList, last?_eq_lookup_reverse]
    · simp only [render, String.toList_ofList, ofEntries, chars, mapChars_eq, List.cons_append]
  · intro members members' hn hp
    have hentries := assembledEntries_converted members
    exact ⟨(hassembled _ _ (.entries hn hentries (hp.map _))).1,
      (hassembled _ _ (.ordered ofJson hn hentries hp)).1⟩

/-- An object with another object in it, and a value that is put together of their members. -/
def specimenTree : Json :=
  .object [("b", .object [("y", .bool true), ("x", .null)]), ("a", .array [])]

/-- The canonical value of `specimenTree`, from an ordered map within entries in another order. -/
def specimenMap : Canonical :=
  ofEntries [("a", .seq []),
    ("b", ofMap id (Sorted.ofList textBefore [("x", .null), ("y", .bool true)]))]

theorem maps_have_one_text_specimen :
    (ofEntries [("a", .text "1"), ("b", .null), ("a", .text "2")]).render =
        (ofEntries [("a", .text "2"), ("b", .null)]).render ∧
      (ofEntries [("x", .null), ("y", .bool true)]).render =
        (ofJson (.object [("y", .bool true), ("x", .null)])).render ∧
      Assembled specimenTree specimenMap ∧ specimenMap.InByteOrder ∧
      specimenMap.render = (ofJson specimenTree).render ∧
      specimenMap.render = "\x7b\"a\":[];\"b\":\x7b\"x\":null;\"y\":true;\x7d;\x7d" := by
  obtain ⟨hlast, -, hobject, hone⟩ := maps_have_one_text
  have hswap : List.Perm [("y", bool true), ("x", null)] [("x", null), ("y", bool true)] :=
    .swap _ _ _
  have hinner : Assembled (.object [("y", .bool true), ("x", .null)])
      (ofMap id (Sorted.ofList textBefore [("x", .null), ("y", .bool true)])) :=
    .ordered id (by decide) (assembledEntries_converted _) hswap
  have houter : Assembled specimenTree specimenMap :=
    .entries (by decide) (.cons hinner (.cons (.converted _) .nil)) (.swap _ _ _)
  obtain ⟨hrender, horder⟩ := hone specimenTree specimenMap houter
  refine ⟨(hlast _ _).2 fun key => ?_, ?_, houter, horder, hrender, by decide⟩
  · by_cases ha : key = "a"
    · subst ha; rfl
    by_cases hb : key = "b"
    · subst hb; rfl
    · simp [List.lookup_cons, beq_false_of_ne ha, beq_false_of_ne hb]
  · exact (hobject [("y", .bool true), ("x", .null)] [("x", .null), ("y", .bool true)] (by decide)
      (.swap _ _ _)).1

end Canonical

end JobRegistry
