import JobRegistry.Proofs.Document.Wire

/-!
# What the normal form keeps

A JSON tree in normal form becomes a value and a value becomes a JSON tree in normal form. The tree
is left as it was if its integers fit sixty-four bits with a sign (`toJson_ofJson`). A greater one
becomes a float, and then stays one: the value that a tree becomes is stable
(`ofJson_toJson_ofJson`). And a value without infinities and the like is left as it was but for the
order of its entries (`ofJson_toJson`). So nothing that either form has a place for is lost
(`normalization_lossless`).
-/

namespace JobRegistry

open Number

namespace Json

mutual

/-- The integers in a tree, from its front to its end. -/
def integers : Json → List Whole64
  | .whole n => [n]
  | .array items => integersOfItems items
  | .object members => integersOfMembers members
  | _ => []

/-- The integers in items. -/
def integersOfItems : List Json → List Whole64
  | [] => []
  | j :: rest => integers j ++ integersOfItems rest

/-- The integers in members. -/
def integersOfMembers : List (String × Json) → List Whole64
  | [] => []
  | (_, j) :: rest => integers j ++ integersOfMembers rest

end

theorem mem_integers_array {items : List Json} {n : Whole64} :
    n ∈ (array items).integers ↔ ∃ j ∈ items, n ∈ j.integers := by
  have hitems : integersOfItems items = items.flatMap integers := by
    induction items with
    | nil => rfl
    | cons j rest ih => rw [integersOfItems, ih, List.flatMap_cons]
  rw [integers, hitems, List.mem_flatMap]

theorem mem_integers_object {members : List (String × Json)} {n : Whole64} :
    n ∈ (object members).integers ↔ ∃ m ∈ members, n ∈ m.2.integers := by
  have hmembers : integersOfMembers members = members.flatMap fun m => m.2.integers := by
    induction members with
    | nil => rfl
    | cons m rest ih => rw [integersOfMembers, ih, List.flatMap_cons]
  rw [integers, hmembers, List.mem_flatMap]

end Json

namespace Value

/-! ## From trees to values -/

/-- The tree of the value that a tree in normal form becomes, if its integers fit sixty-four bits
with a sign. -/
theorem tree_ofJson {j : Json} (h : j.Normal)
    (hfits : ∀ n ∈ j.integers, n.1 ≤ 9223372036854775807) : (ofJson j).tree = j := by
  induction h with
  | null => rfl
  | bool b => rfl
  | whole n =>
    rw [ofJson, ofWhole_of_le (hfits n (List.mem_singleton_self n))]
    rfl
  | real hfinite => rw [ofJson, tree, realTree, if_pos hfinite]
  | text s => rfl
  | @array items _ ih =>
    have hitems : items.map (fun j => (ofJson j).tree) = items :=
      (List.map_congr_left fun j hj =>
        ih j hj fun n hn => hfits n (Json.mem_integers_array.2 ⟨j, hj, hn⟩)).trans (List.map_id' _)
    rw [ofJson, tree, ofItems_eq_map, treeItems_eq_map, List.map_map]
    exact congrArg Json.array hitems
  | @object members _ _ ih =>
    have hmembers : members.map (fun m => (m.1, (ofJson m.2).tree)) = members :=
      Sorted.map_snd_eq_self (f := fun j => (ofJson j).tree) fun m hm =>
        ih m hm fun n hn => hfits n (Json.mem_integers_object.2 ⟨m, hm, hn⟩)
    rw [ofJson, tree, ofMembers_eq_map, treeMembers_eq_map, List.map_map]
    exact congrArg Json.object hmembers

/-- **A tree in normal form is left as it was**, if its integers fit sixty-four bits with a sign. -/
theorem toJson_ofJson {j : Json} (h : j.Normal)
    (hfits : ∀ n ∈ j.integers, n.1 ≤ 9223372036854775807) : (ofJson j).toJson = j := by
  rw [toJson, tree_ofJson h hfits, h.sorted_eq]

theorem distinct_ofJson {j : Json} (h : j.Normal) : (ofJson j).Distinct := by
  have hdistinct := distinct_ofJson_sorted j
  rwa [h.sorted_eq] at hdistinct

/-- An integer becomes a float only if it is positive, and then a finite one. -/
theorem isFinite_of_mem_floats_ofWhole {n : Whole64} {x : Double} (hx : x ∈ (ofWhole n).floats) :
    x.isFinite = true := by
  by_cases hn : n.1 ≤ 9223372036854775807
  · rw [ofWhole_of_le hn] at hx
    cases hx
  · rw [ofWhole_of_lt (by omega)] at hx
    obtain rfl := List.mem_singleton.1 hx
    obtain ⟨n, hlow, hhigh⟩ := n
    obtain ⟨k, rfl⟩ : ∃ k : Nat, n = k := Int.eq_ofNat_of_zero_le (by simp at hn; omega)
    exact (Json.atMost_ofInt (by omega)).isFinite (by decide)

/-- The value of a tree in normal form has finite floats only. -/
theorem isFinite_of_mem_floats_ofJson {j : Json} (h : j.Normal) {x : Double}
    (hx : x ∈ (ofJson j).floats) : x.isFinite = true := by
  induction h with
  | null => cases hx
  | bool b => cases hx
  | whole n => exact isFinite_of_mem_floats_ofWhole hx
  | real hfinite =>
    obtain rfl := List.mem_singleton.1 hx
    exact hfinite
  | text s => cases hx
  | array _ ih =>
    rw [ofJson, ofItems_eq_map] at hx
    obtain ⟨v, hv, hx⟩ := mem_floats_array.1 hx
    obtain ⟨j, hj, rfl⟩ := List.mem_map.1 hv
    exact ih j hj hx
  | object _ _ ih =>
    rw [ofJson, ofMembers_eq_map] at hx
    obtain ⟨e, he, hx⟩ := mem_floats_document.1 hx
    obtain ⟨m, hm, rfl⟩ := List.mem_map.1 he
    exact ih m hm hx

/-- The value of a tree in normal form has its entries in order. -/
theorem sorted_ofJson {j : Json} (h : j.Normal) : (ofJson j).sorted = ofJson j := by
  induction h with
  | null => rfl
  | bool b => rfl
  | whole n =>
    rw [ofJson, ofWhole]
    split <;> rfl
  | real h => rfl
  | text s => rfl
  | @array items _ ih =>
    rw [ofJson, Value.sorted, ofItems_eq_map, sortedItems_eq_map, List.map_map]
    exact congrArg Value.array (List.map_congr_left ih)
  | @object members ordered _ ih =>
    have hmembers : sortedEntries (ofMembers members) = ofMembers members := by
      rw [ofMembers_eq_map, sortedEntries_eq_map, List.map_map]
      exact List.map_congr_left fun m hm => congrArg (Prod.mk m.1) (ih m hm)
    have hordered : Sorted.Ordered (ofMembers members) := by
      rw [ofMembers_eq_map]
      exact List.pairwise_map.2 ordered
    rw [ofJson, Value.sorted, hmembers, Entries.sort_of_ordered hordered]

/-! ## From values to trees -/

/-- **A value is left as it was, with its entries in order**, if its floats are finite. -/
theorem ofJson_toJson {v : Value} (h : v.Distinct)
    (hfinite : ∀ x ∈ v.floats, x.isFinite = true) : ofJson v.toJson = v.sorted := by
  rw [toJson, ← sorted_ofWritten, ofWritten_tree h hfinite]

/-- **The value that a tree becomes is stable**, also where an integer became a float. -/
theorem ofJson_toJson_ofJson {j : Json} (h : j.Normal) :
    ofJson (ofJson j).toJson = ofJson j := by
  rw [ofJson_toJson (distinct_ofJson h) fun x => isFinite_of_mem_floats_ofJson h, sorted_ofJson h]

end Value

/-- **Normalization loses nothing that it has a place for.** A tree in normal form, the integers of
which fit sixty-four bits with a sign, is the tree of its value. The value of any tree in normal
form is the value of its own tree. And a value that can be made, the floats of which are finite,
comes back from its tree with the entries of every document in the order of their keys. -/
theorem normalization_lossless :
    (∀ j : Json, j.Normal → (∀ n ∈ j.integers, n.1 ≤ 9223372036854775807) →
      (Value.ofJson j).toJson = j) ∧
    (∀ j : Json, j.Normal → Value.ofJson (Value.ofJson j).toJson = Value.ofJson j) ∧
    ∀ v : Value, v.Made → (∀ x ∈ v.floats, x.isFinite = true) →
      Value.ofJson v.toJson = v.sorted :=
  ⟨fun _ hj hfits => Value.toJson_ofJson hj hfits, fun _ hj => Value.ofJson_toJson_ofJson hj,
    fun _ hv hfinite => Value.ofJson_toJson hv.distinct hfinite⟩

/-- The greatest unsigned integer of sixty-four bits becomes a float, and that is stable. -/
theorem normalization_lossless_specimens :
    let small := Json.object [("a", .array [.whole ⟨-1, by decide⟩, .real tenth]), ("b", .null)]
    let great := Json.array [.whole ⟨18446744073709551615, by decide⟩]
    small.Normal ∧ (Value.ofJson small).toJson = small ∧
      great.Normal ∧ (Value.ofJson great).toJson ≠ great ∧
      Value.ofJson (Value.ofJson great).toJson = Value.ofJson great ∧
      Document.parcel.toValue.Made ∧
      Value.ofJson Document.parcel.toJson = Document.parcel.toValue.sorted := by
  intro small great
  have hsmall : small.Normal := by
    have harray : (Json.array [.whole ⟨-1, by decide⟩, .real tenth]).Normal :=
      .array (List.forall_mem_cons.2 ⟨.whole _, List.forall_mem_singleton.2 (.real (by decide))⟩)
    exact .object (List.pairwise_pair.2 (by decide))
      (List.forall_mem_cons.2 ⟨harray, List.forall_mem_singleton.2 .null⟩)
  have hgreat : great.Normal := .array (List.forall_mem_singleton.2 (.whole _))
  have hchanged : (Value.ofJson great).toJson ≠ great := by
    intro h
    have hitem : Value.realTree (.ofInt binary64 18446744073709551615) =
        .whole ⟨18446744073709551615, by decide⟩ :=
      (List.cons.inj (Json.array.inj h)).1
    rw [Value.realTree] at hitem
    split at hitem <;> cases hitem
  have hmade := Document.distinct_parcel.made
  exact ⟨hsmall, normalization_lossless.1 _ hsmall (List.forall_mem_singleton.2 (by decide)),
    hgreat, hchanged, normalization_lossless.2.1 _ hgreat, hmade,
    normalization_lossless.2.2 _ hmade fun x hx => (Document.givenBack_parcel x hx).1⟩

end JobRegistry
