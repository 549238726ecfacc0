import JobRegistry.Proofs.Json.Normal
import JobRegistry.Proofs.Mapper.Distinct

/-!
# The order of keys does not matter to readers

A document that is printed as JSON and read again has its keys in the order of their names, at every
level (`Value.resorted`). Each key has the value that it had before, provided that none is there
twice (`Value.Distinct`), as in all that is written (`distinct_of_encode`). And since readers look
for the keys by name, what a plain layout reads is the same as before (`decode_resorted`).
-/

namespace JobRegistry

namespace Value

/-- The value after it was printed as JSON in normal form and read again. -/
def resorted (v : Value) : Value :=
  .ofJson v.tree.sorted

theorem resorted_array (items : List Value) :
    (array items).resorted = .array (items.map resorted) := by
  rw [resorted, tree, Json.sorted, ofJson, treeItems_eq_map, Json.sortedItems_eq_map,
    ofItems_eq_map, List.map_map, List.map_map]
  rfl

/-- Among the members of the normal form each key has the normal form of its value. -/
theorem sorted_tree_document {entries : Entries} (h : (entries.map Prod.fst).Nodup) :
    ∃ members, (document entries).tree.sorted = .object members ∧
      (∀ key, members.lookup key = (Entries.get? key entries).map fun v => v.tree.sorted) ∧
      ∀ key ∈ members.map Prod.fst, key ∈ entries.map Prod.fst := by
  have hmembers : Json.sortedMembers (treeMembers entries) =
      entries.map fun e => (e.1, e.2.tree.sorted) := by
    rw [treeMembers_eq_map, Json.sortedMembers_eq_map, List.map_map]
    rfl
  have hnodup : ((entries.map fun e => (e.1, e.2.tree.sorted)).map Prod.fst).Nodup := by
    rw [List.map_map]
    exact h
  refine ⟨Sorted.ofList Sorted.textBefore (Json.sortedMembers (treeMembers entries)), ?_,
    fun key => ?_, fun key hkey => ?_⟩
  · rw [tree, Json.sorted]
  · rw [Entries.get?_eq_lookup, Sorted.lookup_ofList, hmembers, Sorted.last?_eq_lookup hnodup,
      Sorted.lookup_map_snd (fun v : Value => v.tree.sorted)]
  · obtain ⟨m, hm, rfl⟩ := List.mem_map.1 hkey
    have hm := Sorted.mem_ofList hm
    rw [hmembers] at hm
    obtain ⟨e, he, rfl⟩ := List.mem_map.1 hm
    exact List.mem_map.2 ⟨e, he, rfl⟩

/-- Under each key stands what stood there before, resorted in its turn. -/
theorem resorted_document {entries : Entries} (h : (entries.map Prod.fst).Nodup) :
    ∃ entries', (document entries).resorted = .document entries' ∧
      (∀ key, Entries.get? key entries' = (Entries.get? key entries).map resorted) ∧
      ∀ key ∈ entries'.map Prod.fst, key ∈ entries.map Prod.fst := by
  obtain ⟨members, hsorted, hlookup, hkeys⟩ := sorted_tree_document h
  refine ⟨ofMembers members, ?_, fun key => ?_, fun key hkey => ?_⟩
  · rw [resorted, hsorted, ofJson]
  · rw [Entries.get?_eq_lookup, ofMembers_eq_map, Sorted.lookup_map_snd, hlookup, Option.map_map]
    rfl
  · rw [ofMembers_eq_map, List.map_map] at hkey
    exact hkeys key hkey

end Value

namespace Layout

theorem forall_mem_of_strangerAt? {tags : List String} {ms : Entries} {i : Nat}
    (h : strangerAt? tags i ms = none) : ∀ name ∈ ms.map Prod.fst, name ∈ tags := by
  induction ms generalizing i with
  | nil => exact List.forall_mem_nil _
  | cons m rest ih =>
    rw [strangerAt?] at h
    split at h
    · next hm => exact List.forall_mem_cons.2 ⟨List.contains_iff_mem.1 hm, ih h⟩
    · cases h

/-- A choice without payloads is read from null only, where it is read from a member. -/
theorem eq_null_of_decodeVariant {name tag : String} {payload : Value} {known : List String} :
    {vs : Variants} → vs.Bare → {x : VariantsCarrier vs} →
    decodeVariant .document name tag payload known vs = .ok x → payload = .null
  | .nil, _, _, h => nomatch h
  | .cons t _ vs, ⟨hp, hvs⟩, x, h => by
    subst hp
    rw [decodeVariant] at h
    split at h
    · obtain ⟨y, hy, -⟩ := map_eq_ok.1 h
      cases payload <;> first | rfl | cases hy
    · obtain ⟨y, hy, -⟩ := map_eq_ok.1 h
      exact eq_null_of_decodeVariant hvs hy

theorem decode_choice_resorted {name : String} {vs : Variants} (hvs : vs.Bare) {v : Value}
    {x : VariantsCarrier vs} (h : decode .document (.choice name vs) v = .ok x) :
    decode .document (.choice name vs) v.resorted = .ok x := by
  cases v with
  | text s => exact h
  | document entries =>
    cases entries with
    | nil => cases h
    | cons e rest =>
      cases rest with
      | nil =>
        obtain ⟨tag, payload⟩ := e
        obtain rfl := eq_null_of_decodeVariant hvs h
        exact h
      | cons _ _ => cases h
  | _ => cases h

/-- Where readings of items do not mind that these are resorted, those of lists do not either. -/
theorem forall₂_resorted {l : Layout}
    (hl : ∀ {v : Value}, v.Distinct → ∀ {x : l.Carrier}, decode .document l v = .ok x →
      decode .document l v.resorted = .ok x) {vs : List Value} (hvs : ∀ v ∈ vs, v.Distinct)
    {xs : List l.Carrier} (h : List.Forall₂ (fun v x => decode .document l v = .ok x) vs xs) :
    List.Forall₂ (fun v x => decode .document l v = .ok x) (vs.map Value.resorted) xs := by
  induction h with
  | nil => exact .nil
  | cons hx _ ih =>
    obtain ⟨hv, hvs⟩ := List.forall_mem_cons.1 hvs
    exact .cons (hl hv hx) (ih hvs)

mutual

/-- **The order of keys does not matter to plain layouts.** -/
theorem decode_resorted : (l : Layout) → l.Plain → {v : Value} → v.Distinct → {x : l.Carrier} →
    decode .document l v = .ok x → decode .document l v.resorted = .ok x
  | .bool, _, v, _, _, h => by cases v <;> first | exact h | cases h
  | .text, _, v, _, _, h => by cases v <;> first | exact h | cases h
  | .recordId, _, v, _, _, h => by cases v <;> first | exact h | cases h
  | .timestamp, _, v, _, _, h => by cases v <;> first | exact h | cases h
  | .list item, hl, v, hv, xs, h => by
    obtain ⟨vs, hnode, hvs⟩ := (decode_list_eq_ok _).1 h
    cases hv with
    | array hitems =>
      obtain rfl := Node.items.inj hnode
      rw [Value.resorted_array]
      exact (decode_list_eq_ok _).2 ⟨_, rfl, forall₂_resorted (decode_resorted item hl) hitems hvs⟩
    | _ => cases hnode
  | .record _ strict fields, hl, v, hv, xs, h => by
    obtain ⟨ms, hnode, hstrict, hms⟩ | ⟨vs, hnode, hsize, hvs⟩ := (decode_record_eq_ok _).1 h
    · cases hv with
      | document hkeys hvalues =>
        obtain rfl := Node.members.inj hnode
        obtain ⟨ms', heq, hget, hsub⟩ := Value.resorted_document hkeys
        rw [heq]
        refine (decode_record_eq_ok _).2 (.inl ⟨ms', rfl, fun hs => ?_, ?_⟩)
        · have hknown := forall_mem_of_strangerAt? (hstrict hs)
          exact strangerAt?_eq_none (fun key hkey => hknown key (hsub key hkey)) 0
        · exact decodeFields_resorted fields hl hget hvalues hms
      | _ => cases hnode
    · cases hv with
      | array hitems =>
        obtain rfl := Node.items.inj hnode
        rw [Value.resorted_array]
        have hfits (n : Nat) : ¬ (Reading.document.refusesSurplus = true ∧ fields.size < n) :=
          fun h => Bool.false_ne_true h.1
        exact (decode_record_eq_ok _).2 (.inr ⟨_, rfl, hfits _,
          decodeSequence_resorted fields hl hitems hvs⟩)
      | _ => cases hnode
  | .choice _ _, hl, _, _, _, h => decode_choice_resorted hl h

theorem decodeFields_resorted : (fs : Fields) → PlainFields fs → {ms ms' : Entries} →
    (∀ key, Entries.get? key ms' = (Entries.get? key ms).map Value.resorted) →
    (∀ e ∈ ms, e.2.Distinct) → {xs : FieldsCarrier fs} →
    decodeFields .document ms fs = .ok xs → decodeFields .document ms' fs = .ok xs
  | .nil, _, _, _, _, _, _, h => h
  | .cons tag _ l rest, ⟨ha, hl, hrest⟩, ms, ms', hget, hvalues, (x, xs), h => by
    subst ha
    obtain ⟨⟨v, hv, hx⟩, hxs⟩ := (decodeFields_cons_eq_ok _ hl).1 h
    rw [memberAt?_snd] at hv
    refine (decodeFields_cons_eq_ok _ hl).2 ⟨⟨v.resorted, ?_, ?_⟩, ?_⟩
    · rw [memberAt?_snd, hget, hv]
      rfl
    · exact decode_resorted l hl (hvalues _ (Entries.mem_of_get? hv)) hx
    · exact decodeFields_resorted rest hrest hget hvalues hxs

theorem decodeSequence_resorted : (fs : Fields) → PlainFields fs → {title : String} → {i : Nat} →
    {vs : List Value} → (∀ v ∈ vs, v.Distinct) → {xs : FieldsCarrier fs} →
    decodeSequence .document title fs i vs = .ok xs →
    decodeSequence .document title fs i (vs.map Value.resorted) = .ok xs
  | .nil, _, _, _, _, _, _, h => h
  | .cons _ _ l rest, ⟨ha, hl, hrest⟩, _, _, _, hvs, (_, _), h => by
    subst ha
    obtain ⟨v, vs, rfl, hx, hxs⟩ := (decodeSequence_cons_eq_ok _).1 h
    obtain ⟨hv, hvs⟩ := List.forall_mem_cons.1 hvs
    exact (decodeSequence_cons_eq_ok _).2 ⟨_, _, rfl, decode_resorted l hl hv hx,
      decodeSequence_resorted rest hrest hvs hxs⟩

end

end Layout

end JobRegistry
