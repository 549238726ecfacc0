import JobRegistry.Proofs.Json.Compact
import JobRegistry.Proofs.Mapper.Printed

/-!
# Properties read back from JSON

What a full layout writes is read back as JSON properties if it is legible (`reread`), although
properties are read by stricter rules than documents: what is written has no surplus items, and the
members of its objects are sorted by name before they are read. A field that is written is found by
its tag, so that it does not matter what the field would stand for if it were missing.
-/

namespace JobRegistry.Layout

/-- The document form of a value, and what its tree is read as. -/
structure Reread (l : Layout) (x : l.Carrier) (v : Value) : Prop where
  encode_eq : l.encode x = .ok v
  decode_eq : l.Legible x → decode .properties l v.tree.sorted = .ok x

theorem decode_properties_recordId (id : RecordId) :
    decode .properties .recordId (.text id.toHex) = .ok id := by
  simp only [decode, Reading.properties, Json.node, RecordId.ofHex?_toHex]

theorem decode_properties_timestamp {t : Timestamp} (h : t.HasFourDigitYear) :
    decode .properties .timestamp (.text t.format) = .ok t := by
  simp only [decode, Reading.properties, Json.node, Timestamp.parse?_format h]

theorem sorted_tree_array (vs : List Value) :
    (Value.array vs).tree.sorted = .array (vs.map fun v => v.tree.sorted) := by
  rw [Value.tree, Value.treeItems_eq_map, Json.sorted, Json.sortedItems_eq_map, List.map_map]
  rfl

theorem rereadList {item : Layout} (h : ∀ x, ∃ v, Reread item x v) (xs : List item.Carrier) :
    ∃ v, Reread (.list item) xs v := by
  obtain ⟨vs, hvs, hread⟩ : ∃ vs, encodeList (encode item) xs = .ok vs ∧
      (Each item.Legible xs → List.Forall₂ (fun j x => decode .properties item j = .ok x)
        (vs.map fun v => v.tree.sorted) xs) := by
    induction xs with
    | nil => exact ⟨[], rfl, fun _ => .nil⟩
    | cons x xs ih =>
      obtain ⟨v, hv⟩ := h x
      obtain ⟨vs, hvs, hread⟩ := ih
      refine ⟨v :: vs, by rw [encodeList, hv.encode_eq, hvs]; rfl, fun hlegible => ?_⟩
      obtain ⟨hx, hxs⟩ := each_cons.1 hlegible
      exact .cons (hv.decode_eq hx) (hread hxs)
  refine ⟨.array vs, congrArg (Except.map Value.array) hvs, fun hlegible => ?_⟩
  rw [sorted_tree_array]
  exact (decode_list_eq_ok _).2 ⟨_, rfl, hread hlegible⟩

/-- A variant without payload is written as its tag. -/
theorem exists_encodeVariant : {vs : Variants} → vs.Bare → (x : VariantsCarrier vs) →
    ∃ tag, encodeVariant vs x = .ok (.text tag)
  | .cons tag _ _, ⟨hp, _⟩, .inl _ => ⟨tag, by subst hp; rfl⟩
  | .cons _ _ _, ⟨_, hvs⟩, .inr x => exists_encodeVariant hvs x

theorem rereadChoice {name : String} {vs : Variants} (hbare : vs.Bare) (hn : vs.tags.Nodup)
    (hr : RegularVariants vs) (x : VariantsCarrier vs) : ∃ v, Reread (.choice name vs) x v := by
  obtain ⟨tag, htag⟩ := exists_encodeVariant hbare x
  obtain ⟨v, hv, hkept⟩ := keptVariant vs hn hr x (everyVariant_of_bare hbare x)
  obtain rfl : Value.text tag = v := Except.ok.inj (htag.symm.trans hv)
  refine ⟨.text tag, hv, fun hlegible => ?_⟩
  cases hkept with
  | bare _ _ hread =>
    obtain ⟨answer, hanswer, hans⟩ := hread Reading.properties.words
    have hx := hans.eq_ok hlegible
    rw [arrangeVariant_of_arranged vs hr x (everyVariant_of_bare hbare x)] at hx
    show (bareVariant? Reading.properties.words tag vs).getD _ = _
    rw [hanswer, hx]
    rfl

/-- A field that is there is read, whatever it would stand for. -/
theorem decodeFields_cons_of_lookup {α : Type} {r : Reading α} {ms : List (String × α)}
    {tag : String} {absence : Absence} {l : Layout} {rest : Fields} {a : α} {x : l.Carrier}
    {xs : FieldsCarrier rest} (hm : ms.lookup tag = some a) (hx : decode r l a = .ok x)
    (hxs : decodeFields r ms rest = .ok xs) :
    decodeFields r ms (.cons tag absence l rest) = .ok (x, xs) := by
  rw [← memberAt?_eq_lookup tag 0, Option.map_eq_some_iff] at hm
  obtain ⟨⟨i, a'⟩, hm, rfl⟩ := hm
  rw [decodeFields, hm]
  exact both_eq_ok.2 ⟨mapError_eq_ok.2 hx, hxs⟩

mutual

/-- **What a full layout writes is read back as properties**, if it is legible. -/
theorem reread : (l : Layout) → l.Full → l.Regular → (x : l.Carrier) → ∃ v, Reread l x v
  | .bool, _, _, b => ⟨.bool b, rfl, fun _ => rfl⟩
  | .text, _, _, s => ⟨.text s, rfl, fun _ => rfl⟩
  | .recordId, _, _, id => ⟨.text id.toHex, rfl, fun _ => decode_properties_recordId id⟩
  | .timestamp, _, _, t => ⟨.text t.format, rfl, fun h => decode_properties_timestamp h⟩
  | .list item, hl, hr, xs => rereadList (fun x => reread item hl hr x) xs
  | .record name strict fields, hl, hr, xs => by
    obtain ⟨vs, hvs, htags, hread⟩ := rereadFields fields hl hr.1 hr.2 xs [] nofun
    rw [List.nil_append] at hvs
    have hnodup : (vs.map Prod.fst).Nodup := htags ▸ hr.1
    obtain ⟨ms, hsorted, hlookup, hkeys⟩ := Value.sorted_tree_document hnodup
    refine ⟨.document vs, congrArg (Except.map Value.document) hvs, fun hlegible => ?_⟩
    rw [hsorted]
    have hknown : strangerAt? fields.tags 0 ms = none :=
      strangerAt?_eq_none (fun key hkey => htags ▸ hkeys key hkey) 0
    exact (decode_record_eq_ok _).2
      (.inl ⟨ms, rfl, fun _ => hknown, hread hlegible ms fun t _ => hlookup t⟩)
  | .choice _ _, hl, hr, x => rereadChoice hl hr.1 hr.2 x

/-- Every field is written behind what stands before, and read from any members among which the tags
have the values that were written for them. -/
theorem rereadFields : (fs : Fields) → FullFields fs → fs.tags.Nodup → RegularFields fs →
    (xs : FieldsCarrier fs) → (front : Entries) → (∀ t ∈ fs.tags, t ∉ front.map Prod.fst) →
    ∃ vs : Entries, encodeFields fs front xs = .ok (front ++ vs) ∧ vs.map Prod.fst = fs.tags ∧
      (EveryField LegibleAt fs xs → ∀ ms : List (String × Json),
        (∀ t ∈ fs.tags, ms.lookup t = (Entries.get? t vs).map fun v => v.tree.sorted) →
        decodeFields .properties ms fs = .ok xs)
  | .nil, _, _, _, _, front, _ =>
    ⟨[], by rw [List.append_nil]; rfl, rfl, fun _ _ _ => rfl⟩
  | .cons tag absence l rest, ⟨ha, hl, hrest⟩, hn, hr, (x, xs), front, hfront => by
    obtain ⟨htag, hn⟩ := List.nodup_cons.1 hn
    obtain ⟨hnew, hfront⟩ := List.forall_mem_cons.1 hfront
    obtain ⟨v, hv⟩ := reread l hl hr.1 x
    obtain ⟨vs, hvs, htags, hread⟩ := rereadFields rest hrest hn hr.2 xs (front ++ [(tag, v)])
      fun t ht => by
        rw [List.map_append, List.mem_append, not_or]
        exact ⟨hfront t ht, by rintro hmem; obtain rfl := List.mem_singleton.1 hmem; exact htag ht⟩
    refine ⟨(tag, v) :: vs, ?_, congrArg (tag :: ·) htags, fun hlegible ms hms => ?_⟩
    · rw [encodeFields, if_neg fun h => ha h.1, hv.encode_eq]
      show encodeFields rest (Entries.put tag v front) xs = _
      rw [Entries.put_of_not_mem hnew, hvs, List.append_assoc]
      rfl
    · obtain ⟨hm, hms⟩ := List.forall_mem_cons.1 hms
      rw [Entries.get?_cons_self] at hm
      refine decodeFields_cons_of_lookup hm (hv.decode_eq hlegible.1)
        (hread hlegible.2 ms fun t ht => ?_)
      rw [hms t ht, Entries.get?_cons_of_ne (by rintro rfl; exact htag ht)]

end

/-- **The tree of a legible value is read back from its compact text**, and the value from the
tree. -/
theorem exists_tree {l : Layout} (hl : l.Full) (hr : l.Regular) (hdepth : l.depth ≤ Json.maxDepth)
    {x : l.Carrier} (hx : l.Legible x) : ∃ j, (l.encode x).map Value.tree = .ok j ∧
      Json.read? j.compact = some j ∧ l.ofProperties j = .ok x := by
  obtain ⟨v, hv⟩ := reread l hl hr x
  obtain ⟨hprintable, hfits⟩ := fits_of_encode l hl hv.encode_eq
  refine ⟨v.tree, by rw [hv.encode_eq]; rfl, ?_, hv.decode_eq hx⟩
  exact Json.read?_compact hprintable (Nat.le_trans hfits hdepth)

end JobRegistry.Layout
