import JobRegistry.Proofs.Document.Value
import JobRegistry.Proofs.Mapper.Plain

/-!
# No key twice

What the mapper writes is distinct, by whatever layout (`distinct_of_encode`): every document in it
is made by putting entries one after another. For the same reason a value that is read entry by
entry is distinct (`distinct_rebuild`), and it is the value that was there if that is distinct
(`rebuild_of_distinct`). A value of a document is written as it would be read, and its writing never
fails (`encode_eq_rebuild`).
-/

namespace JobRegistry

namespace Value

/-! ## Values that are read as they are -/

theorem rebuildItems_eq_map (items : List Value) : rebuildItems items = items.map rebuild := by
  induction items with
  | nil => rfl
  | cons v rest ih => rw [rebuildItems, ih, List.map_cons]

theorem rebuildEntries_eq_map (entries : List (String × Value)) :
    rebuildEntries entries = entries.map fun e => (e.1, e.2.rebuild) := by
  induction entries with
  | nil => rfl
  | cons e rest ih => rw [rebuildEntries, ih, List.map_cons]

/-- **What is read entry by entry has no key twice.** -/
theorem distinct_rebuild (v : Value) : v.rebuild.Distinct := by
  induction v using Value.induction with
  | null => exact .null
  | bool b => exact .bool b
  | int n => exact .int n
  | float x => exact .float x
  | text s => exact .text s
  | array items ih =>
    rw [rebuild, rebuildItems_eq_map]
    exact .array (List.forall_mem_map.2 ih)
  | document entries ih =>
    rw [rebuild, rebuildEntries_eq_map]
    exact distinct_ofList (List.forall_mem_map.2 ih)

/-- **A value without repeated keys stays as it is.** -/
theorem rebuild_of_distinct {v : Value} (h : v.Distinct) : v.rebuild = v := by
  induction h with
  | null => rfl
  | bool b => rfl
  | int n => rfl
  | float x => rfl
  | text s => rfl
  | @array items _ ih =>
    have hitems : items.map rebuild = items := (List.map_congr_left ih).trans (List.map_id' _)
    rw [rebuild, rebuildItems_eq_map, hitems]
  | @document entries keys _ ih =>
    rw [rebuild, rebuildEntries_eq_map, Sorted.map_snd_eq_self ih, Entries.ofList_of_nodup keys]

/-! ## Values that are written as they are -/

mutual

/-- **A value is written as it would be read**, and never fails to be. -/
theorem encode_eq_rebuild : (v : Value) → v.encode = .ok v.rebuild
  | .null => rfl
  | .bool _ => rfl
  | .int _ => rfl
  | .float _ => rfl
  | .text _ => rfl
  | .array items => by
    rw [encode, encodeItems_eq_rebuild items]
    rfl
  | .document entries => by
    rw [encode, MapWriter.start, encodeEntries_eq_rebuild entries []]
    rfl

theorem encodeItems_eq_rebuild : (items : List Value) →
    encodeItems items = .ok (rebuildItems items)
  | [] => rfl
  | v :: rest => by
    rw [encodeItems, encode_eq_rebuild v, encodeItems_eq_rebuild rest]
    rfl

theorem encodeEntries_eq_rebuild : (entries : List (String × Value)) → (front : Entries) →
    encodeEntries ⟨front, none⟩ entries = .ok
      ⟨(rebuildEntries entries).foldl (fun written e => Entries.put e.1 e.2 written) front, none⟩
  | [], _ => rfl
  | (key, v) :: rest, front => by
    rw [encodeEntries, encode_eq_rebuild v]
    exact encodeEntries_eq_rebuild rest (Entries.put key v.rebuild front)

end

end Value

namespace Layout

/-! ## What is written -/

theorem map_eq_ok {ε α β : Type} {x : Except ε α} {f : α → β} {b : β} :
    x.map f = .ok b ↔ ∃ a, x = .ok a ∧ f a = b := by
  cases x <;> simp [Except.map]

theorem encodeList_eq_ok {α : Type} {item : α → Except EncodeError Value} {as : List α}
    {vs : List Value} :
    encodeList item as = .ok vs ↔ List.Forall₂ (fun a v => item a = .ok v) as vs := by
  induction as generalizing vs with
  | nil =>
    rw [List.forall₂_nil_left_iff, encodeList]
    exact ⟨fun h => (Except.ok.inj h).symm, fun h => by rw [h]⟩
  | cons a as ih =>
    simp only [encodeList, bind_eq_ok, ih, List.forall₂_cons_left_iff]
    constructor
    · rintro ⟨v, hv, vs', hvs, ⟨⟩⟩
      exact ⟨v, vs', hv, hvs, rfl⟩
    · rintro ⟨v, vs', hv, hvs, rfl⟩
      exact ⟨v, hv, vs', hvs, rfl⟩

theorem distinct_of_encodeInteger {signed : Bool} {bits : Nat} {n : Int} {v : Value}
    (h : encodeInteger signed bits n = .ok v) : v.Distinct := by
  unfold encodeInteger at h
  split at h
  · cases h
  · split at h
    · exact Except.ok.inj h ▸ .int _
    · cases h

theorem distinct_of_encodeMap {κ α : Type} {key : κ → Except EncodeError Value}
    {item : α → Except EncodeError Value} (hitem : ∀ {a v}, item a = .ok v → v.Distinct)
    {entries : List (κ × α)} {w w' : MapWriter} (hw : w.finish.Distinct)
    (h : encodeMap key item w entries = .ok w') : w'.finish.Distinct := by
  induction entries generalizing w with
  | nil => exact Except.ok.inj h ▸ hw
  | cons e rest ih =>
    obtain ⟨k, a⟩ := e
    obtain ⟨name, -, h⟩ := bind_eq_ok.1 h
    obtain ⟨w₁, hw₁, h⟩ := bind_eq_ok.1 h
    obtain ⟨v, hv, h⟩ := bind_eq_ok.1 h
    obtain ⟨w₂, hw₂, h⟩ := bind_eq_ok.1 h
    refine ih ?_ h
    -- only the value of a key that is a text and has been taken is put
    cases name with
    | text s =>
      obtain rfl := Except.ok.inj hw₁
      obtain rfl := Except.ok.inj hw₂
      exact hw.put s (hitem hv)
    | _ => cases hw₁

mutual

/-- **What is written has no key twice.** -/
theorem distinct_of_encode : (l : Layout) → {x : l.Carrier} → {v : Value} →
    encode l x = .ok v → v.Distinct
  | .bool, b, _, h => Except.ok.inj h ▸ .bool b
  | .integer _ _, _, _, h => distinct_of_encodeInteger h
  | .single, _, _, h => Except.ok.inj h ▸ .float _
  | .double, _, _, h => Except.ok.inj h ▸ .float _
  | .char, _, _, h => Except.ok.inj h ▸ .text _
  | .text, s, _, h => Except.ok.inj h ▸ .text s
  | .bytes, _, _, h => by
    obtain rfl := Except.ok.inj h
    exact .array (List.forall_mem_map.2 fun _ _ => .int _)
  | .unit, _, _, h => Except.ok.inj h ▸ .null
  | .unitStruct _, _, _, h => Except.ok.inj h ▸ .null
  | .option _, none, _, h => Except.ok.inj h ▸ .null
  | .option inner, some _, _, h => distinct_of_encode inner h
  | .newtype _ inner, _, _, h => distinct_of_encode inner h
  | .list item, _, _, h => by
    obtain ⟨vs, hlist, rfl⟩ := map_eq_ok.1 h
    have hvs := encodeList_eq_ok.1 hlist
    clear h hlist
    apply Value.Distinct.array
    induction hvs with
    | nil => exact List.forall_mem_nil _
    | cons ha _ ih => exact List.forall_mem_cons.2 ⟨distinct_of_encode item ha, ih⟩
  | .tuple _ items, _, _, h => by
    obtain ⟨vs, hvs, rfl⟩ := map_eq_ok.1 h
    exact .array (distinct_of_encodeTuple items hvs)
  | .map _ item, _, _, h => by
    obtain ⟨w, hw, rfl⟩ := map_eq_ok.1 h
    have hstart : MapWriter.start.finish.Distinct := Value.distinct_empty
    exact distinct_of_encodeMap (distinct_of_encode item) hstart hw
  | .record _ _ fields, _, _, h => by
    obtain ⟨entries, hentries, rfl⟩ := map_eq_ok.1 h
    exact distinct_of_encodeFields fields Value.distinct_empty hentries
  | .choice _ variants, _, _, h => distinct_of_encodeVariant variants h
  | .recordId, id, _, h => Except.ok.inj h ▸ .text id.toHex
  | .timestamp, t, _, h => Except.ok.inj h ▸ .text t.format
  | .value, v, _, h => Except.ok.inj (v.encode_eq_rebuild.symm.trans h) ▸ v.distinct_rebuild
  | .document, d, _, h =>
    Except.ok.inj (d.toValue.encode_eq_rebuild.symm.trans h) ▸ d.toValue.distinct_rebuild

theorem distinct_of_encodeTuple : (is : Items) → {xs : ItemsCarrier is} → {vs : List Value} →
    encodeTuple is xs = .ok vs → ∀ v ∈ vs, v.Distinct
  | .nil, _, _, h => Except.ok.inj h ▸ List.forall_mem_nil _
  | .cons item rest, (_, _), _, h => by
    obtain ⟨v, hv, h⟩ := bind_eq_ok.1 h
    obtain ⟨vs, hvs, h⟩ := bind_eq_ok.1 h
    obtain rfl := Except.ok.inj h
    exact List.forall_mem_cons.2 ⟨distinct_of_encode item hv, distinct_of_encodeTuple rest hvs⟩

theorem distinct_of_encodeFields : (fs : Fields) → {entries entries' : Entries} →
    {xs : FieldsCarrier fs} → (Value.document entries).Distinct →
    encodeFields fs entries xs = .ok entries' → (Value.document entries').Distinct
  | .nil, _, _, _, hentries, h => Except.ok.inj h ▸ hentries
  | .cons tag _ l rest, _, _, (_, _), hentries, h => by
    rw [encodeFields] at h
    split at h
    · exact distinct_of_encodeFields rest hentries h
    · obtain ⟨v, hv, h⟩ := bind_eq_ok.1 h
      exact distinct_of_encodeFields rest (hentries.put tag (distinct_of_encode l hv)) h

theorem distinct_of_encodeVariant : (vs : Variants) → {x : VariantsCarrier vs} → {v : Value} →
    encodeVariant vs x = .ok v → v.Distinct
  | .cons _ payload _, .inl _, _, h => distinct_of_encodePayload payload h
  | .cons _ _ rest, .inr _, _, h => distinct_of_encodeVariant rest h

theorem distinct_of_encodePayload {tag : String} : (p : Payload) → {x : PayloadCarrier p} →
    {v : Value} → encodePayload tag p x = .ok v → v.Distinct
  | .none, _, _, h => Except.ok.inj h ▸ .text tag
  | .one l, _, _, h => by
    obtain ⟨v, hv, h⟩ := bind_eq_ok.1 h
    exact Except.ok.inj h ▸ Value.distinct_singleton tag (distinct_of_encode l hv)
  | .many items, _, _, h => by
    obtain ⟨vs, hvs, h⟩ := bind_eq_ok.1 h
    exact Except.ok.inj h ▸ Value.distinct_singleton tag
      (.array (distinct_of_encodeTuple items hvs))
  | .fields fs, _, _, h => by
    obtain ⟨entries, hentries, h⟩ := bind_eq_ok.1 h
    exact Except.ok.inj h ▸ Value.distinct_singleton tag
      (distinct_of_encodeFields fs Value.distinct_empty hentries)

end

end Layout

end JobRegistry
