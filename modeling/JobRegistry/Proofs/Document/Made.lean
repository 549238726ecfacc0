import JobRegistry.Proofs.Document.Readings
import JobRegistry.Proofs.Mapper.Distinct

/-!
# How documents are made

Values and documents are come by in many ways (`Value.Made`, `Document.Made`): they are put together
piece by piece, taken from JSON in normal form or as it is written, and written or read by the
mapper. Some of these ways put entries one after another and some take over a list of entries as it
stands. By none of them a key gets into a document twice (`Value.Made.distinct`), and every value
without repeated keys can be made (`made_iff_distinct`).

Writing and reading by the mapper put the entries of every document one after another, and so make
nothing of a made document but the document itself (`mapped_unchanged`).
-/

namespace JobRegistry

/-! ## Readings give distinct values -/

namespace Value

mutual

/-- **What is read as written has no key twice**, also where an object has a name twice. -/
theorem distinct_ofWritten : (j : Json) → (ofWritten j).Distinct
  | .null => .null
  | .bool b => .bool b
  | .whole n => by
    show (ofInteger n).Distinct
    rw [ofInteger_eq_ofWhole, ofWhole]
    split
    · exact .int _
    · exact .float _
  | .real x => .float x
  | .text s => .text s
  | .array items => .array (distinct_of_mem_ofWrittenItems items)
  | .object members => distinct_ofList (distinct_of_mem_ofWrittenMembers members)

theorem distinct_of_mem_ofWrittenItems : (items : List Json) →
    ∀ v ∈ ofWrittenItems items, v.Distinct
  | [] => List.forall_mem_nil _
  | j :: rest =>
    List.forall_mem_cons.2 ⟨distinct_ofWritten j, distinct_of_mem_ofWrittenItems rest⟩

theorem distinct_of_mem_ofWrittenMembers : (members : List (String × Json)) →
    ∀ e ∈ ofWrittenMembers members, e.2.Distinct
  | [] => List.forall_mem_nil _
  | (_, j) :: rest =>
    List.forall_mem_cons.2 ⟨distinct_ofWritten j, distinct_of_mem_ofWrittenMembers rest⟩

end

theorem Distinct.sorted {v : Value} (h : v.Distinct) : v.sorted.Distinct := by
  induction h with
  | null => exact .null
  | bool b => exact .bool b
  | int n => exact .int n
  | float x => exact .float x
  | text s => exact .text s
  | array _ ih =>
    rw [Value.sorted, sortedItems_eq_map]
    exact .array (List.forall_mem_map.2 ih)
  | @document entries keys _ ih =>
    have hkeys : ((sortedEntries entries).map Prod.fst).Nodup := by
      rw [sortedEntries_eq_map, List.map_map]
      exact keys
    have hvalues : ∀ e ∈ sortedEntries entries, e.2.Distinct := by
      rw [sortedEntries_eq_map]
      exact List.forall_mem_map.2 ih
    rw [Value.sorted]
    exact .document (((Entries.sort_perm _).map _).nodup_iff.2 hkeys) fun e he =>
      hvalues e ((Entries.sort_perm _).mem_iff.1 he)

/-- The same holds of trees in normal form, of which the members are taken over as they stand. -/
theorem distinct_ofJson_sorted (j : Json) : (ofJson j.sorted).Distinct :=
  sorted_ofWritten j ▸ (distinct_ofWritten j).sorted

end Value

/-! ## Ways to make documents -/

mutual

/-- The ways to come by a value. -/
inductive Value.Made : Value → Prop
  | null : Value.Made .null
  | bool (b : Bool) : Value.Made (.bool b)
  | int (n : Number.Signed64) : Value.Made (.int n)
  | float (x : Number.Double) : Value.Made (.float x)
  | text (s : String) : Value.Made (.text s)
  | array {items : List Value} (h : ∀ v ∈ items, Value.Made v) : Value.Made (.array items)
  | document {d : Document} (h : Document.Made d) : Value.Made d.toValue
  | item {items : List Value} (h : Value.Made (.array items)) {v : Value} (hv : v ∈ items) :
    Value.Made v
  | entry {d : Document} (h : Document.Made d) {key : String} {v : Value}
    (hv : d.get? key = some v) : Value.Made v
  | ofJson (j : Json) : Value.Made (.ofJson j.sorted)
  | ofWire {s : String} {v : Value} (h : Value.ofWire? s = some v) : Value.Made v
  /-- A value that is written by the mapper. -/
  | encode (l : Layout) {x : l.Carrier} {v : Value} (h : l.encode x = .ok v) : Value.Made v
  /-- A value that is read by the mapper, be it for a part of a record. -/
  | decode (v₀ : Value) {v : Value} (h : Layout.decode .document .value v₀ = .ok v) : Value.Made v
  | ofProperties (j : Json) {v : Value} (h : Layout.ofProperties .value j = .ok v) : Value.Made v

/-- The ways to come by a document. -/
inductive Document.Made : Document → Prop
  | empty : Document.Made .empty
  | ofList {pairs : List (String × Value)} (h : ∀ p ∈ pairs, Value.Made p.2) :
    Document.Made (.ofList pairs)
  | insert {d : Document} (h : Document.Made d) (key : String) {v : Value} (hv : Value.Made v) :
    Document.Made (d.insert key v)
  | erase {d : Document} (h : Document.Made d) (key : String) : Document.Made (d.erase key)
  | inner {d : Document} (h : Value.Made d.toValue) : Document.Made d
  | ofJson {j : Json} {d : Document} (h : Document.ofJson j = .ok d) : Document.Made d
  | ofWire {s : String} {d : Document} (h : Document.ofWire s = .ok d) : Document.Made d
  /-- A document that is written by the mapper. -/
  | toDocument (l : Layout) {x : l.Carrier} {d : Document} (h : l.toDocument x = .ok d) :
    Document.Made d
  /-- A document that is read by the mapper. -/
  | ofDocument (d₀ : Document) {d : Document} (h : Layout.ofDocument .document d₀ = .ok d) :
    Document.Made d
  | ofProperties (j : Json) {d : Document} (h : Layout.ofProperties .document j = .ok d) :
    Document.Made d

end

/-! ## What is made is distinct -/

theorem Document.distinct_of_ofJson {j : Json} {d : Document} (h : Document.ofJson j = .ok d) :
    d.toValue.Distinct :=
  Document.ofValue_eq_ok.1 h ▸ Value.distinct_ofJson_sorted j

theorem Document.distinct_of_ofWire {s : String} {d : Document} (h : Document.ofWire s = .ok d) :
    d.toValue.Distinct := by
  obtain ⟨j, -, hj⟩ := Document.ofWire_eq_ok.1 h
  exact Document.ofValue_eq_ok.1 hj ▸ Value.distinct_ofWritten j

theorem Layout.decode_document_eq_ok {α : Type} {r : Reading α} {a : α} {d : Document} :
    Layout.decode r .document a = .ok d ↔ r.value a = d.toValue := by
  rw [Layout.decode]
  cases r.value a with
  | document entries =>
    exact ⟨fun h => congrArg Document.toValue (Except.ok.inj h),
      fun h => congrArg (fun es => Except.ok (Document.mk es)) (Value.document.inj h)⟩
  | _ => exact ⟨nofun, nofun⟩

mutual

/-- **No way to make a value puts a key into a document twice.** -/
theorem Value.Made.distinct : ∀ {v : Value}, v.Made → v.Distinct
  | _, .null => .null
  | _, .bool b => .bool b
  | _, .int n => .int n
  | _, .float x => .float x
  | _, .text s => .text s
  | _, .array h => .array fun v hv => (h v hv).distinct
  | _, .document h => h.distinct
  | _, .item h hv => by
    cases h.distinct with
    | array hitems => exact hitems _ hv
  | _, .entry h hv => by
    cases h.distinct with
    | document _ hvalues => exact hvalues _ (Entries.mem_of_get? hv)
  | _, .ofJson j => Value.distinct_ofJson_sorted j
  | _, .ofWire h => by
    obtain ⟨j, -, rfl⟩ := Option.map_eq_some_iff.1 h
    exact Value.distinct_ofWritten j
  | _, .encode l h => l.distinct_of_encode h
  | _, .decode v₀ h => Except.ok.inj h ▸ v₀.distinct_rebuild
  | _, .ofProperties j h => Except.ok.inj h ▸ Value.distinct_ofWritten j.sorted

/-- The same for documents. -/
theorem Document.Made.distinct : ∀ {d : Document}, d.Made → d.toValue.Distinct
  | _, .empty => Value.distinct_empty
  | _, .ofList h => Value.distinct_ofList fun p hp => (h p hp).distinct
  | _, .insert h key hv => h.distinct.put key hv.distinct
  | _, .erase h key => h.distinct.drop key
  | _, .inner h => h.distinct
  | _, .ofJson h => Document.distinct_of_ofJson h
  | _, .ofWire h => Document.distinct_of_ofWire h
  | _, .toDocument l h => l.distinct_of_encode (Layout.toDocument_eq_ok.1 h)
  | _, .ofDocument d₀ h =>
    Layout.decode_document_eq_ok.1 (Layout.mapError_eq_ok.1 h) ▸ d₀.toValue.distinct_rebuild
  | _, .ofProperties j h =>
    Layout.decode_document_eq_ok.1 h ▸ Value.distinct_ofWritten j.sorted

end

/-- Without repeated keys, a value can be put together from its pieces. -/
theorem Value.Distinct.made {v : Value} (h : v.Distinct) : v.Made := by
  induction h with
  | null => exact .null
  | bool b => exact .bool b
  | int n => exact .int n
  | float x => exact .float x
  | text s => exact .text s
  | array _ ih => exact .array ih
  | @document entries keys _ ih =>
    have hmade := Value.Made.document (.ofList ih)
    rwa [Document.toValue, Document.ofList, Entries.ofList_of_nodup keys] at hmade

/-- **The values that can be made are those without repeated keys.** -/
theorem Value.made_iff_distinct {v : Value} : v.Made ↔ v.Distinct :=
  ⟨Made.distinct, Distinct.made⟩

theorem Document.made_iff_distinct {d : Document} : d.Made ↔ d.toValue.Distinct :=
  ⟨Made.distinct, fun h => .inner h.made⟩

/-! ## Generic values and the mapper -/

theorem Value.Distinct.encode_eq {v : Value} (h : v.Distinct) : v.encode = .ok v := by
  rw [encode_eq_rebuild, rebuild_of_distinct h]

/-- **The mapper leaves values and documents as they are.** It writes each of them that can be made
without fail, and what it writes is the same value; it reads it without fail, and what it reads is
the same value. -/
theorem mapped_unchanged :
    (∀ v : Value, v.Made →
      Layout.encode .value v = .ok v ∧ Layout.decode .document .value v = .ok v) ∧
    ∀ d : Document, d.Made →
      Layout.toDocument .document d = .ok d ∧ Layout.ofDocument .document d = .ok d := by
  refine ⟨fun v hv => ⟨hv.distinct.encode_eq, ?_⟩, fun d hd => ⟨?_, ?_⟩⟩
  · exact congrArg Except.ok (Value.rebuild_of_distinct hv.distinct)
  · exact Layout.toDocument_eq_ok.2 hd.distinct.encode_eq
  · have hread : Layout.decode .document .document d.toValue = .ok d :=
      Layout.decode_document_eq_ok.2 (Value.rebuild_of_distinct hd.distinct)
    exact Layout.mapError_eq_ok.2 hread

/-- A document that is collected from pairs, with one key in two of them. -/
def Document.collected : Document :=
  .ofList [("z", .bool true),
    ("a", .array [.document [("k", .text ""), ("b", .int ⟨-1, by decide⟩)], .array []]),
    ("z", .float (Number.Floating.nan Number.binary64))]

theorem Document.made_collected : Document.collected.Made := by
  have hinner : (Value.document [("k", .text ""), ("b", .int ⟨-1, by decide⟩)]).Made :=
    .document ((Document.Made.empty.insert "k" (.text "")).insert "b" (.int ⟨-1, by decide⟩))
  have hitems : ∀ v ∈ [Value.document [("k", .text ""), ("b", .int ⟨-1, by decide⟩)], .array []],
      v.Made :=
    List.forall_mem_cons.2 ⟨hinner, List.forall_mem_singleton.2 (.array (List.forall_mem_nil _))⟩
  refine .ofList ?_
  simp only [List.forall_mem_cons]
  exact ⟨.bool true, .array hitems, .float _, List.forall_mem_nil _⟩

theorem mapped_unchanged_collected :
    let d := Document.collected
    d.keys = ["z", "a"] ∧ d.Made ∧ d.toValue.Made ∧
      Layout.encode .value d.toValue = .ok d.toValue ∧
      Layout.decode .document .value d.toValue = .ok d.toValue ∧
      Layout.toDocument .document d = .ok d ∧ Layout.ofDocument .document d = .ok d := by
  have hd := Document.made_collected
  obtain ⟨hencode, hdecode⟩ := mapped_unchanged.1 _ (.document hd)
  exact ⟨by decide, hd, .document hd, hencode, hdecode, mapped_unchanged.2 _ hd⟩

end JobRegistry
