import JobRegistry.Proofs.Mapper.Printed
import JobRegistry.Proofs.Record.Constructible

/-!
# Records whose kind is learned late

A record of any kind is a kind and a record of that kind (`RecordKind.pack`), and what is done with
it is done with that record. What was made of JSON properties at a time whose year has four digits
is legible (`legible_of_create`), so that its document is read back from its JSON text
(`exists_toJson`), in which the keys stand in another order than in the document.
-/

namespace JobRegistry

/-- The texts that are hashed for the identifiers of a record. -/
def KindedRecord.hashedTexts : KindedRecord → List String
  | config r => Record.hashedTexts r
  | output r => Record.hashedTexts r
  | schema r => Record.hashedTexts r
  | input r => Record.hashedTexts r

namespace RecordKind

/-- A record together with its kind. -/
def pack : (k : RecordKind) → k.Carrier → KindedRecord
  | .config, r => .config r
  | .output, r => .output r
  | .schema, r => .schema r
  | .input, r => .input r

section

variable (k : RecordKind) (r : k.Carrier)

theorem hashedTexts_pack : (k.pack r).hashedTexts = Record.hashedTexts r := by
  cases k <;> rfl

theorem validate_pack : (k.pack r).validate = Record.validate r := by
  cases k <;> rfl

theorem toJson_pack : (k.pack r).toJson = (Record.toDocument r).map Document.toJson := by
  cases k <;> rfl

theorem build_eq (props : Json) (now : Timestamp) : KindedRecord.build k props now =
    (KindedRecord.buildAs k.Props props now).map k.pack := by
  cases k <;> rfl

theorem ofDocument_eq (d : Document) :
    KindedRecord.ofDocument k d = (Record.ofDocument k.Carrier d).map k.pack := by
  cases k <;> rfl

end

/-! ## Layouts -/

theorem plain_layout (k : RecordKind) : (Record.layout k.Carrier).Plain := by
  cases k with
  | config =>
    show Config.layout.Plain
    simp [Config.layout, JobDependency.layout, StorageTarget.layout, Layout.Plain,
      Layout.PlainFields]
  | output =>
    show Output.layout.Plain
    simp [Output.layout, OutputMetadata.layout, Layout.Plain, Layout.PlainFields]
  | schema =>
    show Schema.layout.Plain
    simp [Schema.layout, SchemaType.layout, Layout.Plain, Layout.PlainFields, Variants.Bare]
  | input =>
    show Input.layout.Plain
    simp [Input.layout, Layout.Plain, Layout.PlainFields]

theorem depth_layout_le (k : RecordKind) : (Record.layout k.Carrier).depth ≤ 3 := by
  cases k <;> decide

/-! ## Timestamps of records -/

/-- The timestamps that properties carry. -/
def propsTimestamps : (k : RecordKind) → k.Props → List Timestamp
  | .output, (p : OutputProps) => [p.processingTimestamp]
  | .config, _ => []
  | .schema, _ => []
  | .input, _ => []

/-- A new record has the timestamps of its properties and the time at which it is made. -/
theorem timestamps_of_create (k : RecordKind) {p : k.Props} {now : Timestamp} {r : k.Carrier}
    (h : Properties.create p now = .ok r) : k.timestamps r = k.propsTimestamps p ++ [now, now] := by
  cases k <;>
  · obtain ⟨-, rfl⟩ := Record.identify_eq_ok.1 h
    rfl

/-- The timestamps of properties that were read have years with four digits. -/
theorem legible_of_ofJson : (k : RecordKind) → {j : Json} → {p : k.Props} →
    Properties.ofJson k.Props j = .ok p → ∀ t ∈ k.propsTimestamps p, t.HasFourDigitYear
  | .output, j, p, h, t, ht => by
    obtain ⟨x, hx, rfl⟩ := Layout.map_eq_ok.1 h
    have hplain : OutputProps.layout.Plain := by
      simp [OutputProps.layout, Layout.Plain, Layout.PlainFields]
    obtain ⟨-, -, -, -, -, -, hyear, -⟩ := Layout.legible_of_decode _ _ hplain hx
    obtain rfl := List.mem_singleton.1 ht
    exact hyear
  | .config, _, _, _, _, ht => nomatch ht
  | .schema, _, _, _, _, ht => nomatch ht
  | .input, _, _, _, _, ht => nomatch ht

/-- The timestamps of a record are among its fields. -/
theorem legible_ofFields : (k : RecordKind) → {x : (Record.layout k.Carrier).Carrier} →
    (Record.layout k.Carrier).Legible x →
      ∀ t ∈ k.timestamps (Record.ofFields x), t.HasFourDigitYear
  | .config, _, ⟨_, _, _, _, _, _, _, _, hcreated, hupdated, _⟩ =>
    List.forall_mem_cons.2 ⟨hcreated, List.forall_mem_singleton.2 hupdated⟩
  | .output, _, ⟨_, _, _, _, _, ⟨_, _, hprocessed, _⟩, hcreated, hupdated, _⟩ =>
    List.forall_mem_cons.2 ⟨hprocessed,
      List.forall_mem_cons.2 ⟨hcreated, List.forall_mem_singleton.2 hupdated⟩⟩
  | .schema, _, ⟨_, _, _, _, _, _, _, hcreated, hupdated, _⟩ =>
    List.forall_mem_cons.2 ⟨hcreated, List.forall_mem_singleton.2 hupdated⟩
  | .input, _, ⟨_, _, _, _, _, _, hcreated, hupdated, _⟩ =>
    List.forall_mem_cons.2 ⟨hcreated, List.forall_mem_singleton.2 hupdated⟩

/-- The timestamps of a record that was read from a document have years with four digits. -/
theorem legible_of_ofDocument (k : RecordKind) {d : Document} {r : k.Carrier}
    (h : Record.ofDocument k.Carrier d = .ok r) : ∀ t ∈ k.timestamps r, t.HasFourDigitYear := by
  obtain ⟨x, hx, rfl⟩ := Layout.map_eq_ok.1 h
  have hx := Layout.legible_of_decode _ _ k.plain_layout (Layout.mapError_eq_ok.1 hx)
  exact k.legible_ofFields hx

/-- The timestamps of a record that was made of JSON properties have years with four digits, if the
time at which it was made has. -/
theorem legible_of_create {k : RecordKind} {j : Json} {p : k.Props}
    (hp : Properties.ofJson k.Props j = .ok p) {now : Timestamp} (hnow : now.HasFourDigitYear)
    {r : k.Carrier} (h : Properties.create p now = .ok r) :
    ∀ t ∈ k.timestamps r, t.HasFourDigitYear := by
  rw [k.timestamps_of_create h]
  intro t ht
  rcases List.mem_append.1 ht with ht | ht
  · exact legible_of_ofJson k hp t ht
  · obtain rfl : t = now := by simpa using ht
    exact hnow

theorem buildAs_eq_ok {k : RecordKind} {props : Json} {now : Timestamp} {r : k.Carrier} :
    KindedRecord.buildAs k.Props props now = .ok r ↔
      ∃ p, Properties.ofJson k.Props props = .ok p ∧ Properties.create p now = .ok r := by
  unfold KindedRecord.buildAs
  cases Properties.ofJson k.Props props with
  | error e => exact iff_of_false nofun nofun
  | ok p => exact Layout.mapError_eq_ok.trans ⟨fun h => ⟨p, rfl, h⟩, by rintro ⟨_, ⟨⟩, h⟩; exact h⟩

end RecordKind

namespace KindedRecord

open RecordKind

variable {k : RecordKind} {props : Json} {now : Timestamp} {r : KindedRecord}

/-- What is built is a record of the kind that was made of the properties. -/
theorem build_eq_ok : build k props now = .ok r ↔ ∃ (p : k.Props) (s : k.Carrier),
    Properties.ofJson k.Props props = .ok p ∧ Properties.create p now = .ok s ∧ k.pack s = r := by
  rw [build_eq, Layout.map_eq_ok]
  simp only [buildAs_eq_ok]
  exact ⟨fun ⟨s, ⟨p, hp, hs⟩, h⟩ => ⟨p, s, hp, hs, h⟩, fun ⟨p, s, hp, hs, h⟩ => ⟨s, ⟨p, hp, hs⟩, h⟩⟩

/-- **The document of a legible record is read back from its JSON**, also where this is printed. -/
theorem exists_toJson {s : k.Carrier} (ht : ∀ t ∈ k.timestamps s, t.HasFourDigitYear) :
    ∃ j, (k.pack s).toJson = .ok j ∧ ofJson k j = .ok (k.pack s) ∧ j.sorted = j ∧
      ∀ b : String, Json.Blank b.toList → Json.read? (j.pretty ++ b) = some j := by
  obtain ⟨d, hd⟩ := Record.exists_toDocument s
  have hread : Record.ofDocument k.Carrier d = .ok s :=
    (Record.ofDocument_answers hd).eq_ok ((Record.legible_iff k s).2 ht)
  obtain ⟨x, hx, hs⟩ := Layout.map_eq_ok.1 hread
  obtain ⟨d', hd', hx'⟩ := Layout.ofDocument_ofJson k.plain_layout hd hx
  have hdepth : (Record.layout k.Carrier).depth ≤ Json.maxDepth :=
    Nat.le_trans k.depth_layout_le (by decide)
  refine ⟨d.toJson, ?_, ?_, Json.sorted_sorted _, fun b =>
    Layout.read?_pretty_toDocument k.plain_layout hd hdepth⟩
  · rw [toJson_pack, hd]
    rfl
  · rw [ofJson, hd']
    show ofDocument k d' = _
    rw [ofDocument_eq, Record.ofDocument, hx', ← hs]
    rfl

end KindedRecord

end JobRegistry
