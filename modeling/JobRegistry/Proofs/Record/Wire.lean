import JobRegistry.Proofs.Mapper.Reread
import JobRegistry.Proofs.Record.Kinded

/-!
# Properties on the wire

Properties are sent as JSON. Their layouts are full and regular (`LawfulProperties`), so that what
is written of properties is read back as these properties. What a tree leaves out or adds, and the
forms in which it may be written, is settled when it is read for the first time: from then on
nothing changes (`properties_survive`).
-/

namespace JobRegistry

/-- A type of properties that can be sent. -/
class LawfulProperties (P : Type) {R : outParam Type} [Properties P R] : Prop where
  full : (Properties.layout P).Full
  regular : (Properties.layout P).Regular
  depth_le : (Properties.layout P).depth ≤ Json.maxDepth
  ofFields_fields (p : P) : Properties.ofFields (Properties.fields p) = p

instance : LawfulProperties ConfigProps where
  full := by
    show ConfigProps.layout.Full
    simp [ConfigProps.layout, JobDependency.layout, StorageTarget.layout, Layout.Full,
      Layout.FullFields]
  regular := by
    show ConfigProps.layout.Regular
    simp [ConfigProps.layout, JobDependency.layout, StorageTarget.layout, Layout.Regular,
      Layout.RegularFields, Fields.tags]
  depth_le := by decide
  ofFields_fields p := by
    show { p with dependsOn := List.map JobDependency.ofFields (p.dependsOn.map _) } = p
    rw [JobDependency.map_ofFields_fields]

instance : LawfulProperties OutputProps where
  full := by
    show OutputProps.layout.Full
    simp [OutputProps.layout, Layout.Full, Layout.FullFields]
  regular := by
    show OutputProps.layout.Regular
    simp [OutputProps.layout, Layout.Regular, Layout.RegularFields, Fields.tags]
  depth_le := by decide
  ofFields_fields _ := rfl

instance : LawfulProperties SchemaProps where
  full := by
    show SchemaProps.layout.Full
    simp [SchemaProps.layout, SchemaType.layout, Layout.Full, Layout.FullFields, Variants.Bare]
  regular := by
    show SchemaProps.layout.Regular
    simp [SchemaProps.layout, SchemaType.layout, Layout.Regular, Layout.RegularFields, Fields.tags,
      Variants.tags, Layout.RegularVariants, Layout.RegularPayload]
  depth_le := by decide
  ofFields_fields p := by
    show { p with schemaType := SchemaType.ofFields p.schemaType.fields } = p
    rw [SchemaType.ofFields_fields]

instance : LawfulProperties InputProps where
  full := by
    show InputProps.layout.Full
    simp [InputProps.layout, Layout.Full, Layout.FullFields]
  regular := by
    show InputProps.layout.Regular
    simp [InputProps.layout, Layout.Regular, Layout.RegularFields, Fields.tags]
  depth_le := by decide
  ofFields_fields _ := rfl

instance : (k : RecordKind) → LawfulProperties k.Props
  | .config => inferInstanceAs (LawfulProperties ConfigProps)
  | .output => inferInstanceAs (LawfulProperties OutputProps)
  | .schema => inferInstanceAs (LawfulProperties SchemaProps)
  | .input => inferInstanceAs (LawfulProperties InputProps)

namespace RecordKind

/-- The timestamps of properties on which it depends whether their JSON can be read. -/
theorem legible_props : (k : RecordKind) → (p : k.Props) →
    (∀ t ∈ k.propsTimestamps p, t.HasFourDigitYear) →
    (Properties.layout k.Props).Legible (Properties.fields p)
  | .config, (p : ConfigProps), _ => ⟨trivial, trivial, trivial, trivial,
      JobDependency.legible_fields p.dependsOn, ⟨trivial, trivial, trivial⟩, trivial⟩
  | .output, (_ : OutputProps), h =>
    ⟨trivial, trivial, trivial, trivial, trivial, trivial, h _ List.mem_cons_self, trivial⟩
  | .schema, (p : SchemaProps), _ =>
    ⟨trivial, trivial, trivial, SchemaType.legible_fields p.schemaType, trivial, trivial⟩
  | .input, (_ : InputProps), _ => ⟨trivial, trivial, trivial, trivial, trivial, trivial⟩

/-- Legible properties are read back from their JSON, in writing or not. -/
theorem exists_propsJson (k : RecordKind) {p : k.Props}
    (h : ∀ t ∈ k.propsTimestamps p, t.HasFourDigitYear) :
    ∃ j, Properties.toJson p = .ok j ∧ Json.read? j.compact = some j ∧
      Properties.ofJson k.Props j = .ok p := by
  obtain ⟨j, hj, hcompact, hread⟩ := Layout.exists_tree (LawfulProperties.full (P := k.Props))
    LawfulProperties.regular LawfulProperties.depth_le (k.legible_props p h)
  refine ⟨j, hj, hcompact, ?_⟩
  rw [Properties.ofJson, hread]
  exact congrArg Except.ok (LawfulProperties.ofFields_fields p)

end RecordKind

/-- **Properties survive the wire.** Properties whose timestamps have years with four digits are
read back from the JSON that is written of them, and this JSON from its compact text. Properties
that were read from any tree can be written and are read back too, so that it makes no difference
whether a tree or what was read from it is sent on. -/
theorem properties_survive (k : RecordKind) :
    (∀ p : k.Props, (∀ t ∈ k.propsTimestamps p, t.HasFourDigitYear) →
      ∃ j, Properties.toJson p = .ok j ∧ Json.read? j.compact = some j ∧
        Properties.ofJson k.Props j = .ok p) ∧
    ∀ (j : Json) (p : k.Props), Properties.ofJson k.Props j = .ok p →
      ∃ j', Properties.toJson p = .ok j' ∧ Json.read? j'.compact = some j' ∧
        Properties.ofJson k.Props j' = .ok p :=
  ⟨fun _ h => k.exists_propsJson h, fun _ _ h => k.exists_propsJson (k.legible_of_ofJson h)⟩

/-- A tree of properties in another form than it is written: the storage stands as an array, two
fields are missing, and there is a member that is no field. -/
def unusualConfig : Json :=
  .object [("storageTarget", .array [.text "jobs", .text "out"]), ("remark", .array [.null]),
    ("provider", .text "acme"), ("source", .text "events"), ("service", .text "billing")]

/-- The form in which these properties are written. -/
def usualConfig : Json :=
  .object [("service", .text "billing"), ("source", .text "events"), ("provider", .text "acme"),
    ("active", .bool false), ("dependsOn", .array []),
    ("storageTarget", .object [("bucket", .text "jobs"), ("prefix", .text "out")])]

/-- A tree of properties whose identifiers have a given text. -/
def outputTree (id : String) : Json :=
  .object [("service", .text "billing"), ("source", .text "events"), ("provider", .text "acme"),
    ("configVersionId", .text id), ("inputId", .text id), ("processingId", .text "run"),
    ("processingTimestamp", .text "9999-12-31 23:59:59")]

theorem properties_survive_specimen :
    (∃ p : RecordKind.config.Props,
      Properties.ofJson RecordKind.config.Props unusualConfig = .ok p ∧
      Properties.toJson p = .ok usualConfig ∧
      Properties.ofJson RecordKind.config.Props usualConfig = .ok p) ∧
    ∃ p : RecordKind.output.Props,
      let upper := outputTree "ABABABABABABABABABABABABABABABABABABABABABABABABABABABABABABABAB"
      let lower := outputTree "abababababababababababababababababababababababababababababababab"
      Properties.ofJson RecordKind.output.Props upper = .ok p ∧ Properties.toJson p = .ok lower ∧
      Json.read? lower.compact = some lower ∧
      Properties.ofJson RecordKind.output.Props lower = .ok p := by
  let config : ConfigProps := ⟨"billing", "events", "acme", false, [], ⟨"jobs", "out"⟩⟩
  let id : RecordId := ⟨List.replicate 32 0xab, List.length_replicate⟩
  let output : OutputProps := ⟨"billing", "events", "acme", id, id, "run", .lastLegible⟩
  have hconfig : Properties.ofJson ConfigProps unusualConfig = .ok config := by decide +kernel
  have houtput : Properties.ofJson OutputProps
      (outputTree "ABABABABABABABABABABABABABABABABABABABABABABABABABABABABABABABAB") =
        .ok output := by decide +kernel
  have hid : id.toHex = "abababababababababababababababababababababababababababababababab" := by
    decide +kernel
  have hformat : Timestamp.lastLegible.format = "9999-12-31 23:59:59" := by decide +kernel
  have hlegible : ∀ t ∈ [Timestamp.lastLegible], t.HasFourDigitYear := by decide
  obtain ⟨j, hj, -, hread⟩ := (properties_survive .config).2 unusualConfig config hconfig
  obtain rfl : usualConfig = j := Except.ok.inj hj
  obtain ⟨j', hj', htext, hread'⟩ := (properties_survive .output).1 output hlegible
  have hwritten : Json.object [("service", .text "billing"), ("source", .text "events"),
      ("provider", .text "acme"), ("configVersionId", .text id.toHex), ("inputId", .text id.toHex),
      ("processingId", .text "run"),
      ("processingTimestamp", .text Timestamp.lastLegible.format)] = j' := Except.ok.inj hj'
  rw [hid, hformat] at hwritten
  subst hwritten
  exact ⟨⟨config, hconfig, hj, hread⟩, output, houtput, hj', htext, hread'⟩

end JobRegistry
