import JobRegistry.Proofs.Record.Lawful
import JobRegistry.Record.Kinded

/-!
# The kinds of records are lawful

`RecordKind.Carrier` is the type of the records of a kind, so that a statement about every kind of
records is one about every `k.Carrier`. `Record.legible_iff` names the timestamps that a record of
each kind carries.
-/

namespace JobRegistry

namespace RecordKind

/-- The records of a kind. -/
def Carrier : RecordKind → Type
  | .config => Config
  | .output => Output
  | .schema => Schema
  | .input => Input

instance : (k : RecordKind) → Record k.Carrier
  | .config => inferInstanceAs (Record Config)
  | .output => inferInstanceAs (Record Output)
  | .schema => inferInstanceAs (Record Schema)
  | .input => inferInstanceAs (Record Input)

/-- The timestamps that a record carries. -/
def timestamps : (k : RecordKind) → k.Carrier → List Timestamp
  | .config, (c : Config) => [c.createdAt, c.updatedAt]
  | .output, (o : Output) => [o.metadata.processingTimestamp, o.createdAt, o.updatedAt]
  | .schema, (s : Schema) => [s.createdAt, s.updatedAt]
  | .input, (i : Input) => [i.createdAt, i.updatedAt]

end RecordKind

/-! ## Regularity -/

namespace Layout

theorem regular_config : Config.layout.Regular := by
  simp [Config.layout, Regular, RegularFields, Fields.tags, JobDependency.layout,
    StorageTarget.layout]

theorem regular_output : Output.layout.Regular := by
  simp [Output.layout, Regular, RegularFields, Fields.tags, OutputMetadata.layout]

theorem regular_schema : Schema.layout.Regular := by
  simp [Schema.layout, Regular, RegularFields, Fields.tags, SchemaType.layout, Variants.tags,
    RegularVariants, RegularPayload]

theorem regular_input : Input.layout.Regular := by
  simp [Input.layout, Regular, RegularFields, Fields.tags]

theorem settled_config (c : Config) : Config.layout.Settled c.fields := by
  refine ⟨trivial, trivial, trivial, trivial, trivial, trivial, fun x hx => ?_,
    ⟨trivial, trivial, trivial⟩, trivial, trivial, trivial⟩
  obtain ⟨d, -, rfl⟩ := List.mem_map.1 hx
  exact ⟨trivial, trivial, trivial⟩

theorem settled_output (o : Output) : Output.layout.Settled o.fields :=
  ⟨trivial, trivial, trivial, trivial, trivial, ⟨trivial, trivial, trivial, trivial⟩, trivial,
    trivial, trivial⟩

theorem settled_schema (s : Schema) : Schema.layout.Settled s.fields := by
  refine ⟨trivial, trivial, trivial, trivial, trivial, ?_, trivial, trivial, trivial, trivial⟩
  cases s.schemaType <;> trivial

theorem settled_input (i : Input) : Input.layout.Settled i.fields :=
  ⟨trivial, trivial, trivial, trivial, trivial, trivial, trivial, trivial, trivial⟩

end Layout

/-! ## Lawfulness -/

theorem JobDependency.map_ofFields_fields (ds : List JobDependency) :
    List.map ofFields (ds.map fields) = ds := by
  rw [List.map_map]
  exact List.map_id ds

theorem SchemaType.ofFields_fields : (side : SchemaType) → ofFields side.fields = side
  | .input => rfl
  | .output => rfl

instance : LawfulRecord Config where
  regular := Layout.regular_config
  settled := Layout.settled_config
  ofFields_fields c := by
    show { c with dependsOn := List.map JobDependency.ofFields (c.dependsOn.map _) } = c
    rw [JobDependency.map_ofFields_fields]
  id_first c := Layout.toDocument_id_first Layout.regular_config _ _ (Layout.settled_config c).2
  checks_withTimes c := ⟨[.required "service" c.service, .required "source" c.source,
    .required "provider" c.provider] ++ Config.dependencyChecks 0 c.dependsOn, fun _ _ => rfl⟩

instance : LawfulRecord Output where
  regular := Layout.regular_output
  settled := Layout.settled_output
  ofFields_fields _ := rfl
  id_first o := Layout.toDocument_id_first Layout.regular_output _ _ (Layout.settled_output o).2
  checks_withTimes o := ⟨[.required "service" o.service, .required "source" o.source,
    .required "provider" o.provider,
    .holds "configVersionId" (!o.configVersionId.isNull) Check.isRequired,
    .holds "metadata.inputId" (!o.metadata.inputId.isNull) Check.isRequired,
    .required "metadata.processingId" o.metadata.processingId], fun _ _ => rfl⟩

instance : LawfulRecord Schema where
  regular := Layout.regular_schema
  settled := Layout.settled_schema
  ofFields_fields s := by
    show { s with schemaType := SchemaType.ofFields s.schemaType.fields } = s
    rw [SchemaType.ofFields_fields]
  id_first s := Layout.toDocument_id_first Layout.regular_schema _ _ (Layout.settled_schema s).2
  checks_withTimes s := ⟨[.required "service" s.service, .required "source" s.source,
    .required "provider" s.provider, .required "jsonSchema" s.jsonSchema,
    .holds "jsonSchema" (Text.isBlank s.jsonSchema || s.isObject) "must be a JSON object"],
    fun _ _ => rfl⟩

instance : LawfulRecord Input where
  regular := Layout.regular_input
  settled := Layout.settled_input
  ofFields_fields _ := rfl
  id_first i := Layout.toDocument_id_first Layout.regular_input _ _ (Layout.settled_input i).2
  checks_withTimes i := ⟨[.required "service" i.service, .required "source" i.source,
    .required "provider" i.provider, .required "objectUri" i.objectUri,
    .required "format" i.format], fun _ _ => rfl⟩

instance : (k : RecordKind) → LawfulRecord k.Carrier
  | .config => inferInstanceAs (LawfulRecord Config)
  | .output => inferInstanceAs (LawfulRecord Output)
  | .schema => inferInstanceAs (LawfulRecord Schema)
  | .input => inferInstanceAs (LawfulRecord Input)

theorem JobDependency.legible_fields (ds : List JobDependency) :
    (Layout.list layout).Legible (ds.map fields) := fun x hx => by
  obtain ⟨d, -, rfl⟩ := List.mem_map.1 hx
  exact ⟨trivial, trivial, trivial⟩

theorem SchemaType.legible_fields (side : SchemaType) : layout.Legible side.fields := by
  cases side <;> trivial

/-- The timestamps of a record on which it depends whether its document can be read. -/
theorem Record.legible_iff : (k : RecordKind) → (r : k.Carrier) →
    (Legible r ↔ ∀ t ∈ k.timestamps r, t.HasFourDigitYear)
  | .config, (c : Config) => by
    have hd := JobDependency.legible_fields c.dependsOn
    simp only [RecordKind.timestamps, List.mem_cons, forall_eq_or_imp, List.not_mem_nil,
      false_implies, implies_true, and_true]
    exact ⟨fun ⟨_, _, _, _, _, _, _, _, h, h', _⟩ => ⟨h, h'⟩, fun ⟨h, h'⟩ =>
      ⟨trivial, trivial, trivial, trivial, trivial, trivial, hd, ⟨trivial, trivial, trivial⟩, h,
        h', trivial⟩⟩
  | .output, (o : Output) => by
    simp only [RecordKind.timestamps, List.mem_cons, forall_eq_or_imp, List.not_mem_nil,
      false_implies, implies_true, and_true]
    exact ⟨fun ⟨_, _, _, _, _, ⟨_, _, hp, _⟩, h, h', _⟩ => ⟨hp, h, h'⟩,
      fun ⟨hp, h, h'⟩ => ⟨trivial, trivial, trivial, trivial, trivial,
        ⟨trivial, trivial, hp, trivial⟩, h, h', trivial⟩⟩
  | .schema, (s : Schema) => by
    have hs := SchemaType.legible_fields s.schemaType
    simp only [RecordKind.timestamps, List.mem_cons, forall_eq_or_imp, List.not_mem_nil,
      false_implies, implies_true, and_true]
    exact ⟨fun ⟨_, _, _, _, _, _, _, h, h', _⟩ => ⟨h, h'⟩, fun ⟨h, h'⟩ =>
      ⟨trivial, trivial, trivial, trivial, trivial, hs, trivial, h, h', trivial⟩⟩
  | .input, (i : Input) => by
    simp only [RecordKind.timestamps, List.mem_cons, forall_eq_or_imp, List.not_mem_nil,
      false_implies, implies_true, and_true]
    exact ⟨fun ⟨_, _, _, _, _, _, h, h', _⟩ => ⟨h, h'⟩, fun ⟨h, h'⟩ =>
      ⟨trivial, trivial, trivial, trivial, trivial, trivial, h, h', trivial⟩⟩

/-- The time of update is the last of the timestamps. -/
theorem Record.updatedAt_mem_timestamps : (k : RecordKind) → (r : k.Carrier) →
    updatedAt r ∈ k.timestamps r
  | .config, (c : Config) => List.mem_of_getLast? (a := c.updatedAt) rfl
  | .output, (o : Output) => List.mem_of_getLast? (a := o.updatedAt) rfl
  | .schema, (s : Schema) => List.mem_of_getLast? (a := s.updatedAt) rfl
  | .input, (i : Input) => List.mem_of_getLast? (a := i.updatedAt) rfl

/-! ## A configuration and an input -/

/-- A new record keeps the check of its times. -/
theorem Check.violations_new (rules : List Check) (h : violations rules = []) (t : Timestamp) :
    violations (rules ++ [Record.timesCheck t t]) = [] :=
  violations_append_times.2 ⟨h, Timestamp.le_refl t⟩

namespace Config

/-- The natural key of `specimen`. -/
def specimenKey : Canonical :=
  .ofEntries [("service", .text "billing"), ("source", .text "events"), ("provider", .text "acme")]

/-- The content of `specimen`. -/
def specimenPayload : Canonical :=
  .ofEntries [("service", .text "billing"), ("source", .text "events"), ("provider", .text "acme"),
    ("active", .bool true),
    ("dependsOn", .seq [
      .ofEntries [("service", .text "auth"), ("source", .text "users")],
      .ofEntries [("service", .text "mail"), ("source", .text "inbox")]]),
    ("storage", .ofEntries [("bucket", .text "jobs"), ("prefix", .text "out")])]

/-- A configuration that was made at some time, of a job that depends on two others. -/
def specimen (t : Timestamp) : Config where
  id := Purpose.identity.derive "config" specimenKey
  versionId := Purpose.version.derive "config" specimenPayload
  service := "billing"
  source := "events"
  provider := "acme"
  active := true
  dependsOn := [⟨"auth", "users"⟩, ⟨"mail", "inbox"⟩]
  storage := ⟨"jobs", "out"⟩
  createdAt := t
  updatedAt := t

theorem isNull_specimen :
    (Purpose.identity.derive "config" specimenKey).isNull = false ∧
      (Purpose.version.derive "config" specimenPayload).isNull = false := by
  decide +kernel

theorem validate_specimen (t : Timestamp) : Record.validate (specimen t) = .ok () := by
  apply Record.validate_eq_ok
  · exact Check.violations_new [.required "service" "billing",
      .required "source" "events", .required "provider" "acme",
      .required (dependencyField 0 "service") "auth",
      .required (dependencyField 0 "source") "users",
      .required (dependencyField 1 "service") "mail",
      .required (dependencyField 1 "source") "inbox"] (by decide) t
  · rfl
  · exact isNull_specimen.1
  · rintro _ ⟨⟩
    exact ⟨rfl, isNull_specimen.2⟩

end Config

namespace Input

/-- The natural key of `specimen`. -/
def specimenKey : Canonical :=
  .ofEntries [("service", .text "mail"), ("source", .text "inbox"), ("provider", .text "imap"),
    ("objectUri", .text "box/1")]

/-- An input that was made at some time. -/
def specimen (t : Timestamp) : Input where
  id := Purpose.identity.derive "input" specimenKey
  service := "mail"
  source := "inbox"
  provider := "imap"
  objectUri := "box/1"
  format := "eml"
  createdAt := t
  updatedAt := t

theorem isNull_specimenKey : (Purpose.identity.derive "input" specimenKey).isNull = false := by
  decide +kernel

theorem validate_specimen (t : Timestamp) : Record.validate (specimen t) = .ok () := by
  apply Record.validate_eq_ok
  · exact Check.violations_new [.required "service" "mail", .required "source" "inbox",
      .required "provider" "imap", .required "objectUri" "box/1", .required "format" "eml"]
      (by decide) t
  · rfl
  · exact isNull_specimenKey
  · rintro _ ⟨⟩

end Input

end JobRegistry
