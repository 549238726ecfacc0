import Mathlib.Data.List.Forall2
import JobRegistry.Proofs.Record.Constructible
import JobRegistry.Proofs.Record.SchemaVersion

/-!
# The rules of records

What a record has to satisfy, rule by rule (`RecordKind.rules`): each rule is about one field and
tells what is said where it is broken. The rules on the fields come first, then those on the
identifiers that are derived from them. `Reports` relates rules to the list of violations that has
one entry for each broken rule, in the order of the rules.

Validation reports the broken rules of a record, and whoever makes a record of properties is told of
the broken ones among those on its fields (`broken_rules_reported`).
-/

namespace JobRegistry

/-- What one field of a record has to satisfy, and what is said where it does not. -/
structure Rule where
  field : String
  reason : String
  Kept : Prop

namespace Rule

/-- A text that is not white space only. -/
def present (field text : String) : Rule :=
  ⟨field, "is required", ∃ c ∈ text.toList, Text.isWhite c = false⟩

/-- An identifier of another record. -/
def refers (field : String) (id : RecordId) : Rule :=
  ⟨field, "is required", id ≠ .null⟩

/-- The text of a JSON object, unless it is white space only. -/
def spellsObject (field text : String) : Rule :=
  ⟨field, "must be a JSON object", (∀ c ∈ text.toList, Text.isWhite c = true) ∨
    ∃ members, Json.read? text = some (.object members)⟩

/-- A time of update that does not lie before that of creation. -/
def inOrder (createdAt updatedAt : Timestamp) : Rule :=
  ⟨"updatedAt", "precedes createdAt", createdAt ≤ updatedAt⟩

/-- The identifier that the natural key gives. -/
def ownId (id derived : RecordId) : Rule :=
  ⟨"_id", "does not match the record's natural key", id ≠ .null ∧ id = derived⟩

/-- The version marker that the content gives. -/
def ownVersion (version derived : RecordId) : Rule :=
  ⟨"versionId", "does not match the record's content", version ≠ .null ∧ version = derived⟩

end Rule

namespace RecordKind

/-- The rules on the fields of a record. Those on the dependencies of a configuration name the place
of the dependency. -/
def fieldRules : (k : RecordKind) → k.Carrier → List Rule
  | .config, (c : Config) =>
    [.present "service" c.service, .present "source" c.source, .present "provider" c.provider] ++
      (c.dependsOn.zipIdx.flatMap fun (d, i) =>
        [.present s!"dependsOn[{i}].service" d.service,
          .present s!"dependsOn[{i}].source" d.source]) ++
      [.inOrder c.createdAt c.updatedAt]
  | .output, (o : Output) =>
    [.present "service" o.service, .present "source" o.source, .present "provider" o.provider,
      .refers "configVersionId" o.configVersionId, .refers "metadata.inputId" o.metadata.inputId,
      .present "metadata.processingId" o.metadata.processingId, .inOrder o.createdAt o.updatedAt]
  | .schema, (s : Schema) =>
    [.present "service" s.service, .present "source" s.source, .present "provider" s.provider,
      .present "jsonSchema" s.jsonSchema, .spellsObject "jsonSchema" s.jsonSchema,
      .inOrder s.createdAt s.updatedAt]
  | .input, (i : Input) =>
    [.present "service" i.service, .present "source" i.source, .present "provider" i.provider,
      .present "objectUri" i.objectUri, .present "format" i.format,
      .inOrder i.createdAt i.updatedAt]

/-- The rules on what is derived of the other fields of a record. -/
def identityRules : (k : RecordKind) → k.Carrier → List Rule
  | .config, (c : Config) =>
    [.ownId c.id (Record.derivedId c), .ownVersion c.versionId (Record.derivedVersion c)]
  | .output, (o : Output) => [.ownId o.id (Record.derivedId o)]
  | .schema, (s : Schema) =>
    [.ownId s.id (Record.derivedId s), .ownVersion s.versionId (Record.derivedVersion s)]
  | .input, (i : Input) => [.ownId i.id (Record.derivedId i)]

/-- All rules of a record. -/
def rules (k : RecordKind) (r : k.Carrier) : List Rule :=
  k.fieldRules r ++ k.identityRules r

theorem kind_carrier (k : RecordKind) : Record.kind k.Carrier = k := by
  cases k <;> rfl

end RecordKind

/-- The violations are one for each rule that is broken, in the order of the rules. -/
inductive Reports : List Rule → List Violation → Prop
  | nil : Reports [] []
  | kept {rule : Rule} {rules : List Rule} {vs : List Violation} (h : rule.Kept)
    (hs : Reports rules vs) : Reports (rule :: rules) vs
  | broken {rule : Rule} {rules : List Rule} {vs : List Violation} (h : ¬ rule.Kept)
    (hs : Reports rules vs) : Reports (rule :: rules) (⟨rule.field, rule.reason⟩ :: vs)

namespace Reports

theorem append {as bs : List Rule} {vs ws : List Violation} (ha : Reports as vs)
    (hb : Reports bs ws) : Reports (as ++ bs) (vs ++ ws) := by
  induction ha with
  | nil => exact hb
  | kept h _ ih => exact .kept h ih
  | broken h _ ih => exact .broken h ih

/-- What is reported is determined by the rules. -/
theorem unique {rules : List Rule} {vs ws : List Violation} (hv : Reports rules vs)
    (hw : Reports rules ws) : vs = ws := by
  induction hv generalizing ws with
  | nil =>
    cases hw
    rfl
  | kept h _ ih =>
    cases hw with
    | kept _ hw => exact ih hw
    | broken hn _ => exact absurd h hn
  | broken h _ ih =>
    cases hw with
    | kept hk _ => exact absurd hk h
    | broken _ hw => rw [ih hw]

/-- Every violation is about the field of a rule. -/
theorem exists_field {rules : List Rule} {vs : List Violation} (h : Reports rules vs)
    {v : Violation} (hv : v ∈ vs) : ∃ rule ∈ rules, rule.field = v.field := by
  induction h with
  | nil => cases hv
  | kept _ _ ih =>
    obtain ⟨rule, hmem, hfield⟩ := ih hv
    exact ⟨rule, List.mem_cons_of_mem _ hmem, hfield⟩
  | broken _ _ ih =>
    rcases List.mem_cons.1 hv with rfl | hv
    · exact ⟨_, List.mem_cons_self, rfl⟩
    · obtain ⟨rule, hmem, hfield⟩ := ih hv
      exact ⟨rule, List.mem_cons_of_mem _ hmem, hfield⟩

end Reports

/-! ## Checks and rules -/

namespace Check

/-- The check is broken where the rule is, and says what the rule does. -/
inductive Tests (check : Check) (rule : Rule) : Prop
  | kept (h : rule.Kept) (hnone : check.violation? = none)
  | broken (h : ¬ rule.Kept) (hsome : check.violation? = some ⟨rule.field, rule.reason⟩)

theorem tests_holds (rule : Rule) {ok : Bool} (h : ok = true ↔ rule.Kept) :
    (holds rule.field ok rule.reason).Tests rule := by
  cases ok with
  | true => exact .kept (h.1 rfl) rfl
  | false => exact .broken (fun hk => Bool.false_ne_true (h.2 hk)) rfl

theorem present_iff {field text : String} :
    (Rule.present field text).Kept ↔ Text.isBlank text = false := by
  rw [← Bool.not_eq_true, Text.isBlank_iff]
  simp [Rule.present]

theorem not_present {field text : String} (h : Text.isBlank text = true) :
    ¬ (Rule.present field text).Kept := by
  rw [present_iff, h]
  decide

theorem tests_required (field text : String) :
    (required field text).Tests (.present field text) := by
  cases h : Text.isBlank text with
  | true => exact .broken (not_present h) (if_pos h)
  | false => exact .kept (present_iff.2 h) (if_neg (by simp [h]))

theorem tests_refers (field : String) (id : RecordId) :
    (holds field (!id.isNull) isRequired).Tests (.refers field id) :=
  tests_holds (.refers field id) (by simp [RecordId.isNull, Rule.refers])

theorem tests_times (createdAt updatedAt : Timestamp) :
    (Record.timesCheck createdAt updatedAt).Tests (.inOrder createdAt updatedAt) :=
  tests_holds (.inOrder createdAt updatedAt) decide_eq_true_iff

theorem derived_iff {id derived : RecordId} :
    (!id.isNull && derived == id) = true ↔ id ≠ .null ∧ id = derived := by
  rw [Bool.and_eq_true, beq_iff_eq, eq_comm (a := derived)]
  simp [RecordId.isNull]

theorem tests_ownId (id derived : RecordId) :
    (holds "_id" (!id.isNull && derived == id) "does not match the record's natural key").Tests
      (.ownId id derived) :=
  tests_holds (.ownId id derived) derived_iff

theorem tests_ownVersion (version derived : RecordId) :
    (holds "versionId" (!version.isNull && derived == version)
      "does not match the record's content").Tests (.ownVersion version derived) :=
  tests_holds (.ownVersion version derived) derived_iff

/-- **The broken checks report the broken rules that they test.** -/
theorem reports_violations {checks : List Check} {rules : List Rule}
    (h : List.Forall₂ Tests checks rules) : Reports rules (violations checks) := by
  induction h with
  | nil => exact .nil
  | cons ht _ ih =>
    rw [violations, List.filterMap_cons]
    cases ht with
    | kept h hnone =>
      rw [hnone]
      exact .kept h ih
    | broken h hsome =>
      rw [hsome]
      exact .broken h ih

end Check

open Check

/-- The text is that of a JSON object where its normal form is. -/
theorem Schema.isObject_iff_read? {s : Schema} :
    s.isObject = true ↔ ∃ members, Json.read? s.jsonSchema = some (.object members) := by
  have hsorted (j : Json) :
      (∃ members, j.sorted = .object members) ↔ ∃ members, j = .object members := by
    cases j <;> simp [Json.sorted]
  rw [isObject_iff, parsed?]
  cases Json.read? s.jsonSchema with
  | none => simp
  | some j => simpa using hsorted j

theorem Schema.tests_spellsObject (s : Schema) :
    (holds "jsonSchema" (Text.isBlank s.jsonSchema || s.isObject) "must be a JSON object").Tests
      (.spellsObject "jsonSchema" s.jsonSchema) :=
  tests_holds (.spellsObject "jsonSchema" s.jsonSchema) (by
    rw [Bool.or_eq_true, Text.isBlank_iff, isObject_iff_read?]
    rfl)

/-- The name of a field of a dependency tells the place of the dependency. -/
theorem Config.dependencyField_eq (i : Nat) (field : String) :
    dependencyField i field = "dependsOn[" ++ toString i ++ ("]." ++ field) :=
  String.append_assoc ..

theorem Config.tests_dependencies (i : Nat) (ds : List JobDependency) :
    List.Forall₂ Tests (dependencyChecks i ds) ((ds.zipIdx i).flatMap fun (d, i) =>
      [.present s!"dependsOn[{i}].service" d.service,
        .present s!"dependsOn[{i}].source" d.source]) := by
  induction ds generalizing i with
  | nil => exact .nil
  | cons d ds ih =>
    have hservice : dependencyField i "service" = s!"dependsOn[{i}].service" :=
      dependencyField_eq i "service"
    have hsource : dependencyField i "source" = s!"dependsOn[{i}].source" :=
      dependencyField_eq i "source"
    rw [dependencyChecks, hservice, hsource]
    exact .cons (tests_required ..) (.cons (tests_required ..) (ih (i + 1)))

namespace RecordKind

theorem tests_checks : (k : RecordKind) → (r : k.Carrier) →
    List.Forall₂ Tests (Record.checks r) (k.fieldRules r)
  | .config, (c : Config) =>
    List.rel_append (List.rel_append
      (.cons (tests_required ..) (.cons (tests_required ..) (.cons (tests_required ..) .nil)))
      (Config.tests_dependencies 0 c.dependsOn)) (.cons (tests_times ..) .nil)
  | .output, (_ : Output) =>
    .cons (tests_required ..) (.cons (tests_required ..) (.cons (tests_required ..)
      (.cons (tests_refers ..) (.cons (tests_refers ..) (.cons (tests_required ..)
        (.cons (tests_times ..) .nil))))))
  | .schema, (s : Schema) =>
    .cons (tests_required ..) (.cons (tests_required ..) (.cons (tests_required ..)
      (.cons (tests_required ..) (.cons s.tests_spellsObject (.cons (tests_times ..) .nil)))))
  | .input, (_ : Input) =>
    .cons (tests_required ..) (.cons (tests_required ..) (.cons (tests_required ..)
      (.cons (tests_required ..) (.cons (tests_required ..) (.cons (tests_times ..) .nil)))))

theorem tests_identityChecks : (k : RecordKind) → (r : k.Carrier) →
    List.Forall₂ Tests (Record.identityChecks r) (k.identityRules r)
  | .config, (_ : Config) => .cons (tests_ownId ..) (.cons (tests_ownVersion ..) .nil)
  | .output, (_ : Output) => .cons (tests_ownId ..) .nil
  | .schema, (_ : Schema) => .cons (tests_ownId ..) (.cons (tests_ownVersion ..) .nil)
  | .input, (_ : Input) => .cons (tests_ownId ..) .nil

/-! ## What is reported -/

/-- The fields that hold what is derived of the others. -/
def derivedFields : List String := ["_id", "versionId"]

theorem dependency_not_derived (s : String) : "dependsOn[" ++ s ∉ derivedFields := by
  intro h
  have hhead : ("dependsOn[" ++ s).toList.head? = some 'd' := by
    rw [String.toList_append]
    rfl
  simp only [derivedFields, List.mem_cons, List.not_mem_nil, or_false] at h
  rcases h with h | h <;> simp [h] at hhead

theorem field_not_derived : (k : RecordKind) → (r : k.Carrier) →
    ∀ rule ∈ k.fieldRules r, rule.field ∉ derivedFields
  | .config, (c : Config) => by
    rw [fieldRules, List.forall_mem_append, List.forall_mem_append]
    refine ⟨⟨by simp [Rule.present, derivedFields], fun rule h => ?_⟩,
      by simp [Rule.inOrder, derivedFields]⟩
    obtain ⟨⟨d, i⟩, -, h⟩ := List.mem_flatMap.1 h
    have hnamed : ∃ s, rule.field = "dependsOn[" ++ s := by
      simp only [List.mem_cons, List.not_mem_nil, or_false] at h
      rcases h with rfl | rfl <;> exact ⟨_, String.append_assoc ..⟩
    obtain ⟨s, hs⟩ := hnamed
    exact hs ▸ dependency_not_derived s
  | .output, (_ : Output) => by
    simp [fieldRules, Rule.present, Rule.refers, Rule.inOrder, derivedFields]
  | .schema, (_ : Schema) => by
    simp [fieldRules, Rule.present, Rule.spellsObject, Rule.inOrder, derivedFields]
  | .input, (_ : Input) => by
    simp [fieldRules, Rule.present, Rule.inOrder, derivedFields]

theorem field_derived (k : RecordKind) (r : k.Carrier) :
    ∀ rule ∈ k.identityRules r, rule.field ∈ derivedFields := by
  cases k <;> simp [identityRules, Rule.ownId, Rule.ownVersion, derivedFields]

/-- A record that was made at the time of its last update, without its identifiers, is what its
properties make. -/
theorem draft_propsOf {k : RecordKind} {r : k.Carrier} {now : Timestamp}
    (hc : Record.createdAt r = now) (hu : Record.updatedAt r = now) :
    Properties.draft (k.propsOf r) now = Record.withIdentity r .null .null := by
  have htimes : Record.withTimes r now now = r := by
    conv_rhs => rw [← LawfulRecord.withTimes_self r, hc, hu]
  exact (ReadableProperties.draft_ofRecord r now).trans (by rw [htimes])

theorem propsOf_draft : (k : RecordKind) → (p : k.Props) → (now : Timestamp) →
    k.propsOf (Properties.draft p now) = p ∧
      Record.createdAt (Properties.draft p now) = now ∧
      Record.updatedAt (Properties.draft p now) = now
  | .config, _, _ => ⟨rfl, rfl, rfl⟩
  | .output, _, _ => ⟨rfl, rfl, rfl⟩
  | .schema, _, _ => ⟨rfl, rfl, rfl⟩
  | .input, _, _ => ⟨rfl, rfl, rfl⟩

end RecordKind

namespace Record

open RecordKind

theorem reports_checks (k : RecordKind) (r : k.Carrier) :
    Reports (k.fieldRules r) (violations (checks r)) :=
  reports_violations (k.tests_checks r)

theorem reports_identityChecks (k : RecordKind) (r : k.Carrier) :
    Reports (k.identityRules r) (violations (identityChecks r)) :=
  reports_violations (k.tests_identityChecks r)

/-- The rules on derived fields apart, the rules report the broken checks of the fields. -/
theorem filter_of_reports {k : RecordKind} {r : k.Carrier} {vs : List Violation}
    (h : Reports (k.rules r) vs) :
    vs.filter (fun v => v.field ∉ derivedFields) = violations (checks r) := by
  obtain rfl := h.unique ((reports_checks k r).append (reports_identityChecks k r))
  have hfields : ∀ v ∈ violations (checks r), decide (v.field ∉ derivedFields) = true := by
    intro v hv
    obtain ⟨rule, hrule, heq⟩ := (reports_checks k r).exists_field hv
    exact decide_eq_true (heq ▸ field_not_derived k r rule hrule)
  have hderived : ∀ v ∈ violations (identityChecks r),
      ¬ decide (v.field ∉ derivedFields) = true := by
    intro v hv
    obtain ⟨rule, hrule, heq⟩ := (reports_identityChecks k r).exists_field hv
    simpa [← heq] using field_derived k r rule hrule
  rw [List.filter_append, List.filter_eq_self.2 hfields, List.filter_eq_nil_iff.2 hderived,
    List.append_nil]

/-- **The broken rules are reported, and nothing else.** Validation reports the broken rules of a
record in their order, whatever the record. Properties make a record at a time, unless a rule on the
fields is broken by the records that have these properties and were made and last updated at that
time; then the broken ones of these rules are reported in their order. -/
theorem broken_rules_reported (k : RecordKind) :
    (∀ r : k.Carrier, ∃ vs, Reports (k.rules r) vs ∧
      validate r = if vs = [] then .ok () else .error ⟨k.name, vs⟩) ∧
    ∀ (p : k.Props) (now : Timestamp),
      (∃ r : k.Carrier, k.propsOf r = p ∧ createdAt r = now ∧ updatedAt r = now) ∧
      ∀ r : k.Carrier, k.propsOf r = p → createdAt r = now → updatedAt r = now →
        ∀ vs, Reports (k.rules r) vs →
          Properties.create p now =
            if vs.filter (fun v => v.field ∉ derivedFields) = [] then
              .ok (withIdentity r (derivedId r) (derivedVersion r))
            else .error ⟨k.name, vs.filter fun v => v.field ∉ derivedFields⟩ := by
  constructor
  · intro r
    refine ⟨_, (reports_checks k r).append (reports_identityChecks k r), ?_⟩
    rw [validate, Check.run, violations_append, k.kind_carrier]
    simp only [List.isEmpty_iff]
  · refine fun p now => ⟨⟨_, k.propsOf_draft p now⟩, ?_⟩
    rintro r rfl hc hu vs hvs
    rw [filter_of_reports hvs, Properties.create, draft_propsOf hc hu, identify, Check.run,
      LawfulIdentity.checks_withIdentity, k.kind_carrier, LawfulIdentity.withIdentity_withIdentity,
      derivedId_withIdentity, derivedVersion_withIdentity]
    by_cases hnil : violations (checks r) = []
    · rw [if_pos hnil, hnil]
      rfl
    · rw [if_neg hnil, if_neg (mt List.isEmpty_iff.1 hnil)]

/-- Properties with a blank provider and two dependencies, one without a source and one without a
service. -/
def faultyProps : ConfigProps :=
  ⟨"billing", "events", " \u3000", true, [⟨"auth", ""⟩, ⟨"\t", "users"⟩], ⟨"", ""⟩⟩

/-- A configuration with three blank texts, to which no identifier has been given. -/
theorem broken_rules_reported_faulty :
    let r : RecordKind.config.Carrier := Properties.draft faultyProps .lastLegible
    let blank : List Violation := [⟨"provider", "is required"⟩,
      ⟨"dependsOn[0].source", "is required"⟩, ⟨"dependsOn[1].service", "is required"⟩]
    validate r = .error ⟨"config", blank ++
        [⟨"_id", "does not match the record's natural key"⟩,
          ⟨"versionId", "does not match the record's content"⟩]⟩ ∧
      Properties.create faultyProps .lastLegible = .error ⟨"config", blank⟩ := by
  intro r blank
  obtain ⟨hvalidate, hcreate⟩ := broken_rules_reported .config
  have hnull (derived : RecordId) : ¬ (RecordId.null ≠ .null ∧ RecordId.null = derived) :=
    fun h => h.1 rfl
  have hreports : Reports (RecordKind.config.rules r) (blank ++
      [⟨"_id", "does not match the record's natural key"⟩,
        ⟨"versionId", "does not match the record's content"⟩]) :=
    .kept (present_iff.2 (by decide)) <| .kept (present_iff.2 (by decide)) <|
    .broken (not_present (by decide)) <| .kept (present_iff.2 (by decide)) <|
    .broken (not_present (by decide)) <| .broken (not_present (by decide)) <|
    .kept (present_iff.2 (by decide)) <| .kept (Timestamp.le_refl _) <|
    .broken (hnull _) <| .broken (hnull _) .nil
  obtain ⟨vs, hvs, hv⟩ := hvalidate r
  obtain rfl := hvs.unique hreports
  exact ⟨hv, hcreate faultyProps .lastLegible |>.2 r rfl rfl rfl _ hreports⟩

end Record

end JobRegistry
