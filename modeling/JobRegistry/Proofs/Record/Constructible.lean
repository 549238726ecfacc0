import JobRegistry.Proofs.Record.Identity
import JobRegistry.Proofs.Record.Kinds

/-!
# What is valid can be made

A record comes to be in one way only: its properties are checked, and its identifiers derived from
them. Validation looks at a record as it stands, however it came about. Both accept the same records
(`valid_iff_constructible`): what was made is valid, and a record is valid exactly when the
properties that can be read off it make that record, but for its time of update, which must not lie
before the time of creation.

So a field that enters an identifier cannot be changed under the old identifier, unless the hashed
texts collide. The null identifier is refused by validation and not by the derivation, so that no
text may be hashed to it.
-/

namespace JobRegistry

/-! ## Properties of records -/

/-- Setting the identifiers of a record changes nothing else. -/
class LawfulIdentity (R : Type) [Record R] : Prop where
  id_withIdentity (r : R) (i v : RecordId) :
    Record.id (Record.withIdentity r i v) = i := by intros; rfl
  version?_withIdentity (r : R) (i v : RecordId) :
    Record.version? (Record.withIdentity r i v) = (Record.version? r).map fun _ => v := by
      intros; rfl
  naturalKey_withIdentity (r : R) (i v : RecordId) :
    Record.naturalKey (Record.withIdentity r i v) = Record.naturalKey r := by intros; rfl
  payload_withIdentity (r : R) (i v : RecordId) :
    Record.payload (Record.withIdentity r i v) = Record.payload r := by intros; rfl
  checks_withIdentity (r : R) (i v : RecordId) :
    Record.checks (Record.withIdentity r i v) = Record.checks r := by intros; rfl
  withIdentity_withIdentity (r : R) (i v i' v' : RecordId) :
    Record.withIdentity (Record.withIdentity r i v) i' v' = Record.withIdentity r i' v' := by
      intros; rfl
  withIdentity_self (r : R) (v : RecordId) :
    Record.withIdentity r (Record.id r) ((Record.version? r).getD v) = r := by intros; rfl

/-- Properties that can be read off the records that they make. -/
class ReadableProperties (P : Type) (R : outParam Type) [Record R] [Properties P R] where
  ofRecord : R → P
  draft_ofRecord (r : R) (t : Timestamp) : Properties.draft (ofRecord r) t =
    Record.withIdentity (Record.withTimes r t t) .null .null := by intros; rfl

instance : LawfulIdentity Config where

instance : LawfulIdentity Output where

instance : LawfulIdentity Schema where

instance : LawfulIdentity Input where

instance : ReadableProperties ConfigProps Config where
  ofRecord c := ⟨c.service, c.source, c.provider, c.active, c.dependsOn, c.storage⟩

instance : ReadableProperties OutputProps Output where
  ofRecord o := ⟨o.service, o.source, o.provider, o.configVersionId, o.metadata.inputId,
    o.metadata.processingId, o.metadata.processingTimestamp⟩

instance : ReadableProperties SchemaProps Schema where
  ofRecord s := ⟨s.service, s.source, s.provider, s.schemaType, s.jsonSchema⟩

instance : ReadableProperties InputProps Input where
  ofRecord i := ⟨i.service, i.source, i.provider, i.objectUri, i.format⟩

namespace RecordKind

/-- The properties of the records of a kind. -/
def Props : RecordKind → Type
  | .config => ConfigProps
  | .output => OutputProps
  | .schema => SchemaProps
  | .input => InputProps

instance : (k : RecordKind) → Properties k.Props k.Carrier
  | .config => inferInstanceAs (Properties ConfigProps Config)
  | .output => inferInstanceAs (Properties OutputProps Output)
  | .schema => inferInstanceAs (Properties SchemaProps Schema)
  | .input => inferInstanceAs (Properties InputProps Input)

instance : (k : RecordKind) → LawfulIdentity k.Carrier
  | .config => inferInstanceAs (LawfulIdentity Config)
  | .output => inferInstanceAs (LawfulIdentity Output)
  | .schema => inferInstanceAs (LawfulIdentity Schema)
  | .input => inferInstanceAs (LawfulIdentity Input)

instance : (k : RecordKind) → ReadableProperties k.Props k.Carrier
  | .config => inferInstanceAs (ReadableProperties ConfigProps Config)
  | .output => inferInstanceAs (ReadableProperties OutputProps Output)
  | .schema => inferInstanceAs (ReadableProperties SchemaProps Schema)
  | .input => inferInstanceAs (ReadableProperties InputProps Input)

/-- The properties that can be read off a record. -/
def propsOf (k : RecordKind) (r : k.Carrier) : k.Props :=
  ReadableProperties.ofRecord r

/-- The records agree in the fields of their natural keys. -/
def SameKey : (k : RecordKind) → k.Carrier → k.Carrier → Prop
  | .config, (c : Config), (c' : Config) =>
    c.service = c'.service ∧ c.source = c'.source ∧ c.provider = c'.provider
  | .output, (o : Output), (o' : Output) =>
    o.service = o'.service ∧ o.source = o'.source ∧ o.provider = o'.provider ∧
      o.metadata.inputId = o'.metadata.inputId
  | .schema, (s : Schema), (s' : Schema) =>
    s.service = s'.service ∧ s.source = s'.source ∧ s.provider = s'.provider ∧
      s.schemaType = s'.schemaType
  | .input, (i : Input), (i' : Input) =>
    i.service = i'.service ∧ i.source = i'.source ∧ i.provider = i'.provider ∧
      i.objectUri = i'.objectUri

theorem naturalKey_eq_iff : (k : RecordKind) → (r r' : k.Carrier) →
    (Record.naturalKey r = Record.naturalKey r' ↔ k.SameKey r r')
  | .config, _, _ => Config.naturalKey_inj
  | .output, _, _ => Output.naturalKey_inj
  | .schema, _, _ => Schema.naturalKey_inj
  | .input, _, _ => Input.naturalKey_inj

end RecordKind

/-! ## Making and validating -/

namespace Record

open LawfulRecord LawfulIdentity ReadableProperties

variable {P R : Type} [Record R]

/-- The texts that are hashed for the identifiers of a record. -/
def hashedTexts (r : R) : List String :=
  match version? r with
  | some _ => [keyText r, versionText r]
  | none => [keyText r]

theorem isNull_derivedId {r : R} (h : NullFree (hashedTexts r)) : (derivedId r).isNull = false := by
  have hmem : keyText r ∈ hashedTexts r := by
    unfold hashedTexts
    split <;> exact List.mem_cons_self
  rw [RecordId.isNull_eq_false, bytes_derivedId]
  exact h _ hmem

theorem isNull_derivedVersion {r : R} (h : NullFree (hashedTexts r)) {v : RecordId}
    (hv : version? r = some v) : (derivedVersion r).isNull = false := by
  have hmem : versionText r ∈ hashedTexts r := by
    rw [hashedTexts, hv]
    exact List.mem_cons_of_mem _ List.mem_cons_self
  rw [RecordId.isNull_eq_false, bytes_derivedVersion]
  exact h _ hmem

/-- What validity means for the identifiers of a record. -/
theorem violations_identityChecks {r : R} : Check.violations (identityChecks r) = [] ↔
    ((id r).isNull = false ∧ derivedId r = id r) ∧
      ∀ v ∈ version? r, v.isNull = false ∧ derivedVersion r = v := by
  rw [identityChecks, Check.violations_holds_cons]
  cases version? r with
  | none => simp [Check.violations]
  | some v =>
    dsimp only
    rw [Check.violations_holds_cons]
    simp [Check.violations]

theorem validate_eq_ok_iff {r : R} : validate r = .ok () ↔
    Check.violations (checks r) = [] ∧ ((id r).isNull = false ∧ derivedId r = id r) ∧
      ∀ v ∈ version? r, v.isNull = false ∧ derivedVersion r = v := by
  rw [validate, Check.run_eq_ok, Check.violations_append, List.append_eq_nil_iff,
    violations_identityChecks]

/-- A broken check of the identifiers shows in the fault. -/
theorem concerns_of_violation {r : R} {v : Violation}
    (hv : v ∈ Check.violations (identityChecks r)) :
    ∃ e, validate r = .error e ∧ e.concerns v.field = true := by
  have hmem : v ∈ Check.violations (checks r ++ identityChecks r) := by
    rw [Check.violations_append]
    exact List.mem_append_right _ hv
  refine ⟨_, if_neg fun h => ?_, List.any_eq_true.2 ⟨v, hmem, beq_self_eq_true _⟩⟩
  rw [List.isEmpty_iff.1 h] at hmem
  exact List.not_mem_nil hmem

theorem concerns_id {r : R} (h : derivedId r ≠ id r) :
    ∃ e, validate r = .error e ∧ e.concerns "_id" = true := by
  apply concerns_of_violation (v := ⟨"_id", "does not match the record's natural key"⟩)
  rw [identityChecks, Check.violations, List.mem_filterMap]
  exact ⟨_, List.mem_cons_self, by simp [Check.violation?, h]⟩

theorem concerns_versionId {r : R} {v : RecordId} (hv : version? r = some v)
    (h : derivedVersion r ≠ v) : ∃ e, validate r = .error e ∧ e.concerns "versionId" = true := by
  apply concerns_of_violation (v := ⟨"versionId", "does not match the record's content"⟩)
  rw [identityChecks, hv, Check.violations, List.mem_filterMap]
  exact ⟨_, List.mem_cons_of_mem _ List.mem_cons_self, by simp [Check.violation?, h]⟩

section

variable [LawfulIdentity R]

@[simp] theorem derivedId_withIdentity (r : R) (i v : RecordId) :
    derivedId (withIdentity r i v) = derivedId r := by
  rw [derivedId, naturalKey_withIdentity, derivedId]

@[simp] theorem derivedVersion_withIdentity (r : R) (i v : RecordId) :
    derivedVersion (withIdentity r i v) = derivedVersion r := by
  rw [derivedVersion, payload_withIdentity, derivedVersion]

variable [Properties P R]

/-- A new record carries the identifiers that are derived from it. -/
theorem derived_of_create {p : P} {now : Timestamp} {r : R} (h : Properties.create p now = .ok r) :
    Check.violations (checks r) = [] ∧ id r = derivedId r ∧
      ∀ v ∈ version? r, v = derivedVersion r := by
  obtain ⟨hchecks, rfl⟩ := identify_eq_ok.1 h
  rw [checks_withIdentity, id_withIdentity, version?_withIdentity, derivedId_withIdentity,
    derivedVersion_withIdentity]
  refine ⟨hchecks, rfl, fun v hv => ?_⟩
  obtain ⟨w, -, rfl⟩ := Option.map_eq_some_iff.1 hv
  rfl

/-- **A new record is valid** if no text is hashed to the null identifier. -/
theorem validate_of_create {p : P} {now : Timestamp} {r : R} (h : Properties.create p now = .ok r)
    (hnull : NullFree (hashedTexts r)) : validate r = .ok () := by
  obtain ⟨hchecks, hid, hversion⟩ := derived_of_create h
  apply validate_eq_ok hchecks hid
  · rw [hid]
    exact isNull_derivedId hnull
  · intro v hv
    obtain rfl := hversion v hv
    exact ⟨rfl, isNull_derivedVersion hnull hv⟩

/-- What the properties of a record make at its time of creation: the record with the identifiers
derived from it, if its checks but that of its times hold. -/
theorem create_ofRecord [LawfulRecord R] [ReadableProperties P R] {r r' : R} {rules : List Check}
    (hrules : ∀ c u, checks (withTimes r c u) = rules ++ [timesCheck c u]) :
    Properties.create (ofRecord (P := P) r) (createdAt r) = .ok r' ↔
      Check.violations rules = [] ∧ r' = withIdentity (withTimes r (createdAt r) (createdAt r))
        (derivedId r) (derivedVersion r) := by
  have htimes : Check.violations (rules ++ [timesCheck (createdAt r) (createdAt r)]) = [] ↔
      Check.violations rules = [] :=
    Check.violations_append_times.trans (and_iff_left (Timestamp.le_refl _))
  rw [Properties.create, identify_eq_ok, draft_ofRecord, checks_withIdentity, hrules, htimes,
    withIdentity_withIdentity, derivedId_withIdentity, derivedVersion_withIdentity,
    derivedId_withTimes, derivedVersion_withTimes]

/-- The properties of a record make it anew exactly when its checks but that of its times hold and
it carries the identifiers derived from it. -/
theorem exists_create_ofRecord [LawfulRecord R] [ReadableProperties P R] {r : R}
    {rules : List Check}
    (hrules : ∀ c u, checks (withTimes r c u) = rules ++ [timesCheck c u]) :
    (∃ u, Properties.create (ofRecord (P := P) r) (createdAt r) =
        .ok (withTimes r (createdAt r) u)) ↔
      Check.violations rules = [] ∧ derivedId r = id r ∧
        ∀ v ∈ version? r, derivedVersion r = v := by
  constructor
  · rintro ⟨u, hu⟩
    obtain ⟨hok, heq⟩ := (create_ofRecord hrules).1 hu
    have hid := congrArg id heq
    have hversion := congrArg version? heq
    rw [id_withTimes, id_withIdentity] at hid
    rw [version?_withTimes, version?_withIdentity, version?_withTimes] at hversion
    refine ⟨hok, hid.symm, fun v hv => ?_⟩
    rw [Option.mem_def.1 hv] at hversion
    exact (Option.some.inj hversion).symm
  · rintro ⟨hok, hid, hversion⟩
    refine ⟨createdAt r, (create_ofRecord hrules).2 ⟨hok, ?_⟩⟩
    have hget : (version? r).getD (derivedVersion r) = derivedVersion r := by
      cases hv : version? r with
      | none => rfl
      | some v => exact (hversion v hv).symm
    have hself := withIdentity_self (withTimes r (createdAt r) (createdAt r)) (derivedVersion r)
    rw [id_withTimes, version?_withTimes, hget, ← hid] at hself
    exact hself.symm

/-- A record is valid exactly when its properties make it anew, but for its time of update. -/
theorem validate_eq_ok_iff_create [LawfulRecord R] [ReadableProperties P R] {r : R}
    (hnull : NullFree (hashedTexts r)) : validate r = .ok () ↔ createdAt r ≤ updatedAt r ∧
      ∃ u, Properties.create (ofRecord (P := P) r) (createdAt r) =
        .ok (withTimes r (createdAt r) u) := by
  obtain ⟨rules, hrules⟩ := checks_withTimes r
  have hchecks : checks r = rules ++ [timesCheck (createdAt r) (updatedAt r)] := by
    rw [← hrules, withTimes_self]
  rw [exists_create_ofRecord hrules, validate_eq_ok_iff, hchecks, Check.violations_append_times]
  constructor
  · rintro ⟨⟨hok, hle⟩, ⟨-, hid⟩, hversion⟩
    exact ⟨hle, hok, hid, fun v hv => (hversion v hv).2⟩
  · rintro ⟨hle, hok, hid, hversion⟩
    refine ⟨⟨hok, hle⟩, ⟨hid ▸ isNull_derivedId hnull, hid⟩, fun v hv => ?_⟩
    have heq := hversion v hv
    exact ⟨heq ▸ isNull_derivedVersion hnull hv, heq⟩

/-- A record that has the identifier of a new one with another natural key is not valid. -/
theorem concerns_id_of_create {p : P} {now : Timestamp} {r₀ r : R}
    (h : Properties.create p now = .ok r₀) (hid : id r = id r₀)
    (hkey : naturalKey r ≠ naturalKey r₀) (hfree : CollisionFree [keyText r, keyText r₀]) :
    ∃ e, validate r = .error e ∧ e.concerns "_id" = true := by
  apply concerns_id
  intro heq
  rw [hid, (derived_of_create h).2.1] at heq
  have htext : keyText r = keyText r₀ := by
    apply hfree _ List.mem_cons_self _ (List.mem_cons_of_mem _ List.mem_cons_self)
    rw [← bytes_derivedId, ← bytes_derivedId, heq]
  exact hkey (keyText_inj.1 htext)

/-- A record that has the version marker of a new one with another content is not valid. -/
theorem concerns_versionId_of_create {p : P} {now : Timestamp} {r₀ r : R}
    (h : Properties.create p now = .ok r₀) {v : RecordId} (hv : version? r = some v)
    (hv₀ : version? r₀ = some v) (hpayload : payload r ≠ payload r₀)
    (hfree : CollisionFree [versionText r, versionText r₀]) :
    ∃ e, validate r = .error e ∧ e.concerns "versionId" = true := by
  apply concerns_versionId hv
  intro heq
  rw [(derived_of_create h).2.2 v hv₀] at heq
  have htext : versionText r = versionText r₀ := by
    apply hfree _ List.mem_cons_self _ (List.mem_cons_of_mem _ List.mem_cons_self)
    rw [← bytes_derivedVersion, ← bytes_derivedVersion, heq]
  exact hpayload (versionText_inj.1 htext)

end

/-- **Valid means constructible.** If no text is hashed to the null identifier, what was made of
properties is valid, and a record is valid exactly when it was not updated before it was created and
its properties make it anew, but for its time of update. If a field of the natural key was changed
after a record was made, the check of its identifier is broken, and if the content was, that of its
version marker, unless the hashed texts collide. -/
theorem valid_iff_constructible (k : RecordKind) :
    (∀ (p : k.Props) (now : Timestamp) (r : k.Carrier), Properties.create p now = .ok r →
      NullFree (hashedTexts r) → validate r = .ok ()) ∧
    (∀ r : k.Carrier, NullFree (hashedTexts r) →
      (validate r = .ok () ↔ createdAt r ≤ updatedAt r ∧
        ∃ u, Properties.create (k.propsOf r) (createdAt r) = .ok (withTimes r (createdAt r) u))) ∧
    (∀ (p : k.Props) (now : Timestamp) (r₀ r : k.Carrier), Properties.create p now = .ok r₀ →
      id r = id r₀ → ¬ k.SameKey r r₀ → CollisionFree [keyText r, keyText r₀] →
        ∃ e, validate r = .error e ∧ e.concerns "_id" = true) ∧
    ∀ (p : k.Props) (now : Timestamp) (r₀ r : k.Carrier) (v : RecordId),
      Properties.create p now = .ok r₀ → version? r = some v → version? r₀ = some v →
      payload r ≠ payload r₀ → CollisionFree [versionText r, versionText r₀] →
        ∃ e, validate r = .error e ∧ e.concerns "versionId" = true := by
  refine ⟨fun p now r => validate_of_create, fun r => validate_eq_ok_iff_create, ?_, ?_⟩
  · intro p now r₀ r h hid hkey
    exact concerns_id_of_create h hid (mt (k.naturalKey_eq_iff r r₀).1 hkey)
  · intro p now r₀ r v h
    exact concerns_versionId_of_create h

/-! ## A configuration that was altered -/

/-- The properties of a configuration with short fields. -/
def bareProps (service : String) : ConfigProps :=
  ⟨service, "b", "c", true, [], ⟨"", ""⟩⟩

/-- The configuration of `bareProps`. -/
def bareConfig (service : String) : RecordKind.config.Carrier :=
  let draft := Properties.draft (bareProps service) .lastLegible
  withIdentity draft (derivedId draft) (derivedVersion draft)

theorem create_bareProps {service : String} (h : Text.isBlank service = false) :
    Properties.create (bareProps service) .lastLegible = .ok (bareConfig service) := by
  refine identify_eq_ok.2 ⟨?_, rfl⟩
  apply Check.violations_new [.required "service" service, .required "source" "b",
    .required "provider" "c"]
  exact Check.violations_required_cons.2 ⟨h, by decide⟩

/-- The digests of the texts that two such configurations hash are not null, and differ at once. -/
theorem digestHead_bareConfig :
    digestHead (keyText (bareConfig "a")) = some 128 ∧
    digestHead (keyText (bareConfig "d")) = some 19 ∧
    digestHead (versionText (bareConfig "a")) = some 252 ∧
    digestHead (versionText (bareConfig "d")) = some 26 := by
  decide +kernel

theorem nullFree_bareConfig :
    NullFree (hashedTexts (bareConfig "a")) ∧ NullFree (hashedTexts (bareConfig "d")) := by
  obtain ⟨hkey, hkey', hversion, hversion'⟩ := digestHead_bareConfig
  have htexts (service : String) : (hashedTexts (bareConfig service)).map digestHead =
      [digestHead (keyText (bareConfig service)),
        digestHead (versionText (bareConfig service))] := rfl
  refine ⟨.of_heads ?_, .of_heads ?_⟩
  · rw [htexts, hkey, hversion]
    decide
  · rw [htexts, hkey', hversion']
    decide

theorem validate_bareConfig :
    validate (bareConfig "a") = .ok () ∧ validate (bareConfig "d") = .ok () :=
  ⟨validate_of_create (create_bareProps (by decide)) nullFree_bareConfig.1,
    validate_of_create (create_bareProps (by decide)) nullFree_bareConfig.2⟩

theorem id_bareConfig_ne : id (bareConfig "d") ≠ id (bareConfig "a") := by
  obtain ⟨hkey, hkey', -⟩ := digestHead_bareConfig
  rw [← derivedId_eq_id validate_bareConfig.1, ← derivedId_eq_id validate_bareConfig.2]
  apply derivedId_ne_of_heads
  rw [hkey, hkey']
  decide

/-- A configuration whose service was changed under the old identifiers. -/
theorem valid_iff_constructible_specimen :
    let c := bareConfig "a"
    let altered : RecordKind.config.Carrier := withIdentity (bareConfig "d") c.id c.versionId
    Properties.create (bareProps "a") .lastLegible = .ok c ∧ validate c = .ok () ∧
      (∃ u, Properties.create (RecordKind.config.propsOf c) (createdAt c) =
        .ok (withTimes c (createdAt c) u)) ∧
      (∃ e, validate altered = .error e ∧ e.concerns "_id" = true) ∧
      ∃ e, validate altered = .error e ∧ e.concerns "versionId" = true := by
  intro c altered
  obtain ⟨hkey, hkey', hversion, hversion'⟩ := digestHead_bareConfig
  have hnull : NullFree (hashedTexts c) := nullFree_bareConfig.1
  have hkeys : CollisionFree [keyText altered, keyText c] := by
    apply CollisionFree.of_heads
    rw [show keyText altered = keyText (bareConfig "d") from
      keyText_inj.2 (naturalKey_withIdentity ..), List.map_cons, List.map_singleton, hkey, hkey']
    decide
  have hversions : CollisionFree [versionText altered, versionText c] := by
    apply CollisionFree.of_heads
    rw [show versionText altered = versionText (bareConfig "d") from
      versionText_inj.2 (payload_withIdentity ..), List.map_cons, List.map_singleton, hversion,
      hversion']
    decide
  have hservice : "d" ≠ "a" := by decide
  have hsame : ¬ RecordKind.config.SameKey altered c := fun h => hservice h.1
  have hpayload : payload altered ≠ payload c := fun h => hservice (Config.payload_inj.1 h).1
  obtain ⟨hmade, hvalid, hid, hversion⟩ := valid_iff_constructible .config
  have hcreate : Properties.create (bareProps "a") .lastLegible = .ok c :=
    create_bareProps (by decide)
  have h := hmade (bareProps "a") .lastLegible c hcreate hnull
  have hold : id altered = id c := id_withIdentity ..
  have hmarker : version? altered = some c.versionId := version?_withIdentity ..
  exact ⟨hcreate, h, ((hvalid c hnull).1 h).2,
    hid (bareProps "a") .lastLegible c altered hcreate hold hsame hkeys,
    hversion (bareProps "a") .lastLegible c altered c.versionId hcreate hmarker rfl hpayload
      hversions⟩

end Record

end JobRegistry
