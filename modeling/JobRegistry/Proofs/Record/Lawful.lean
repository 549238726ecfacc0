import JobRegistry.Proofs.Mapper.RoundTrip
import JobRegistry.Record.Basic
import JobRegistry.Store.Basic

/-!
# Laws of records

What the types of records have in common beyond their operations (`LawfulRecord`): the layout is
regular and starts with the identifier, and setting the times of a record changes nothing else and
only the last of its checks.

From the laws follows what a vault relies on. Every record has a document, which reads back as that
record or not at all (`ofDocument_answers`), and the times of a valid record can be replaced by any
others that are in order (`validate_withTimes`).
-/

namespace JobRegistry

/-- A type of records that keeps what it is told. -/
class LawfulRecord (R : Type) [Record R] : Prop where
  regular : (Record.layout R).Regular
  settled (r : R) : (Record.layout R).Settled (Record.fields r)
  ofFields_fields (r : R) : Record.ofFields (Record.fields r) = r
  /-- The identifier comes first in a document. -/
  id_first (r : R) : ∃ entries,
    Record.toDocument r = .ok ⟨(idKey, .text (Record.id r).toHex) :: entries⟩
  createdAt_withTimes (r : R) (c u : Timestamp) :
    Record.createdAt (Record.withTimes r c u) = c := by intros; rfl
  updatedAt_withTimes (r : R) (c u : Timestamp) :
    Record.updatedAt (Record.withTimes r c u) = u := by intros; rfl
  id_withTimes (r : R) (c u : Timestamp) :
    Record.id (Record.withTimes r c u) = Record.id r := by intros; rfl
  version?_withTimes (r : R) (c u : Timestamp) :
    Record.version? (Record.withTimes r c u) = Record.version? r := by intros; rfl
  naturalKey_withTimes (r : R) (c u : Timestamp) :
    Record.naturalKey (Record.withTimes r c u) = Record.naturalKey r := by intros; rfl
  payload_withTimes (r : R) (c u : Timestamp) :
    Record.payload (Record.withTimes r c u) = Record.payload r := by intros; rfl
  withTimes_self (r : R) :
    Record.withTimes r (Record.createdAt r) (Record.updatedAt r) = r := by intros; rfl
  /-- Only the last check looks at the times. -/
  checks_withTimes (r : R) : ∃ rules, ∀ c u,
    Record.checks (Record.withTimes r c u) = rules ++ [Record.timesCheck c u]

attribute [simp] LawfulRecord.createdAt_withTimes LawfulRecord.updatedAt_withTimes
  LawfulRecord.id_withTimes LawfulRecord.version?_withTimes LawfulRecord.naturalKey_withTimes
  LawfulRecord.payload_withTimes LawfulRecord.withTimes_self

/-- The document of a record whose layout starts with an identifier. -/
theorem Layout.toDocument_id_first {name tag : String} {strict : Bool} {absence : Absence}
    {rest : Fields} (h : (record name strict (.cons tag absence .recordId rest)).Regular)
    (id : RecordId) (xs : FieldsCarrier rest) (hx : EveryField SettledAt rest xs) :
    ∃ entries, toDocument (.record name strict (.cons tag absence .recordId rest)) (id, xs) =
      .ok ⟨(tag, .text id.toHex) :: entries⟩ := by
  obtain ⟨hn, -, hrest⟩ := h
  obtain ⟨htag, hn⟩ := List.nodup_cons.1 hn
  have hx := EveryField.imp writableAt_of_settledAt rest hrest xs hx
  obtain ⟨entries, he, -⟩ := keptFields rest hn hrest xs hx [(tag, .text id.toHex)] fun t ht => by
    simp only [List.map_cons, List.map_nil, List.mem_singleton]
    rintro rfl
    exact htag ht
  have habs : ¬ (absence = .omitted ∧ isAbsent .recordId id = true) :=
    fun h => Bool.false_ne_true h.2
  have hf : encodeFields (.cons tag absence .recordId rest) [] (id, xs) =
      .ok ((tag, .text id.toHex) :: entries) :=
    (if_neg habs).trans he
  have hv : encode (.record name strict (.cons tag absence .recordId rest)) (id, xs) =
      .ok (.document ((tag, .text id.toHex) :: entries)) :=
    congrArg (Except.map Value.document) hf
  exact ⟨entries, toDocument_eq_ok.2 hv⟩

/-! ## Checks -/

namespace Check

theorem run_eq_ok {kind : String} {checks : List Check} :
    run kind checks = .ok () ↔ violations checks = [] := by
  unfold run
  split
  · next h => exact iff_of_true rfl (List.isEmpty_iff.1 h)
  · next h => exact iff_of_false nofun (fun he => h (List.isEmpty_iff.2 he))

theorem violations_required_cons {field text : String} {rest : List Check} :
    violations (.required field text :: rest) = [] ↔
      Text.isBlank text = false ∧ violations rest = [] := by
  cases h : Text.isBlank text <;> simp [violations, violation?, h]

theorem violations_append (as bs : List Check) :
    violations (as ++ bs) = violations as ++ violations bs :=
  List.filterMap_append ..

theorem violations_holds_cons {field reason : String} {ok : Bool} {rest : List Check} :
    violations (.holds field ok reason :: rest) = [] ↔ ok = true ∧ violations rest = [] := by
  cases ok <;> simp [violations, violation?]

/-- Of checks that end with that of the times. -/
theorem violations_append_times {rules : List Check} {c u : Timestamp} :
    violations (rules ++ [Record.timesCheck c u]) = [] ↔ violations rules = [] ∧ c ≤ u := by
  rw [violations_append, List.append_eq_nil_iff, Record.timesCheck, violations_holds_cons,
    decide_eq_true_eq]
  exact and_congr_right fun _ => and_iff_left rfl

end Check

/-! ## Records -/

namespace Record

open LawfulRecord

/-- The identifier of a valid record is the one its natural key gives. -/
theorem derivedId_eq_id {R : Type} [Record R] {r : R} (h : validate r = .ok ()) :
    derivedId r = id r := by
  rw [validate, Check.run_eq_ok, Check.violations_append, List.append_eq_nil_iff,
    identityChecks, Check.violations_holds_cons] at h
  simp only [Bool.and_eq_true, beq_iff_eq] at h
  exact h.2.1.2

/-- A record is valid if its own checks hold and it carries the identifiers derived from it. -/
theorem validate_eq_ok {R : Type} [Record R] {r : R} (hchecks : Check.violations (checks r) = [])
    (hid : id r = derivedId r) (hnull : (id r).isNull = false)
    (hversion : ∀ v ∈ version? r, v = derivedVersion r ∧ v.isNull = false) :
    validate r = .ok () := by
  rw [validate, Check.run_eq_ok, Check.violations_append, hchecks, List.nil_append,
    identityChecks, Check.violations_holds_cons, ← hid, hnull]
  refine ⟨by simp, ?_⟩
  cases hv : version? r with
  | none => rfl
  | some v =>
    obtain ⟨rfl, hnull⟩ := hversion v hv
    simp only [Check.violations_holds_cons, hnull, beq_self_eq_true]
    exact ⟨rfl, rfl⟩

/-- A record gets its identifiers when its own checks hold. -/
theorem identify_eq_ok {R : Type} [Record R] {r r' : R} : identify r = .ok r' ↔
    Check.violations (checks r) = [] ∧ r' = withIdentity r (derivedId r) (derivedVersion r) := by
  have hrun : Check.run (kind R).name (checks r) = .ok () ↔ Check.violations (checks r) = [] :=
    Check.run_eq_ok
  rw [← hrun, identify]
  split
  · next e he =>
    rw [he]
    exact iff_of_false nofun nofun
  · next hok =>
    rw [hok]
    exact ⟨fun h => ⟨rfl, (Except.ok.inj h).symm⟩, fun h => congrArg _ h.2.symm⟩

variable {R : Type} [Record R] [LawfulRecord R]

/-- The years of all timestamps of the record have four digits. -/
def Legible (r : R) : Prop :=
  (layout R).Legible (fields r)

/-- The document of a record reads back as that record if it is legible, else not at all. -/
theorem ofDocument_answers {r : R} {d : Document} (h : toDocument r = .ok d) :
    Answers (Legible r) r (ofDocument R d) := by
  obtain ⟨v, hv⟩ := Layout.kept (layout R) regular (fields r) ((settled r).writable regular)
  obtain rfl : v = d.toValue :=
    Except.ok.inj (hv.encode_eq.symm.trans (Layout.toDocument_eq_ok.1 h))
  have := (hv.answers.mapError MapperError.decode).map (ofFields (R := R))
  rwa [(settled r).arrange_eq regular, ofFields_fields] at this

theorem idOf?_toDocument {r : R} {d : Document} (h : toDocument r = .ok d) :
    Store.idOf? d = some (id r).toHex := by
  obtain ⟨entries, he⟩ := id_first r
  cases h.symm.trans he
  rfl

theorem exists_toDocument (r : R) : ∃ d, toDocument r = .ok d := by
  obtain ⟨entries, he⟩ := id_first r
  exact ⟨_, he⟩

@[simp] theorem derivedId_withTimes (r : R) (c u : Timestamp) :
    derivedId (withTimes r c u) = derivedId r := by
  rw [derivedId, naturalKey_withTimes, derivedId]

@[simp] theorem derivedVersion_withTimes (r : R) (c u : Timestamp) :
    derivedVersion (withTimes r c u) = derivedVersion r := by
  rw [derivedVersion, payload_withTimes, derivedVersion]

@[simp] theorem identityChecks_withTimes (r : R) (c u : Timestamp) :
    identityChecks (withTimes r c u) = identityChecks r := by
  simp only [identityChecks, derivedId_withTimes, id_withTimes, version?_withTimes,
    derivedVersion_withTimes]

/-- What validity means for the times of a record, all else being equal. -/
theorem validate_withTimes_iff (r : R) : ∃ p : Prop, ∀ c u,
    validate (withTimes r c u) = .ok () ↔ p ∧ c ≤ u := by
  obtain ⟨rules, hr⟩ := checks_withTimes r
  refine ⟨Check.violations rules = [] ∧ Check.violations (identityChecks r) = [], fun c u => ?_⟩
  rw [validate, Check.run_eq_ok, hr, identityChecks_withTimes, Check.violations_append,
    List.append_eq_nil_iff, Check.violations_append_times]
  exact ⟨fun ⟨⟨h, hcu⟩, h'⟩ => ⟨⟨h, h'⟩, hcu⟩, fun ⟨⟨h, h'⟩, hcu⟩ => ⟨⟨h, hcu⟩, h'⟩⟩

/-- A valid record was not updated before it was created. -/
theorem createdAt_le_updatedAt {r : R} (h : validate r = .ok ()) : createdAt r ≤ updatedAt r := by
  obtain ⟨p, hp⟩ := validate_withTimes_iff r
  rw [← withTimes_self r, hp] at h
  exact h.2

/-- **A valid record stays valid with any other times in order.** -/
theorem validate_withTimes {r : R} (h : validate r = .ok ()) {c u : Timestamp} (hcu : c ≤ u) :
    validate (withTimes r c u) = .ok () := by
  obtain ⟨p, hp⟩ := validate_withTimes_iff r
  rw [← withTimes_self r, hp] at h
  exact (hp c u).2 ⟨h.1, hcu⟩

end Record

end JobRegistry
