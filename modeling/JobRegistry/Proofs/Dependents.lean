import JobRegistry.Dependents
import JobRegistry.Proofs.Record.Constructible
import JobRegistry.Proofs.Vault.NaturalKey
import JobRegistry.Proofs.Vault.Outcomes

/-!
# The dependents among given configurations

The configurations are registered one after another in an empty collection, which so holds the
documents of those registered so far (`run_registerAll`). An entry goes through if its own checks
hold and its job is not that of an earlier entry; the first one that does not is the fault of all
(`Submission.Fault`). When all have gone through, the question is answered from their documents, and
the answer lists those that have the given dependency, in the order in which they were given
(`dependents_exact`).

The times at which the clock is read matter only in that they must be legible.
-/

namespace JobRegistry

open Store Operation

/-! ## Entries -/

/-- No text that a configuration requires is blank. -/
structure ConfigProps.Complete (p : ConfigProps) : Prop where
  service : Text.isBlank p.service = false
  source : Text.isBlank p.source = false
  provider : Text.isBlank p.provider = false
  dependsOn : ∀ d ∈ p.dependsOn, Text.isBlank d.service = false ∧ Text.isBlank d.source = false

theorem Config.violations_dependencyChecks (i : Nat) (ds : List JobDependency) :
    Check.violations (dependencyChecks i ds) = [] ↔
      ∀ d ∈ ds, Text.isBlank d.service = false ∧ Text.isBlank d.source = false := by
  induction ds generalizing i with
  | nil => exact iff_of_true rfl (List.forall_mem_nil _)
  | cons d ds ih =>
    rw [dependencyChecks, Check.violations_required_cons, Check.violations_required_cons, ih,
      List.forall_mem_cons, and_assoc]

namespace Submission

/-- The configuration of an entry before its identifiers are derived. -/
def draft (q : Submission) : Config :=
  Properties.draft q.props q.now

/-- The identifier that is derived from the job of an entry. -/
def id (q : Submission) : RecordId :=
  Record.idOfKey Config (Config.key q.props.service q.props.source q.props.provider)

/-- The version marker that is derived from the content of an entry. -/
def versionId (q : Submission) : RecordId :=
  Record.derivedVersion q.draft

/-- The configuration that is built from an entry. -/
def config (q : Submission) : Config :=
  Record.withIdentity q.draft q.id q.versionId

/-- The checks of an entry hold, and no identifier derived from it is null. -/
structure Accepted (q : Submission) : Prop where
  complete : q.props.Complete
  id : q.id.isNull = false
  versionId : q.versionId.isNull = false

/-- Why an entry is refused after those with the given identifiers. -/
inductive Fault (v : Vault Config) (earlier : List RecordId) (q : Submission) : VaultError → Prop
  | invalid (e : ValidationError) (h : ¬ q.Accepted) : Fault v earlier q (.validation e)
  | repeated (h : q.Accepted) (hmem : q.id ∈ earlier) : Fault v earlier q (v.taken q.id)

variable {q : Submission}

theorem violations_draft : Check.violations (Record.checks q.draft) = [] ↔ q.props.Complete := by
  have htimes : Check.violations [Record.timesCheck q.now q.now] = [] :=
    Check.violations_new [] rfl q.now
  show Check.violations ([.required "service" q.props.service, .required "source" q.props.source,
    .required "provider" q.props.provider] ++ Config.dependencyChecks 0 q.props.dependsOn ++
      [Record.timesCheck q.now q.now]) = [] ↔ _
  rw [Check.violations_append, htimes, List.append_nil, List.cons_append, List.cons_append,
    List.cons_append, List.nil_append, Check.violations_required_cons,
    Check.violations_required_cons, Check.violations_required_cons,
    Config.violations_dependencyChecks]
  exact ⟨fun ⟨h, h', h'', hd⟩ => ⟨h, h', h'', hd⟩, fun ⟨h, h', h'', hd⟩ => ⟨h, h', h'', hd⟩⟩

/-- What is built from an entry. -/
theorem create_eq_ok {c : Config} :
    Properties.create q.props q.now = .ok c ↔ q.props.Complete ∧ c = q.config := by
  rw [← violations_draft]
  exact Record.identify_eq_ok

/-- The configuration that is built from an entry is valid if the entry is accepted. -/
theorem validate_config : Record.validate q.config = .ok () ↔ q.Accepted := by
  rw [Record.validate_eq_ok_iff]
  have hchecks : Check.violations (Record.checks q.config) = [] ↔ q.props.Complete :=
    violations_draft
  have hid : Record.derivedId q.config = Record.id q.config := rfl
  have hversion : Record.version? q.config = some q.versionId := rfl
  have hmarker : Record.derivedVersion q.config = q.versionId := rfl
  rw [hchecks, hversion]
  constructor
  · rintro ⟨hcomplete, ⟨hnull, -⟩, hnull'⟩
    exact ⟨hcomplete, hnull, (hnull' _ rfl).1⟩
  · rintro ⟨hcomplete, hnull, hnull'⟩
    refine ⟨hcomplete, ⟨hnull, hid⟩, ?_⟩
    rintro _ ⟨⟩
    exact ⟨hnull', hmarker⟩

/-- Only the checks of its texts decide on an entry, unless a text is hashed to the null
identifier. -/
theorem accepted_iff (h : NullFree (Record.hashedTexts q.draft)) :
    q.Accepted ↔ q.props.Complete := by
  have hid : Record.derivedId q.draft = q.id := rfl
  have hversion : Record.version? q.draft = some .null := rfl
  refine ⟨Accepted.complete, fun hcomplete => ⟨hcomplete, ?_, ?_⟩⟩
  · rw [← hid]
    exact Record.isNull_derivedId h
  · exact Record.isNull_derivedVersion h hversion

theorem legible_config (h : q.now.HasFourDigitYear) : Record.Legible q.config := by
  apply (Record.legible_iff .config q.config).2
  show ∀ t ∈ [q.now, q.now], t.HasFourDigitYear
  simpa using h

end Submission

/-! ## Registering one entry -/

namespace Vault

variable {v : Vault Config} {s : Store} {q : Submission} {stored : List Config}

theorem run_register_invalid (h : ¬ q.Accepted) :
    ∃ e, (v.register q.now q.props).run s = (.error (.validation e), s) := by
  cases hc : Properties.create q.props q.now with
  | error e => exact ⟨e, run_bind_error (by rw [run_lift, hc]; rfl)⟩
  | ok c =>
    obtain ⟨-, rfl⟩ := Submission.create_eq_ok.1 hc
    cases hvalid : Record.validate q.config with
    | error e =>
      refine ⟨e, (run_bind_ok (by rw [run_lift, hc]; rfl)).trans (run_create_invalid hvalid)⟩
    | ok u => exact absurd (Submission.validate_config.1 hvalid) h

/-- The registration of an accepted entry is the creation of the configuration built from it. -/
theorem run_register_of_accepted (h : q.Accepted) :
    (v.register q.now q.props).run s = (v.create q.config).run s :=
  run_bind_ok (by rw [run_lift, Submission.create_eq_ok.2 ⟨h.complete, rfl⟩]; rfl)

variable (hs : s.available = true) (hstored : Reads (s.documents v.collection) stored)
include hs hstored

theorem run_register_taken (h : q.Accepted) (hmem : q.id ∈ stored.map Config.id) :
    (v.register q.now q.props).run s = (.error (v.taken q.id), s) := by
  obtain ⟨-, hfresh⟩ | ⟨-, -, d, -, -, hd⟩ := hstored.stores.holding?_cases q.id
  · exact absurd hmem hfresh
  · rw [run_register_of_accepted h]
    exact run_create_taken hs (Submission.validate_config.2 h) hd

/-- An accepted entry under a new identifier is stored last, where it can be read. -/
theorem run_register (h : q.Accepted) (hnow : q.now.HasFourDigitYear)
    (hfresh : q.id ∉ stored.map Config.id) :
    ∃ s', (v.register q.now q.props).run s = (.ok q.config, s') ∧ s'.available = true ∧
      Reads (s'.documents v.collection) (stored ++ [q.config]) := by
  obtain ⟨hnone, -⟩ | ⟨c, hc, -, hid, -⟩ := hstored.stores.holding?_cases q.id
  · obtain ⟨d, hd⟩ := Record.exists_toDocument q.config
    have hread : decode d = .ok q.config :=
      ((Record.ofDocument_answers hd).mapError VaultError.mapping).eq_ok
        (Submission.legible_config hnow)
    refine ⟨s.withDocuments v.collection (s.documents v.collection ++ [d]), ?_, hs, ?_⟩
    · rw [run_register_of_accepted h]
      exact run_create hs (Submission.validate_config.2 h) hd hnone
    · rw [documents_withDocuments_self]
      exact List.rel_append hstored (.cons ⟨hd, hread⟩ .nil)
  · exact absurd (hid ▸ List.mem_map_of_mem hc) hfresh

end Vault

/-! ## Registering all -/

/-- Entries all of which go through after those with the given identifiers. -/
structure Admissible (earlier : List RecordId) (given : List Submission) : Prop where
  accepted : ∀ q ∈ given, q.Accepted
  distinct : (earlier ++ given.map Submission.id).Nodup

theorem Admissible.cons {earlier : List RecordId} {q : Submission} {rest : List Submission}
    (hq : q.Accepted) (h : Admissible (earlier ++ [q.id]) rest) :
    Admissible earlier (q :: rest) where
  accepted := List.forall_mem_cons.2 ⟨hq, h.accepted⟩
  distinct := by
    have hdistinct := h.distinct
    rwa [List.append_assoc] at hdistinct

namespace Registry

variable {r : Registry} {s s' : Store} {stored : List Config} {q : Submission}

theorem run_registerAll_cons_ok {c : Config}
    (h : (r.configs.register q.now q.props).run s = (.ok c, s')) (rest : List Submission) :
    (r.registerAll (q :: rest)).run s = (r.registerAll rest).run s' := by
  refine (run_bind (r.configs.register q.now q.props) _ s).trans ?_
  rw [show Program.run (r.configs.register q.now q.props) s = (.ok c, s') from h]

theorem run_registerAll_cons_error {e : VaultError}
    (h : (r.configs.register q.now q.props).run s = (.error e, s')) (rest : List Submission) :
    (r.registerAll (q :: rest)).run s = (.error (q.refused e), s') := by
  refine (run_bind (r.configs.register q.now q.props) _ s).trans ?_
  rw [show Program.run (r.configs.register q.now q.props) s = (.error e, s') from h]
  rfl

/-- **Registering entries** ends with the fault of the first that does not go through, or with the
configurations of all stored after those that were there. -/
theorem run_registerAll {given : List Submission} (hs : s.available = true)
    (hstored : Reads (s.documents r.configs.collection) stored)
    (hids : (stored.map Config.id).Nodup) (hclock : ∀ q ∈ given, q.now.HasFourDigitYear) :
    (Admissible (stored.map Config.id) given ∧ ∃ s', (r.registerAll given).run s = (.ok (), s') ∧
      s'.available = true ∧
      Reads (s'.documents r.configs.collection) (stored ++ given.map Submission.config)) ∨
    ∃ front q back cause, given = front ++ q :: back ∧
      Admissible (stored.map Config.id) front ∧
      q.Fault r.configs (stored.map Config.id ++ front.map Submission.id) cause ∧
      ((r.registerAll given).run s).1 = .error (q.refused cause) := by
  induction given generalizing s stored with
  | nil =>
    refine .inl ⟨⟨List.forall_mem_nil _, by simpa using hids⟩, s, rfl, hs, ?_⟩
    simpa using hstored
  | cons q rest ih =>
    obtain ⟨hnow, hclock⟩ := List.forall_mem_cons.1 hclock
    have hfirst : Admissible (stored.map Config.id) [] :=
      ⟨List.forall_mem_nil _, by simpa using hids⟩
    by_cases hq : q.Accepted
    · by_cases hmem : q.id ∈ stored.map Config.id
      · have hrun := run_registerAll_cons_error (Vault.run_register_taken hs hstored hq hmem) rest
        exact .inr ⟨[], q, rest, _, rfl, hfirst, .repeated hq (by simpa using hmem),
          congrArg Prod.fst hrun⟩
      · obtain ⟨s', hrun, hs', hstored'⟩ := Vault.run_register hs hstored hq hnow hmem
        have hmap : (stored ++ [q.config]).map Config.id = stored.map Config.id ++ [q.id] :=
          List.map_append
        have hids' : ((stored ++ [q.config]).map Config.id).Nodup := by
          rw [hmap]
          exact List.nodup_append.2 ⟨hids, List.nodup_singleton _, by simpa using hmem⟩
        rw [run_registerAll_cons_ok hrun rest]
        obtain ⟨hrest, s'', hrun', hs'', hread⟩ |
            ⟨front, q', back, cause, rfl, hfront, hfault, he⟩ :=
          ih hs' hstored' hids' hclock
        · rw [hmap] at hrest
          rw [List.append_assoc] at hread
          exact .inl ⟨hrest.cons hq, s'', hrun', hs'', hread⟩
        · rw [hmap] at hfront hfault
          rw [List.append_assoc] at hfault
          exact .inr ⟨q :: front, q', back, cause, rfl, hfront.cons hq, hfault, he⟩
    · obtain ⟨e, hrun⟩ := Vault.run_register_invalid (v := r.configs) (s := s) hq
      exact .inr ⟨[], q, rest, _, rfl, hfirst, .invalid e hq,
        congrArg Prod.fst (run_registerAll_cons_error hrun rest)⟩

/-! ## The answer -/

variable {given : List Submission} {service source : String}

theorem run_dependentsAmong_ok {hits : List Config}
    (h : (r.registerAll given).run s = (.ok (), s'))
    (hhits : (r.configs.dependents service source).run s' = (.ok hits, s')) :
    ((r.dependentsAmong given service source).run s).1 = .ok hits := by
  rw [dependentsAmong, run_bind, h]
  refine (congrArg Prod.fst (run_bind (r.configs.dependents service source) _ s')).trans ?_
  rw [show Program.run (r.configs.dependents service source) s' = (.ok hits, s') from hhits]
  rfl

theorem run_dependentsAmong_error {e : DependentsError}
    (h : ((r.registerAll given).run s).1 = .error e) :
    ((r.dependentsAmong given service source).run s).1 = .error e := by
  rw [dependentsAmong, run_bind, h]
  rfl

end Registry

/-- The configurations built from the entries that depend on the outputs of a job. -/
def Submission.dependents (given : List Submission) (service source : String) : List Config :=
  (given.filter fun q => ⟨service, source⟩ ∈ q.props.dependsOn).map config

theorem Submission.dependents_eq (given : List Submission) (service source : String) :
    ((given.map config).filter fun c =>
      ∃ d ∈ c.dependsOn, d.service = service ∧ d.source = source) =
        dependents given service source := by
  rw [List.filter_map, dependents]
  congr 1
  apply List.filter_congr
  intro q _
  apply decide_eq_decide.2
  constructor
  · rintro ⟨d, hd, rfl, rfl⟩
    exact hd
  · intro h
    exact ⟨_, h, rfl, rfl⟩

/-- Configurations built from entries that all go through are all different. -/
theorem Admissible.nodup_dependents {given : List Submission} (h : Admissible [] given)
    (service source : String) : (Submission.dependents given service source).Nodup := by
  have hsub : ((Submission.dependents given service source).map Config.id).Sublist
      (given.map Submission.id) := by
    rw [Submission.dependents, List.map_map]
    exact List.filter_sublist.map _
  exact List.Nodup.of_map _ (h.distinct.sublist hsub)

/-- Either all entries go through, or one of them is the first that does not. -/
theorem dependents_cases (settings : Settings) {given : List Submission} (service source : String)
    (hclock : ∀ q ∈ given, q.now.HasFourDigitYear) :
    (Admissible [] given ∧ dependents settings given service source =
      .ok (Submission.dependents given service source)) ∨
    ∃ front q back cause, given = front ++ q :: back ∧ Admissible [] front ∧
      q.Fault (Registry.ofSettings settings).configs (front.map Submission.id) cause ∧
      dependents settings given service source = .error (q.refused cause) := by
  let r := Registry.ofSettings settings
  have hempty : Reads (Store.empty.documents r.configs.collection) ([] : List Config) := .nil
  obtain ⟨hgiven, s, hall, hs, hread⟩ | ⟨front, q, back, cause, hsplit, hfront, hfault, he⟩ :=
    Registry.run_registerAll rfl hempty List.nodup_nil hclock
  · have hhits := (Vault.selectsConfigs hs hread).dependents service source
    rw [List.nil_append, Submission.dependents_eq] at hhits
    exact .inl ⟨hgiven, Registry.run_dependentsAmong_ok hall hhits⟩
  · exact .inr ⟨front, q, back, cause, hsplit, hfront, hfault,
      Registry.run_dependentsAmong_error he⟩

/-- Entries of which one does not go through are not all accepted under different identifiers. -/
theorem Submission.Fault.not_admissible {v : Vault Config} {front back : List Submission}
    {q : Submission} {cause : VaultError} (h : q.Fault v (front.map Submission.id) cause) :
    ¬ Admissible [] (front ++ q :: back) := by
  intro hgiven
  cases h with
  | invalid e hq =>
    exact hq (hgiven.accepted q (List.mem_append_right _ List.mem_cons_self))
  | repeated _ hmem =>
    have hdistinct := hgiven.distinct
    rw [List.nil_append, List.map_append, List.map_cons] at hdistinct
    exact (List.nodup_append.1 hdistinct).2.2 _ hmem _ List.mem_cons_self rfl

theorem admissible_nil_iff {given : List Submission} : Admissible [] given ↔
    (∀ q ∈ given, q.Accepted) ∧ (given.map Submission.id).Nodup :=
  ⟨fun h => ⟨h.accepted, h.distinct⟩, fun h => ⟨h.1, h.2⟩⟩

/-- **The dependents among given configurations.** There is an answer if every entry is accepted and
no two have one identifier, whatever the settings are; it lists the configurations built from the
entries that have the given dependency, each once and in the order of the entries. Otherwise the
first entry that is not accepted, or that has the identifier of an earlier one, is refused by the
name of its job. An entry is accepted if none of its required texts is blank, unless a text is
hashed to the null identifier. -/
theorem dependents_exact (settings : Settings) (given : List Submission) (service source : String)
    (hclock : ∀ q ∈ given, q.now.HasFourDigitYear) :
    ((∃ hits, dependents settings given service source = .ok hits) ↔
      (∀ q ∈ given, q.Accepted) ∧ (given.map Submission.id).Nodup) ∧
    (∀ hits, dependents settings given service source = .ok hits →
      hits = (given.filter fun q => ⟨service, source⟩ ∈ q.props.dependsOn).map Submission.config ∧
      hits.Nodup ∧ ∀ q ∈ given, Properties.create q.props q.now = .ok q.config) ∧
    (∀ e, dependents settings given service source = .error e →
      ∃ front q back cause, given = front ++ q :: back ∧
        (∀ x ∈ front, x.Accepted) ∧ (front.map Submission.id).Nodup ∧
        q.Fault (Registry.ofSettings settings).configs (front.map Submission.id) cause ∧
        e = q.refused cause ∧ e.message = "failed to register " ++ q.props.service ++ "/" ++
          q.props.source ++ "/" ++ q.props.provider) ∧
    ∀ q ∈ given, NullFree (Record.hashedTexts q.draft) → (q.Accepted ↔ q.props.Complete) := by
  obtain ⟨hgiven, hout⟩ | ⟨front, q, back, cause, rfl, hfront, hfault, hout⟩ :=
    dependents_cases settings service source hclock
  · rw [hout]
    refine ⟨iff_of_true ⟨_, rfl⟩ (admissible_nil_iff.1 hgiven), ?_, nofun,
      fun q _ => Submission.accepted_iff⟩
    rintro _ ⟨⟩
    exact ⟨rfl, hgiven.nodup_dependents service source, fun q hq =>
      Submission.create_eq_ok.2 ⟨(hgiven.accepted q hq).complete, rfl⟩⟩
  · rw [hout]
    refine ⟨iff_of_false nofun fun h => hfault.not_admissible (admissible_nil_iff.2 h), nofun, ?_,
      fun q _ => Submission.accepted_iff⟩
    rintro _ ⟨⟩
    exact ⟨front, q, back, cause, rfl, hfront.accepted, hfront.distinct, hfault, rfl, rfl⟩

/-- One configuration is listed for a job on whose outputs it depends, and refused when it is given
twice. -/
theorem dependents_exact_specimen :
    let q : Submission := ⟨.lastLegible, ReadableProperties.ofRecord (Config.specimen .lastLegible)⟩
    dependents .standard [q] "mail" "inbox" = .ok [Config.specimen .lastLegible] ∧
      ∃ cause, dependents .standard [q, q] "mail" "inbox" = .error (q.refused cause) := by
  intro q
  have hq : q.Accepted := Submission.validate_config.1 (Config.validate_specimen _)
  have hclock : ∀ x ∈ [q, q], x.now.HasFourDigitYear := by decide
  obtain ⟨hone, hlist, -⟩ := dependents_exact .standard [q] "mail" "inbox" (by decide)
  obtain ⟨htwo, -, hrefused, -⟩ := dependents_exact .standard [q, q] "mail" "inbox" hclock
  constructor
  · obtain ⟨hits, hhits⟩ := hone.2 ⟨by simpa using hq, List.nodup_singleton _⟩
    obtain ⟨rfl, -⟩ := hlist hits hhits
    exact hhits
  · cases hout : dependents .standard [q, q] "mail" "inbox" with
    | ok hits =>
      have hdistinct := (htwo.1 ⟨hits, hout⟩).2
      simp at hdistinct
    | error e =>
      obtain ⟨front, x, back, cause, hsplit, -, -, -, rfl, -⟩ := hrefused e hout
      have hx : x ∈ [q, q] := by
        rw [hsplit]
        exact List.mem_append_right _ List.mem_cons_self
      obtain rfl : x = q := by simpa using hx
      exact ⟨cause, rfl⟩

end JobRegistry
