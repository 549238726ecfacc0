import JobRegistry.Proofs.Settings.Soundness
import JobRegistry.Proofs.Vault.Interleaving
import JobRegistry.Proofs.Vault.Selection
import JobRegistry.Registry

/-!
# What queries answer

In every state in which a store can be while the vaults of a registry work on it, a query answers
the records with the property it asks for, among those and in the order in which the search for all
records answers them; a query for one record answers the first of these (`queries_exact`). The
vaults must not share collections, which sound settings see to (`Registry.exists_follows`).
-/

namespace JobRegistry

/-! ## Registries -/

namespace Registry

/-- The collections of the four vaults are for their kinds of records. -/
structure Follows (r : Registry) (g : Division) : Prop where
  configs : g r.configs.collection = .config
  outputs : g r.outputs.collection = .output
  schemas : g r.schemas.collection = .schema
  inputs : g r.inputs.collection = .input

end Registry

/-- Sound settings give every vault a collection of its own. -/
theorem Registry.exists_follows {s : Settings} (h : s.fault? = none) :
    ∃ g, (Registry.ofSettings s).Follows g := by
  have hnodup := (Settings.fault?_eq_none.1 h).apart
  simp only [CollectionNames.all, List.nodup_cons, List.mem_cons, List.not_mem_nil, or_false,
    not_or] at hnodup
  obtain ⟨⟨hco, hcs, hci⟩, ⟨hos, hoi⟩, hsi, -⟩ := hnodup
  let g : Division := fun c =>
    if c = s.collections.configs then .config
    else if c = s.collections.outputs then .output
    else if c = s.collections.schemas then .schema
    else .input
  refine ⟨g, if_pos rfl, ?_, ?_, ?_⟩
  · exact (if_neg (Ne.symm hco)).trans (if_pos rfl)
  · exact (if_neg (Ne.symm hcs)).trans ((if_neg (Ne.symm hos)).trans (if_pos rfl))
  · exact (if_neg (Ne.symm hci)).trans ((if_neg (Ne.symm hoi)).trans (if_neg (Ne.symm hsi)))

/-! ## The queries of each vault -/

namespace Vault

/-- The queries on configurations select from all of them. -/
structure SelectsConfigs (v : Vault Config) (s : Store) (all : List Config) : Prop where
  configsByServiceProvider : ∀ service provider,
    (v.configsByServiceProvider service provider).run s =
      (.ok (all.filter fun c => c.service = service ∧ c.provider = provider), s)
  configsBySourceProvider : ∀ source provider,
    (v.configsBySourceProvider source provider).run s =
      (.ok (all.filter fun c => c.source = source ∧ c.provider = provider), s)
  configByJob : ∀ service source provider,
    (v.configByJob service source provider).run s =
      (.ok (all.filter fun c =>
        c.service = service ∧ c.source = source ∧ c.provider = provider).head?, s)
  configByJobActive : ∀ service source provider active,
    (v.configByJobActive service source provider active).run s =
      (.ok (all.filter fun c => c.service = service ∧ c.source = source ∧
        c.provider = provider ∧ c.active = active).head?, s)
  /-- The service and the source are those of one dependency. -/
  dependents : ∀ service source,
    (v.dependents service source).run s =
      (.ok (all.filter fun c => ∃ d ∈ c.dependsOn, d.service = service ∧ d.source = source), s)

/-- The queries on outputs select from all of them. -/
structure SelectsOutputs (v : Vault Output) (s : Store) (all : List Output) : Prop where
  byJob : ∀ service source provider,
    (v.byJob service source provider).run s =
      (.ok (all.filter fun o =>
        o.service = service ∧ o.source = source ∧ o.provider = provider), s)
  outputsByConfigVersion : ∀ versionId,
    (v.outputsByConfigVersion versionId).run s =
      (.ok (all.filter fun o => o.configVersionId = versionId), s)
  outputByInput : ∀ service source provider inputId,
    (v.outputByInput service source provider inputId).run s =
      (.ok (all.filter fun o => o.service = service ∧ o.source = source ∧
        o.provider = provider ∧ o.metadata.inputId = inputId).head?, s)

/-- The queries on schemas select from all of them. -/
structure SelectsSchemas (v : Vault Schema) (s : Store) (all : List Schema) : Prop where
  byJob : ∀ service source provider,
    (v.byJob service source provider).run s =
      (.ok (all.filter fun t =>
        t.service = service ∧ t.source = source ∧ t.provider = provider), s)
  schemaByType : ∀ service source provider side,
    (v.schemaByType service source provider side).run s =
      (.ok (all.filter fun t => t.service = service ∧ t.source = source ∧
        t.provider = provider ∧ t.schemaType = side).head?, s)

/-- The query on inputs selects from all of them. -/
structure SelectsInputs (v : Vault Input) (s : Store) (all : List Input) : Prop where
  byJob : ∀ service source provider,
    (v.byJob service source provider).run s =
      (.ok (all.filter fun i =>
        i.service = service ∧ i.source = source ∧ i.provider = provider), s)

section

open JobRegistry.Filter

variable {s : Store} (hs : s.available = true)
include hs

theorem selectsConfigs {v : Vault Config} {all : List Config}
    (h : Reads (s.documents v.collection) all) : v.SelectsConfigs s all where
  configsByServiceProvider service provider := by
    apply run_find_of_reads hs h
    exact (selects_eqText Config.keepsJob.service service).and
      (selects_eqText Config.keepsJob.provider provider)
  configsBySourceProvider source provider := by
    apply run_find_of_reads hs h
    exact (selects_eqText Config.keepsJob.source source).and
      (selects_eqText Config.keepsJob.provider provider)
  configByJob service source provider := by
    apply run_findFirst_of_reads hs h
    exact selects_byJob Config.keepsJob service source provider
  configByJobActive service source provider active := by
    apply run_findFirst_of_reads hs h
    exact selects_byJob_and Config.keepsJob (selects_eqBool Config.keptAt_active active)
      service source provider
  dependents service source := by
    apply run_find_of_reads hs h
    exact selects_dependsOn service source

theorem selectsOutputs {v : Vault Output} {all : List Output}
    (h : Reads (s.documents v.collection) all) : v.SelectsOutputs s all where
  byJob service source provider := by
    apply run_find_of_reads hs h
    exact selects_byJob Output.keepsJob service source provider
  outputsByConfigVersion versionId := by
    apply run_find_of_reads hs h
    exact selects_configVersionId versionId
  outputByInput service source provider inputId := by
    apply run_findFirst_of_reads hs h
    exact selects_byJob_and Output.keepsJob (selects_inputId inputId) service source provider

theorem selectsSchemas {v : Vault Schema} {all : List Schema}
    (h : Reads (s.documents v.collection) all) : v.SelectsSchemas s all where
  byJob service source provider := by
    apply run_find_of_reads hs h
    exact selects_byJob Schema.keepsJob service source provider
  schemaByType service source provider side := by
    apply run_findFirst_of_reads hs h
    exact selects_byJob_and Schema.keepsJob (selects_schemaType side) service source provider

theorem selectsInputs {v : Vault Input} {all : List Input}
    (h : Reads (s.documents v.collection) all) : v.SelectsInputs s all where
  byJob service source provider := by
    apply run_find_of_reads hs h
    exact selects_byJob Input.keepsJob service source provider

end

end Vault

/-! ## The queries of a registry -/

namespace Registry

open Vault

variable {g : Division} {r : Registry} {running : List (Program Unit)} {s : Store}

theorem Follows.sound (hr : r.Follows g) (h : g.Sound s) :
    Sound Config (s.documents r.configs.collection) ∧
      Sound Output (s.documents r.outputs.collection) ∧
      Sound Schema (s.documents r.schemas.collection) ∧
      Sound Input (s.documents r.inputs.collection) := by
  have hconfigs := h r.configs.collection
  have houtputs := h r.outputs.collection
  have hschemas := h r.schemas.collection
  have hinputs := h r.inputs.collection
  rw [hr.configs] at hconfigs
  rw [hr.outputs] at houtputs
  rw [hr.schemas] at hschemas
  rw [hr.inputs] at hinputs
  exact ⟨hconfigs, houtputs, hschemas, hinputs⟩

/-- **Queries are exact.** While requests to the vaults of a registry run, be it one at a time or
mixed, every query on a vault whose records can all be read answers just those it asks for. -/
theorem queries_exact (hr : r.Follows g) (h : g.Reachable running s) :
    (∀ all, (r.configs.findAll.run s).1 = .ok all → r.configs.SelectsConfigs s all) ∧
    (∀ all, (r.outputs.findAll.run s).1 = .ok all → r.outputs.SelectsOutputs s all) ∧
    (∀ all, (r.schemas.findAll.run s).1 = .ok all → r.schemas.SelectsSchemas s all) ∧
    (∀ all, (r.inputs.findAll.run s).1 = .ok all → r.inputs.SelectsInputs s all) := by
  obtain ⟨hconfigs, houtputs, hschemas, hinputs⟩ := hr.sound h.sound
  refine ⟨fun all hall => ?_, fun all hall => ?_, fun all hall => ?_, fun all hall => ?_⟩
  · obtain ⟨hs, hreads⟩ := reads_of_findAll hconfigs hall
    exact selectsConfigs hs hreads
  · obtain ⟨hs, hreads⟩ := reads_of_findAll houtputs hall
    exact selectsOutputs hs hreads
  · obtain ⟨hs, hreads⟩ := reads_of_findAll hschemas hall
    exact selectsSchemas hs hreads
  · obtain ⟨hs, hreads⟩ := reads_of_findAll hinputs hall
    exact selectsInputs hs hreads

/-- A registry in which one configuration was just created. -/
theorem reachable_specimen (hr : r.Follows g) {t : Timestamp} {d : Document}
    (hd : Record.toDocument (Config.specimen t) = .ok d) :
    ∃ running, g.Reachable running (Store.empty.withDocuments r.configs.collection [d]) := by
  have hrun := run_create (v := r.configs) (s := Store.empty) rfl (Config.validate_specimen t) hd
    rfl
  exact ⟨_, Division.Reachable.start.run hr.configs (q := .create (Config.specimen t)) hrun⟩

theorem decode_specimen {t : Timestamp} (ht : t.HasFourDigitYear) {d : Document}
    (hd : Record.toDocument (Config.specimen t) = .ok d) : decode d = .ok (Config.specimen t) := by
  have hlegible : Record.Legible (Config.specimen t) := by
    apply (Record.legible_iff .config (Config.specimen t)).2
    show ∀ u ∈ [t, t], u.HasFourDigitYear
    simpa using ht
  exact ((Record.ofDocument_answers hd).mapError VaultError.mapping).eq_ok hlegible

theorem run_findAll_specimen {t : Timestamp} (ht : t.HasFourDigitYear) {d : Document}
    (hd : Record.toDocument (Config.specimen t) = .ok d) :
    (r.configs.findAll.run (Store.empty.withDocuments r.configs.collection [d])).1 =
      .ok [Config.specimen t] := by
  rw [run_findAll rfl, Store.documents_withDocuments_self, decodeAll, decode_specimen ht hd]
  rfl

/-- One configuration that depends on the users of `auth` and on the inbox of `mail`: it is among
the dependents of either, and not among those of the inbox of `auth`. -/
theorem queries_exact_specimen :
    let r := Registry.ofSettings .standard
    let c := Config.specimen .lastLegible
    ∃ g running s, r.Follows g ∧ g.Reachable running s ∧
      (r.configs.findAll.run s).1 = .ok [c] ∧
      (r.configs.dependents "mail" "inbox").run s = (.ok [c], s) ∧
      (r.configs.dependents "auth" "inbox").run s = (.ok [], s) := by
  intro r c
  obtain ⟨g, hr⟩ := exists_follows (s := .standard) (by decide)
  obtain ⟨d, hd⟩ := Record.exists_toDocument c
  obtain ⟨running, hreach⟩ := reachable_specimen hr hd
  have hall := run_findAll_specimen (r := r) (by decide) hd
  have hexact := (queries_exact hr hreach).1 [c] hall
  exact ⟨g, running, _, hr, hreach, hall, hexact.dependents "mail" "inbox",
    hexact.dependents "auth" "inbox"⟩

end Registry

end JobRegistry
