import JobRegistry.Proofs.Record.Constructible
import JobRegistry.Proofs.Vault.Queries

/-!
# Natural keys

No field of a natural key is ever compared when a record is stored; only its identifier is. But the
identifier of a valid record is derived from its natural key, so no two stored records have the same
natural key, and the search for the fields of a key finds the same record as the search for the
identifier derived from it (`natural_keys`). The latter needs that no two of the texts that are
hashed collide (`CollisionFree`): a stored record under the identifier of another key would be found
by its identifier only.
-/

namespace JobRegistry

/-! ## Keys made of their fields -/

/-- The natural key of the configuration of a job. -/
def Config.key (service source provider : String) : Canonical :=
  .ofEntries [("service", .text service), ("source", .text source), ("provider", .text provider)]

/-- The natural key of the output that a job made of an input. -/
def Output.key (service source provider : String) (inputId : RecordId) : Canonical :=
  .ofEntries [("service", .text service), ("source", .text source), ("provider", .text provider),
    ("inputId", .ofId inputId)]

/-- The natural key of the schema of one side of a job. -/
def Schema.key (service source provider : String) (side : SchemaType) : Canonical :=
  .ofEntries [("service", .text service), ("source", .text source), ("provider", .text provider),
    ("schemaType", .text side.name)]

theorem Config.naturalKey_eq_key (c : Config) (service source provider : String) :
    c.naturalKey = key service source provider ↔
      c.service = service ∧ c.source = source ∧ c.provider = provider :=
  @naturalKey_inj c { c with service, source, provider }

theorem Output.naturalKey_eq_key (o : Output) (service source provider : String)
    (inputId : RecordId) :
    o.naturalKey = key service source provider inputId ↔ o.service = service ∧
      o.source = source ∧ o.provider = provider ∧ o.metadata.inputId = inputId :=
  @naturalKey_inj o { o with service, source, provider, metadata := { o.metadata with inputId } }

theorem Schema.naturalKey_eq_key (s : Schema) (service source provider : String)
    (side : SchemaType) :
    s.naturalKey = key service source provider side ↔ s.service = service ∧
      s.source = source ∧ s.provider = provider ∧ s.schemaType = side :=
  @naturalKey_inj s { s with service, source, provider, schemaType := side }

/-! ## Records with different identifiers -/

section

variable {R : Type} [Record R] {docs : List Document} {rs : List R}

namespace Record

/-- The identifier that a natural key gives. -/
def idOfKey (R : Type) [Record R] (key : Canonical) : RecordId :=
  Purpose.identity.derive (kind R).name key

/-- The text that is hashed for the identifier of a natural key. -/
def textOfKey (R : Type) [Record R] (key : Canonical) : String :=
  Purpose.identity.hashText (kind R).name key

/-- The identifier of a natural key is the digest of its text. -/
theorem bytes_idOfKey (key : Canonical) :
    (idOfKey R key).bytes = Blake3.digest (textOfKey R key).toUTF8.toList :=
  Purpose.bytes_derive ..

theorem derivedId_of_naturalKey {r : R} {key : Canonical} (h : naturalKey r = key) :
    derivedId r = idOfKey R key := by
  rw [derivedId, h, idOfKey]

/-- Among records whose texts do not collide with that of a key, the identifier of the key belongs
to records with that key only. -/
theorem derivedId_eq_idOfKey {key : Canonical}
    (h : CollisionFree (textOfKey R key :: rs.map keyText)) {r : R} (hr : r ∈ rs) :
    derivedId r = idOfKey R key ↔ naturalKey r = key := by
  constructor
  · intro heq
    have htext : keyText r = textOfKey R key := by
      apply h _ (List.mem_cons_of_mem _ (List.mem_map_of_mem hr)) _ List.mem_cons_self
      rw [← bytes_derivedId, ← bytes_idOfKey, heq]
    exact (Purpose.hashText_inj ..).1 htext
  · exact derivedId_of_naturalKey

/-- At most one of some valid records with different identifiers has a given natural key. -/
theorem length_filter_key_le_one (hvalid : ∀ r ∈ rs, validate r = .ok ())
    (hids : (rs.map id).Nodup) {key : Canonical} {p : R → Prop} [DecidablePred p]
    (hp : ∀ r, naturalKey r = key ↔ p r) : (rs.filter fun r => p r).length ≤ 1 := by
  have hsame : ∀ r ∈ rs.filter fun r => p r, id r = idOfKey R key := by
    intro r hr
    obtain ⟨hr, hpr⟩ := List.mem_filter.1 hr
    rw [← derivedId_eq_id (hvalid r hr)]
    exact derivedId_of_naturalKey ((hp r).2 (of_decide_eq_true hpr))
  have hnodup : ((rs.filter fun r => p r).map id).Nodup :=
    hids.sublist (List.filter_sublist.map id)
  rw [List.map_congr_left hsame, List.map_const', List.nodup_replicate] at hnodup
  exact hnodup

end Record

namespace Reads

theorem mem_docs (h : Reads docs rs) {r : R} (hr : r ∈ rs) :
    ∃ d ∈ docs, Record.toDocument r = .ok d ∧ Vault.decode d = .ok r := by
  induction h with
  | nil => cases hr
  | @cons d r' docs rs hd _ ih =>
    obtain rfl | hr := List.mem_cons.1 hr
    · exact ⟨d, List.mem_cons_self, hd⟩
    · obtain ⟨d', hd', h'⟩ := ih hr
      exact ⟨d', List.mem_cons_of_mem d hd', h'⟩

variable [LawfulRecord R]

theorem valid (h : Reads docs rs) (hsound : Sound R docs) :
    ∀ r ∈ rs, Record.validate r = .ok () := by
  intro r hr
  obtain ⟨d, hd, -, hdec⟩ := h.mem_docs hr
  obtain ⟨r₀, hr₀, hvalid⟩ := hsound.records d hd
  rwa [Vault.eq_of_decode hr₀ hdec]

end Reads

namespace Vault

/-- A query for one record answers, finds what the search for an identifier finds, and finds nothing
when that search does. -/
structure Agrees (v : Vault R) (s : Store) (query : Operation (Option R)) (id : RecordId) :
    Prop where
  answers : ∃ found, (query.run s).1 = .ok found
  found : ∀ r, (query.run s).1 = .ok (some r) ↔ ((v.findById id).run s).1 = .ok r
  missing : (query.run s).1 = .ok none ↔ ((v.findById id).run s).1 = .error (v.missing id)

variable [LawfulRecord R] {v : Vault R} {s : Store}

theorem run_findById_of_reads (hs : s.available = true) (h : Reads (s.documents v.collection) rs)
    (id : RecordId) : ((v.findById id).run s).1 =
      match (rs.filter fun r => Record.id r = id).head? with
      | none => .error (v.missing id)
      | some r => .ok r := by
  have hfirst := run_findFirst_of_reads hs h (Filter.selects_byId (R := R) id)
  rw [findById, Operation.run_bind_ok hfirst]
  cases (rs.filter fun r => Record.id r = id).head? <;> rfl

/-- Where a key is only that of its own records, the query for its fields agrees with the search for
its identifier. -/
theorem agrees (hs : s.available = true) (h : Reads (s.documents v.collection) rs)
    (hsound : Sound R (s.documents v.collection)) {key : Canonical}
    (hfree : CollisionFree (Record.textOfKey R key :: rs.map Record.keyText)) {p : R → Prop}
    [DecidablePred p] (hp : ∀ r, Record.naturalKey r = key ↔ p r) {query : Operation (Option R)}
    (hquery : query.run s = (.ok (rs.filter fun r => p r).head?, s)) :
    v.Agrees s query (Record.idOfKey R key) := by
  have hfilter : (rs.filter fun r => Record.id r = Record.idOfKey R key) =
      rs.filter fun r => p r := by
    apply List.filter_congr
    intro r hr
    apply decide_eq_decide.2
    rw [← Record.derivedId_eq_id (h.valid hsound r hr)]
    exact (Record.derivedId_eq_idOfKey hfree hr).trans (hp r)
  have hid := run_findById_of_reads hs h (Record.idOfKey R key)
  rw [hfilter] at hid
  constructor
  · exact ⟨_, congrArg Prod.fst hquery⟩
  · intro r
    rw [hquery, hid]
    cases (rs.filter fun r => p r).head? <;> simp
  · rw [hquery, hid]
    cases (rs.filter fun r => p r).head? <;> simp

/-- Legible documents can all be read. -/
theorem exists_reads (hs : s.available = true) (hsound : Sound R (s.documents v.collection))
    (hlegible : ∀ d ∈ s.documents v.collection, ∀ r : R,
      Record.toDocument r = .ok d → Record.Legible r) :
    ∃ rs, (v.findAll.run s).1 = .ok rs ∧ Reads (s.documents v.collection) rs := by
  obtain ⟨rs, hrs⟩ := decodeAll_eq_ok (R := R) fun d (hd : d ∈ s.documents v.collection) => by
    obtain ⟨r, hr, -⟩ := hsound.records d hd
    exact ⟨r, ((Record.ofDocument_answers hr).mapError VaultError.mapping).eq_ok
      (hlegible d hd r hr)⟩
  have hall : (v.findAll.run s).1 = .ok rs := by rw [run_findAll hs, hrs]
  exact ⟨rs, hall, (reads_of_findAll hsound hall).2⟩

end Vault

end

/-! ## The keys of a registry -/

namespace Division

variable {g : Division} {s : Store} {c : String} {k : RecordKind}

/-- The years of all stored timestamps have four digits. -/
def Legible (g : Division) (s : Store) : Prop :=
  ∀ c, ∀ d ∈ s.documents c, ∀ r : (g c).Carrier, Record.toDocument r = .ok d →
    ∀ t ∈ (g c).timestamps r, t.HasFourDigitYear

theorem Legible.at (h : g.Legible s) (hk : g c = k) :
    ∀ d ∈ s.documents c, ∀ r : k.Carrier, Record.toDocument r = .ok d → Record.Legible r := by
  subst hk
  intro d hd r hr
  exact (Record.legible_iff (g c) r).2 (h c d hd r hr)

theorem legible_empty : g.Legible Store.empty :=
  fun _ _ hd => absurd hd List.not_mem_nil

/-- Documents that can be read are legible. -/
theorem Legible.withDocuments (h : g.Legible s) (hk : g c = k) {docs : List Document}
    (hread : ∀ d ∈ docs, ∃ r : k.Carrier, Vault.decode d = .ok r) :
    g.Legible (s.withDocuments c docs) := by
  subst hk
  intro j d hd r hr
  by_cases hj : j = c
  · subst hj
    rw [Store.documents_withDocuments_self] at hd
    obtain ⟨r', hdec⟩ := hread d hd
    have hans := (Record.ofDocument_answers hr).mapError VaultError.mapping
    exact (Record.legible_iff (g j) r).1 (hans.of_eq_ok hdec).1
  · rw [Store.documents_withDocuments_of_ne s hj] at hd
    exact h j d hd r hr

end Division

namespace Registry

open Vault

variable {g : Division} {r : Registry} {running : List (Program Unit)} {s : Store}

/-- **Natural keys are unique, and both ways to look them up agree.** While requests to the vaults
of a registry run, no two configurations are of one job, no two outputs of one job and input, and no
two schemas of one side of a job. If the hashed texts of the keys do not collide, the query for the
fields of a key and the search for the identifier derived from it have the same outcome. -/
theorem natural_keys (hr : r.Follows g) (h : g.Reachable running s) (hs : s.available = true)
    (hlegible : g.Legible s) :
    (∃ all, (r.configs.findAll.run s).1 = .ok all ∧ ∀ service source provider,
      (all.filter fun c => c.service = service ∧ c.source = source ∧
        c.provider = provider).length ≤ 1 ∧
      let key := Config.key service source provider
      (CollisionFree (Record.textOfKey Config key :: all.map Record.keyText) →
        r.configs.Agrees s (r.configs.configByJob service source provider)
          (Record.idOfKey Config key))) ∧
    (∃ all, (r.outputs.findAll.run s).1 = .ok all ∧ ∀ service source provider inputId,
      (all.filter fun o => o.service = service ∧ o.source = source ∧
        o.provider = provider ∧ o.metadata.inputId = inputId).length ≤ 1 ∧
      let key := Output.key service source provider inputId
      (CollisionFree (Record.textOfKey Output key :: all.map Record.keyText) →
        r.outputs.Agrees s (r.outputs.outputByInput service source provider inputId)
          (Record.idOfKey Output key))) ∧
    ∃ all, (r.schemas.findAll.run s).1 = .ok all ∧ ∀ service source provider side,
      (all.filter fun t => t.service = service ∧ t.source = source ∧
        t.provider = provider ∧ t.schemaType = side).length ≤ 1 ∧
      let key := Schema.key service source provider side
      (CollisionFree (Record.textOfKey Schema key :: all.map Record.keyText) →
        r.schemas.Agrees s (r.schemas.schemaByType service source provider side)
          (Record.idOfKey Schema key)) := by
  obtain ⟨hconfigs, houtputs, hschemas, -⟩ := hr.sound h.sound
  refine ⟨?_, ?_, ?_⟩
  · obtain ⟨all, hall, hreads⟩ := exists_reads hs hconfigs (hlegible.at hr.configs)
    refine ⟨all, hall, fun service source provider => ?_⟩
    have hkey (c : Config) := c.naturalKey_eq_key service source provider
    refine ⟨?_, fun hfree => ?_⟩
    · exact Record.length_filter_key_le_one (hreads.valid hconfigs)
        (hreads.stores.nodup_ids hconfigs.unique) hkey
    · apply agrees hs hreads hconfigs hfree hkey
      exact (selectsConfigs hs hreads).configByJob service source provider
  · obtain ⟨all, hall, hreads⟩ := exists_reads hs houtputs (hlegible.at hr.outputs)
    refine ⟨all, hall, fun service source provider inputId => ?_⟩
    have hkey (o : Output) := o.naturalKey_eq_key service source provider inputId
    refine ⟨?_, fun hfree => ?_⟩
    · exact Record.length_filter_key_le_one (hreads.valid houtputs)
        (hreads.stores.nodup_ids houtputs.unique) hkey
    · apply agrees hs hreads houtputs hfree hkey
      exact (selectsOutputs hs hreads).outputByInput service source provider inputId
  · obtain ⟨all, hall, hreads⟩ := exists_reads hs hschemas (hlegible.at hr.schemas)
    refine ⟨all, hall, fun service source provider side => ?_⟩
    have hkey (t : Schema) := t.naturalKey_eq_key service source provider side
    refine ⟨?_, fun hfree => ?_⟩
    · exact Record.length_filter_key_le_one (hreads.valid hschemas)
        (hreads.stores.nodup_ids hschemas.unique) hkey
    · apply agrees hs hreads hschemas hfree hkey
      exact (selectsSchemas hs hreads).schemaByType service source provider side

/-! ### A registry of two configurations -/

open Record (bareConfig keyText textOfKey idOfKey)

theorem decode_bareConfig {service : String} {d : Document}
    (hd : Record.toDocument (R := Config) (bareConfig service) = .ok d) :
    decode (R := Config) d = .ok (bareConfig service) := by
  have hlegible : Record.Legible (bareConfig service) := by
    apply (Record.legible_iff .config (bareConfig service)).2
    show ∀ t ∈ [Timestamp.lastLegible, Timestamp.lastLegible], t.HasFourDigitYear
    decide
  exact ((Record.ofDocument_answers hd).mapError VaultError.mapping).eq_ok hlegible

/-- A registry in which two configurations were created. -/
theorem reachable_bareConfigs (hr : r.Follows g) : ∃ running s, g.Reachable running s ∧
    s.available = true ∧ g.Legible s ∧
      (r.configs.findAll.run s).1 = .ok [bareConfig "a", bareConfig "d"] := by
  obtain ⟨hvalid, hvalid'⟩ := Record.validate_bareConfig
  obtain ⟨d, hd⟩ := Record.exists_toDocument (R := Config) (bareConfig "a")
  obtain ⟨d', hd'⟩ := Record.exists_toDocument (R := Config) (bareConfig "d")
  let s := Store.empty.withDocuments r.configs.collection [d]
  have hdocs : s.documents r.configs.collection = [d] := Store.documents_withDocuments_self ..
  have honly : r.configs.HoldsOnly s (bareConfig "a") := ⟨rfl, d, hd, hdocs⟩
  have hcreate := run_create (v := r.configs) (s := Store.empty) rfl hvalid hd rfl
  have hcreate' := run_create (v := r.configs) (s := s) rfl hvalid' hd'
    (honly.fresh Record.id_bareConfig_ne)
  rw [hdocs, List.singleton_append] at hcreate'
  have hreach := (Division.Reachable.start.run hr.configs (q := .create (bareConfig "a"))
    hcreate).run hr.configs (q := .create (bareConfig "d")) hcreate'
  have hlegible : g.Legible (s.withDocuments r.configs.collection [d, d']) := by
    refine (Division.legible_empty.withDocuments hr.configs ?_).withDocuments hr.configs ?_ <;>
      simp only [List.mem_cons, List.not_mem_nil, or_false, forall_eq_or_imp, forall_eq]
    · exact ⟨_, decode_bareConfig hd⟩
    · exact ⟨⟨_, decode_bareConfig hd⟩, ⟨_, decode_bareConfig hd'⟩⟩
  refine ⟨_, _, hreach, rfl, hlegible, ?_⟩
  rw [run_findAll rfl, Store.documents_withDocuments_self, decodeAll, decodeAll,
    decode_bareConfig hd, decode_bareConfig hd']
  rfl

/-- A key that neither of them has does not collide with theirs. -/
theorem digestHead_absent : digestHead (textOfKey Config (Config.key "e" "b" "c")) = some 35 := by
  decide +kernel

/-- One of two configurations is found under its job and under the identifier of its key, and a
third one is missing under both. -/
theorem natural_keys_specimen :
    let r := Registry.ofSettings .standard
    let all : List Config := [bareConfig "a", bareConfig "d"]
    let stored := Config.key "d" "b" "c"
    let absent := Config.key "e" "b" "c"
    ∃ g running s, r.Follows g ∧ g.Reachable running s ∧ s.available = true ∧ g.Legible s ∧
      (r.configs.findAll.run s).1 = .ok all ∧
      CollisionFree (textOfKey Config stored :: all.map keyText) ∧
      CollisionFree (textOfKey Config absent :: all.map keyText) ∧
      ((r.configs.configByJob "d" "b" "c").run s).1 = .ok (some (bareConfig "d")) ∧
      ((r.configs.findById (idOfKey Config stored)).run s).1 = .ok (bareConfig "d") ∧
      ((r.configs.configByJob "e" "b" "c").run s).1 = .ok none ∧
      ((r.configs.findById (idOfKey Config absent)).run s).1 =
        .error (r.configs.missing (idOfKey Config absent)) := by
  intro r all stored absent
  obtain ⟨g, hr⟩ := exists_follows (s := .standard) (by decide)
  obtain ⟨running, s, hreach, hs, hlegible, hall⟩ := reachable_bareConfigs hr
  obtain ⟨all', hall', hkeys⟩ := (natural_keys hr hreach hs hlegible).1
  obtain rfl : all = all' := Except.ok.inj (hall.symm.trans hall')
  obtain ⟨hkey, hkey', -⟩ := Record.digestHead_bareConfig
  have hheads : (textOfKey Config absent :: all.map keyText).map digestHead =
      [some 35, some 128, some 19] := by
    rw [← digestHead_absent, ← hkey, ← hkey']
    rfl
  have hfree' : CollisionFree (textOfKey Config absent :: all.map keyText) :=
    .of_heads (by rw [hheads]; decide)
  have hmem : textOfKey Config stored ∈ all.map keyText :=
    List.mem_cons_of_mem _ List.mem_cons_self
  have hfree : CollisionFree (textOfKey Config stored :: all.map keyText) :=
    hfree'.mono (List.cons_subset.2 ⟨List.mem_cons_of_mem _ hmem, List.subset_cons_self ..⟩)
  have hstored := (hkeys "d" "b" "c").2 hfree
  have habsent := (hkeys "e" "b" "c").2 hfree'
  have hreads := (reads_of_findAll (hr.sound hreach.sound).1 hall).2
  have hfound : ((r.configs.configByJob "d" "b" "c").run s).1 = .ok (some (bareConfig "d")) := by
    rw [(selectsConfigs hs hreads).configByJob]
    rfl
  have hmissing : ((r.configs.configByJob "e" "b" "c").run s).1 = .ok none := by
    rw [(selectsConfigs hs hreads).configByJob]
    rfl
  exact ⟨g, running, s, hr, hreach, hs, hlegible, hall, hfree, hfree', hfound,
    (hstored.found _).1 hfound, hmissing, habsent.missing.1 hmissing⟩

end Registry

end JobRegistry
