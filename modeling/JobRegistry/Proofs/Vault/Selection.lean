import JobRegistry.Proofs.Record.Identity
import JobRegistry.Proofs.Vault.ReadBack
import JobRegistry.Vault.Queries

/-!
# What filters select

Filters speak of documents: of the value at a path, or of the documents in an array. What they mean
for the records behind the documents is said by `Filter.Selects`, for each field once
(`selects_eqText`, `selects_elem`) and for conjunctions (`Selects.and`).

Where all documents of a collection can be read, a search with a filter answers the records that the
filter selects, in the order in which the search for all records answers them (`run_find_of_reads`,
`run_findFirst_of_reads`).
-/

namespace JobRegistry

/-! ## Documents of records -/

section

variable {R : Type} [Record R]

/-- The documents of records have a value at a path that a field of the record determines. -/
def Record.KeptAt (path : String) (value : R → Value) : Prop :=
  ∀ r d, Record.toDocument r = .ok d → d.getPath? path = some (value r)

/-- Of the documents of records the filter accepts those whose records have a property. -/
def Filter.Selects (f : Filter) (p : R → Prop) : Prop :=
  ∀ r d, Record.toDocument r = .ok d → (f.accepts d = true ↔ p r)

namespace Filter

theorem Selects.and {f g : Filter} {p q : R → Prop} (hf : f.Selects p) (hg : g.Selects q) :
    (f.and g).Selects fun r => p r ∧ q r := by
  intro r d hd
  rw [accepts_and, Bool.and_eq_true, hf r d hd, hg r d hd]

theorem Selects.congr {f : Filter} {p q : R → Prop} (hf : f.Selects p) (h : ∀ r, p r ↔ q r) :
    f.Selects q :=
  fun r d hd => (hf r d hd).trans (h r)

theorem accepts_eq {path : String} {v found : Value} {d : Document}
    (h : d.getPath? path = some found) : (eq path v).accepts d = (found == v) := by
  rw [accepts, h]

theorem selects_eqText {path : String} {text : R → String}
    (h : Record.KeptAt path fun r : R => .text (text r)) (s : String) :
    (eqText path s).Selects fun r : R => text r = s := by
  intro r d hd
  rw [eqText, accepts_eq (h r d hd), Value.beq_text, Value.text.injEq]

theorem selects_eqBool {path : String} {flag : R → Bool}
    (h : Record.KeptAt path fun r : R => .bool (flag r)) (b : Bool) :
    (eq path (.bool b)).Selects fun r : R => flag r = b := by
  intro r d hd
  rw [accepts_eq (h r d hd)]
  show (flag r == b) = true ↔ _
  exact beq_iff_eq

/-- A filter on the items of an array selects the records with such an item. -/
theorem selects_elem {α : Type} {path : String} {items : R → List α} {entries : α → Entries}
    {f : Filter} {p : α → Prop}
    (h : Record.KeptAt path fun r : R => .array ((items r).map fun a => .document (entries a)))
    (hf : ∀ a, f.accepts ⟨entries a⟩ = true ↔ p a) :
    (elem path f).Selects fun r : R => ∃ a ∈ items r, p a := by
  intro r d hd
  rw [accepts, h r d hd]
  simp only [List.any_map, List.any_eq_true, Function.comp_apply, hf]

theorem selects_byId [LawfulRecord R] (id : RecordId) :
    (Vault.byId id).Selects fun r : R => Record.id r = id := by
  intro r d hd
  rw [Vault.byId, accepts_byId, Record.idOf?_toDocument hd, Option.some.injEq, RecordId.toHex_inj]

end Filter

/-- Where documents keep the job of a record. -/
structure Record.KeepsJob (service source provider : R → String) : Prop where
  service : KeptAt "service" fun r => .text (service r)
  source : KeptAt "source" fun r => .text (source r)
  provider : KeptAt "provider" fun r => .text (provider r)

theorem Filter.selects_byJob {service source provider : R → String}
    (h : Record.KeepsJob service source provider) (a b c : String) :
    (byJob a b c).Selects fun r : R => service r = a ∧ source r = b ∧ provider r = c := by
  have hjob := ((selects_eqText h.service a).and (selects_eqText h.source b)).and
    (selects_eqText h.provider c)
  exact hjob.congr fun r => and_assoc

/-- A filter for a job and one more field. -/
theorem Filter.selects_byJob_and {service source provider : R → String} {f : Filter} {p : R → Prop}
    (h : Record.KeepsJob service source provider) (hf : f.Selects p) (a b c : String) :
    ((byJob a b c).and f).Selects fun r : R =>
      service r = a ∧ source r = b ∧ provider r = c ∧ p r := by
  apply ((selects_byJob h a b c).and hf).congr
  intro r
  simp only [and_assoc]

end

/-! ## The kinds of records -/

/-- A dependency in the document of a configuration. -/
def JobDependency.entries (d : JobDependency) : Entries :=
  [("service", .text d.service), ("source", .text d.source)]

theorem JobDependency.encodeList_layout (ds : List JobDependency) :
    Layout.encodeList (Layout.encode layout) (ds.map fields) =
      .ok (ds.map fun d => .document d.entries) := by
  induction ds with
  | nil => rfl
  | cons d ds ih =>
    rw [List.map_cons, Layout.encodeList, ih]
    rfl

theorem Config.toDocument_eq (c : Config) : Record.toDocument c = .ok ⟨[
    ("_id", .text c.id.toHex), ("versionId", .text c.versionId.toHex),
    ("service", .text c.service), ("source", .text c.source), ("provider", .text c.provider),
    ("active", .bool c.active),
    ("dependsOn", .array (c.dependsOn.map fun d => .document d.entries)),
    ("storage", .document
      [("bucket", .text c.storage.bucket), ("prefix", .text c.storage.pathPrefix)]),
    ("createdAt", .text c.createdAt.format), ("updatedAt", .text c.updatedAt.format)]⟩ := by
  have hlist : Layout.encode (.list JobDependency.layout) (c.dependsOn.map JobDependency.fields) =
      .ok (.array (c.dependsOn.map fun d => .document d.entries)) := by
    show (Layout.encodeList (Layout.encode JobDependency.layout)
      (c.dependsOn.map JobDependency.fields)).map Value.array = _
    rw [JobDependency.encodeList_layout]
    rfl
  show Layout.toDocument Config.layout c.fields = _
  simp only [Layout.toDocument, Config.layout, Config.fields, Layout.encode, Layout.encodeFields,
    reduceCtorEq, false_and, if_false] at hlist ⊢
  rw [hlist]
  rfl

theorem Output.toDocument_eq (o : Output) : Record.toDocument o = .ok ⟨[
    ("_id", .text o.id.toHex), ("configVersionId", .text o.configVersionId.toHex),
    ("service", .text o.service), ("source", .text o.source), ("provider", .text o.provider),
    ("metadata", .document [("inputId", .text o.metadata.inputId.toHex),
      ("processingId", .text o.metadata.processingId),
      ("processingTimestamp", .text o.metadata.processingTimestamp.format)]),
    ("createdAt", .text o.createdAt.format), ("updatedAt", .text o.updatedAt.format)]⟩ :=
  rfl

theorem Schema.toDocument_eq (s : Schema) : Record.toDocument s = .ok ⟨[
    ("_id", .text s.id.toHex), ("versionId", .text s.versionId.toHex),
    ("service", .text s.service), ("source", .text s.source), ("provider", .text s.provider),
    ("schemaType", .text s.schemaType.name), ("jsonSchema", .text s.jsonSchema),
    ("createdAt", .text s.createdAt.format), ("updatedAt", .text s.updatedAt.format)]⟩ := by
  obtain ⟨_, _, _, _, _, side, _, _, _⟩ := s
  cases side <;> rfl

theorem Input.toDocument_eq (i : Input) : Record.toDocument i = .ok ⟨[
    ("_id", .text i.id.toHex), ("service", .text i.service), ("source", .text i.source),
    ("provider", .text i.provider), ("objectUri", .text i.objectUri), ("format", .text i.format),
    ("createdAt", .text i.createdAt.format), ("updatedAt", .text i.updatedAt.format)]⟩ :=
  rfl

/-- A field of a record is kept where the entries of its document have it. -/
theorem Record.keptAt_of_entries {R : Type} [Record R] {entries : R → Entries} {key : String}
    {value : R → Value} (hd : ∀ r : R, Record.toDocument r = .ok ⟨entries r⟩)
    (hkey : '.' ∉ key.toList) (h : ∀ r, Entries.get? key (entries r) = some (value r)) :
    KeptAt key value := by
  intro r d hr
  obtain rfl := Except.ok.inj ((hd r).symm.trans hr)
  rw [Document.getPath?_of_not_mem hkey]
  exact h r

open Record (KeptAt KeepsJob keptAt_of_entries)

theorem Config.keepsJob : KeepsJob Config.service Config.source Config.provider where
  service := keptAt_of_entries toDocument_eq (by decide) fun _ => rfl
  source := keptAt_of_entries toDocument_eq (by decide) fun _ => rfl
  provider := keptAt_of_entries toDocument_eq (by decide) fun _ => rfl

theorem Output.keepsJob : KeepsJob Output.service Output.source Output.provider where
  service := keptAt_of_entries toDocument_eq (by decide) fun _ => rfl
  source := keptAt_of_entries toDocument_eq (by decide) fun _ => rfl
  provider := keptAt_of_entries toDocument_eq (by decide) fun _ => rfl

theorem Schema.keepsJob : KeepsJob Schema.service Schema.source Schema.provider where
  service := keptAt_of_entries toDocument_eq (by decide) fun _ => rfl
  source := keptAt_of_entries toDocument_eq (by decide) fun _ => rfl
  provider := keptAt_of_entries toDocument_eq (by decide) fun _ => rfl

theorem Input.keepsJob : KeepsJob Input.service Input.source Input.provider where
  service := keptAt_of_entries toDocument_eq (by decide) fun _ => rfl
  source := keptAt_of_entries toDocument_eq (by decide) fun _ => rfl
  provider := keptAt_of_entries toDocument_eq (by decide) fun _ => rfl

theorem Config.keptAt_active : KeptAt "active" fun c : Config => .bool c.active :=
  keptAt_of_entries toDocument_eq (by decide) fun _ => rfl

theorem Config.keptAt_dependsOn : KeptAt "dependsOn" fun c : Config =>
    .array (c.dependsOn.map fun d => .document d.entries) :=
  keptAt_of_entries toDocument_eq (by decide) fun _ => rfl

theorem Output.keptAt_configVersionId :
    KeptAt "configVersionId" fun o : Output => .text o.configVersionId.toHex :=
  keptAt_of_entries toDocument_eq (by decide) fun _ => rfl

theorem Output.keptAt_inputId :
    KeptAt "metadata.inputId" fun o : Output => .text o.metadata.inputId.toHex := by
  intro o d hd
  obtain rfl := Except.ok.inj ((toDocument_eq o).symm.trans hd)
  exact Document.getPath?_append _ "metadata" "inputId"

theorem Schema.keptAt_schemaType :
    KeptAt "schemaType" fun s : Schema => .text s.schemaType.name :=
  keptAt_of_entries toDocument_eq (by decide) fun _ => rfl

theorem Filter.selects_configVersionId (versionId : RecordId) :
    (eqText "configVersionId" versionId.toHex).Selects fun o : Output =>
      o.configVersionId = versionId :=
  (selects_eqText Output.keptAt_configVersionId _).congr fun _ => RecordId.toHex_inj

theorem Filter.selects_inputId (inputId : RecordId) :
    (eqText "metadata.inputId" inputId.toHex).Selects fun o : Output =>
      o.metadata.inputId = inputId :=
  (selects_eqText Output.keptAt_inputId _).congr fun _ => RecordId.toHex_inj

theorem Filter.selects_schemaType (side : SchemaType) :
    (eqText "schemaType" side.name).Selects fun s : Schema => s.schemaType = side :=
  (selects_eqText Schema.keptAt_schemaType _).congr fun _ => SchemaType.name_inj

theorem Filter.selects_dependsOn (service source : String) :
    (dependsOn service source).Selects fun c : Config =>
      ∃ d ∈ c.dependsOn, d.service = service ∧ d.source = source := by
  apply selects_elem Config.keptAt_dependsOn
  intro d
  have hservice : (⟨d.entries⟩ : Document).getPath? "service" = some (.text d.service) :=
    Document.getPath?_of_not_mem (by decide)
  have hsource : (⟨d.entries⟩ : Document).getPath? "source" = some (.text d.source) :=
    Document.getPath?_of_not_mem (by decide)
  rw [accepts_and, Bool.and_eq_true, eqText, eqText, accepts_eq hservice, accepts_eq hsource,
    Value.beq_text, Value.beq_text, Value.text.injEq, Value.text.injEq]

/-! ## Searches -/

section

variable {R : Type} [Record R] {docs : List Document} {rs : List R}

/-- The documents are those of the records, one by one, and can be read. -/
def Reads (docs : List Document) (rs : List R) : Prop :=
  List.Forall₂ (fun d r => Record.toDocument r = .ok d ∧ Vault.decode d = .ok r) docs rs

namespace Reads

theorem stores (h : Reads docs rs) : Stores docs rs :=
  List.Forall₂.imp (fun _ _ hd => hd.1) h

theorem decodeAll (h : Reads docs rs) : Vault.decodeAll docs = .ok rs := by
  induction h with
  | nil => rfl
  | cons hd _ ih =>
    rw [Vault.decodeAll, hd.2, ih]
    rfl

theorem filter (h : Reads docs rs) {f : Filter} {p : R → Prop} [DecidablePred p]
    (hf : f.Selects p) : Reads (docs.filter f.accepts) (rs.filter fun r => p r) := by
  induction h with
  | nil => exact .nil
  | @cons d r docs rs hd _ ih =>
    by_cases hp : p r
    · rw [List.filter_cons_of_pos ((hf r d hd.1).2 hp), List.filter_cons,
        if_pos (decide_eq_true hp)]
      exact .cons hd ih
    · rw [List.filter_cons_of_neg (mt (hf r d hd.1).1 hp), List.filter_cons,
        if_neg (mt of_decide_eq_true hp)]
      exact ih

end Reads

namespace Vault

variable [LawfulRecord R] {v : Vault R} {s : Store}

theorem reads_of_decodeAll (hs : ∀ d ∈ docs, ∃ r : R, Record.toDocument r = .ok d)
    (h : decodeAll docs = .ok rs) : Reads docs rs := by
  induction docs generalizing rs with
  | nil =>
    obtain rfl := Except.ok.inj h
    exact .nil
  | cons d docs ih =>
    obtain ⟨hd, hs⟩ := List.forall_mem_cons.1 hs
    obtain ⟨r, rest, hr, hrest, rfl⟩ := decodeAll_cons_ok h
    obtain ⟨r₀, hr₀⟩ := hd
    obtain rfl := eq_of_decode hr₀ hr
    exact .cons ⟨hr₀, hr⟩ (ih hs hrest)

omit [LawfulRecord R] in
theorem run_findAll_offline (h : s.available = false) : ∃ e, (v.findAll.run s).1 = .error e :=
  ⟨_, congrArg Prod.fst (Operation.run_bind_error (Operation.run_ask_offline h _))⟩

/-- If the search for all records of a sound collection succeeds, the store is available and every
document can be read. -/
theorem reads_of_findAll (hsound : Sound R (s.documents v.collection))
    (h : (v.findAll.run s).1 = .ok rs) :
    s.available = true ∧ Reads (s.documents v.collection) rs := by
  cases hs : s.available with
  | false =>
    obtain ⟨e, he⟩ := run_findAll_offline (v := v) hs
    cases he.symm.trans h
  | true =>
    rw [run_findAll hs] at h
    refine ⟨rfl, reads_of_decodeAll (fun d hd => ?_) h⟩
    obtain ⟨r, hr, -⟩ := hsound.records d hd
    exact ⟨r, hr⟩

variable {f : Filter} {p : R → Prop} [DecidablePred p]

omit [LawfulRecord R] in
/-- A search answers the records that its filter selects. -/
theorem run_find_of_reads (hs : s.available = true) (h : Reads (s.documents v.collection) rs)
    (hf : f.Selects p) : (v.find f).run s = (.ok (rs.filter fun r => p r), s) := by
  rw [run_find hs, (h.filter hf).decodeAll]

omit [LawfulRecord R] in
/-- A search for one record answers the first that its filter selects. -/
theorem run_findFirst_of_reads (hs : s.available = true)
    (h : Reads (s.documents v.collection) rs) (hf : f.Selects p) :
    (v.findFirst f).run s = (.ok (rs.filter fun r => p r).head?, s) := by
  have hfilter := h.filter hf
  have hhead := List.head?_filter (l := s.documents v.collection) (p := f.accepts)
  cases hd : (s.documents v.collection).filter f.accepts with
  | nil =>
    rw [hd] at hfilter hhead
    rw [List.forall₂_nil_left_iff.1 hfilter]
    exact run_findFirst_none hs hhead.symm
  | cons d docs =>
    rw [hd] at hfilter hhead
    obtain ⟨r, rest, hr, -, heq⟩ := List.forall₂_cons_left_iff.1 hfilter
    rw [heq, run_findFirst_some hs hhead.symm, hr.2]
    rfl

end Vault

end

end JobRegistry
