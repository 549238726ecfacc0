import JobRegistry.Proofs.Mapper.Located
import JobRegistry.Proofs.Mapper.Rearranged
import JobRegistry.Proofs.Mapper.Surplus
import JobRegistry.Proofs.Record.Kinded

/-!
# Reading records

What is read as a record depends on the values under its declared tags and on nothing else in the
document (`declared_tags_decide`). What cannot be read has a fault at a place in the document, and
the path to it is reported (`failures_located`), but for the name of a side that is none. Items of
an array that stands for a record are dropped where there are too many (`surplus_items_dropped`).
-/

namespace JobRegistry.Record

open Layout

/-! ## Only declared tags count -/

/-- **Only what stands under declared tags counts.** Of two documents that differ in no more than
the order of entries, at any depth, and in entries that the record itself or a record in it has
under keys that are no tags, either both are read as the same record or neither is read. -/
theorem declared_tags_decide (k : RecordKind) {d d' : Document}
    (h : (layout k.Carrier).Rearranged d.toValue d'.toValue) :
    (∃ r, ofDocument k.Carrier d = .ok r ∧ ofDocument k.Carrier d' = .ok r) ∨
      (∃ e, ofDocument k.Carrier d = .error e) ∧ ∃ e, ofDocument k.Carrier d' = .error e := by
  have hsame (r : k.Carrier) :
      ofDocument k.Carrier d = .ok r ↔ ofDocument k.Carrier d' = .ok r := by
    have hread := readsSame_of_rearranged h k.plain_layout LawfulRecord.regular
    simp only [ofDocument, Layout.ofDocument, map_eq_ok, mapError_eq_ok, hread _]
  cases hd : ofDocument k.Carrier d with
  | ok r => exact .inl ⟨r, rfl, (hsame r).1 hd⟩
  | error e =>
    cases hd' : ofDocument k.Carrier d' with
    | ok r =>
      have hok := (hsame r).2 hd'
      rw [hd] at hok
      cases hok
    | error e' => exact .inr ⟨⟨e, rfl⟩, e', rfl⟩

/-- The entries of a configuration with given dependencies and storage. -/
def configEntries (dependsOn storage : Value) : Entries :=
  [("_id", .text "1f1f1f1f1f1f1f1f1f1f1f1f1f1f1f1f1f1f1f1f1f1f1f1f1f1f1f1f1f1f1f1f"),
    ("versionId", .text "2e2e2e2e2e2e2e2e2e2e2e2e2e2e2e2e2e2e2e2e2e2e2e2e2e2e2e2e2e2e2e2e"),
    ("service", .text "billing"), ("source", .text "events"), ("provider", .text "acme"),
    ("active", .bool true), ("dependsOn", dependsOn), ("storage", storage),
    ("createdAt", .text "2024-05-01 12:00:00"), ("updatedAt", .text "2024-05-01 12:00:01")]

/-- A configuration is read the same when its entries and those of its storage are turned around,
and when it gets a remark and its dependency a grade. -/
theorem declared_tags_decide_specimen :
    let auth : Value := .document [("service", .text "auth"), ("source", .text "users")]
    let graded : Value := .document [("service", .text "auth"), ("grade", .array [.null]),
      ("source", .text "users")]
    let jobs : Value := .document [("bucket", .text "jobs"), ("prefix", .text "out")]
    let turned : Value := .document [("prefix", .text "out"), ("bucket", .text "jobs")]
    let d : Document := ⟨configEntries (.array [auth]) jobs⟩
    let d' : Document :=
      ⟨("remark", .document []) :: (configEntries (.array [graded]) turned).reverse⟩
    Config.layout.Rearranged d.toValue d'.toValue ∧
      ∃ r, ofDocument Config d = .ok r ∧ ofDocument Config d' = .ok r := by
  intro auth graded jobs turned d d'
  have hgraded : JobDependency.layout.Rearranged auth graded :=
    .symm (.undeclared [("service", .text "auth")] (by decide) _ [("source", .text "users")])
  have hturned : StorageTarget.layout.Rearranged jobs turned :=
    .reordered (.entries (by decide) (.swap _ _ _))
  have hdependency : Config.layout.Rearranged d.toValue
      (.document (configEntries (.array [graded]) jobs)) :=
    .field (List.take 6 (configEntries .null .null)) (by exact List.mem_of_getElem? (i := 6) rfl)
      (.item [] hgraded []) (List.drop 7 (configEntries .null jobs))
  have hstorage : Config.layout.Rearranged (.document (configEntries (.array [graded]) jobs))
      (.document (configEntries (.array [graded]) turned)) :=
    .field (List.take 7 (configEntries (.array [graded]) .null))
      (by exact List.mem_of_getElem? (i := 7) rfl) hturned (List.drop 8 (configEntries .null .null))
  have hreverse : Config.layout.Rearranged (.document (configEntries (.array [graded]) turned))
      (.document (configEntries (.array [graded]) turned).reverse) :=
    .reordered (.entries (by decide) (List.reverse_perm _).symm)
  have hremark : Config.layout.Rearranged
      (.document (configEntries (.array [graded]) turned).reverse) d'.toValue :=
    .symm (.undeclared [] (by decide) _ _)
  have h := ((hdependency.trans hstorage).trans hreverse).trans hremark
  have hok : (ofDocument Config d).isOk = true := by decide +kernel
  refine ⟨h, ?_⟩
  rcases declared_tags_decide .config h with hread | ⟨⟨e, he⟩, -⟩
  · exact hread
  · rw [show ofDocument Config d = .error e from he] at hok
    cases hok

/-! ## Faults are located -/

theorem clearTags_layout (k : RecordKind) : (layout k.Carrier).everyPart clearTags = true := by
  cases k <;> decide

theorem lenient_layout (k : RecordKind) : (layout k.Carrier).everyPart lenient = true := by
  cases k <;> decide

/-- The one choice in a record is the side that a schema describes. -/
theorem get?_of_leads_choice {k : RecordKind} {d : Document} {path : Path} {name : String}
    {vs : Variants} {v : Value} (h : Leads (layout k.Carrier) d.toValue path (.choice name vs) v) :
    k = .schema ∧ d.get? "schemaType" = some v ∧ vs.tags = ["input", "output"] := by
  have hother {l : Layout} {w : Value} {path : Path} (hl : l.everyPart choiceless = true)
      (h : Leads l w path (.choice name vs) v) : False := by
    have hpart := everyPart_self (everyPart_of_leads h hl)
    cases hpart
  cases k with
  | schema =>
    have h : Leads Schema.layout d.toValue path (.choice name vs) v := h
    cases h with
    | @field _ _ _ _ tag l _ _ _ _ hl hv h =>
      have hpart := List.all_eq_true.1 (show List.all _ (fun field : String × Layout =>
        field.1 == "schemaType" || field.2.everyPart choiceless) = true by decide) _ hl
      rcases Bool.or_eq_true_iff.1 hpart with htag | hl'
      · obtain rfl : tag = "schemaType" := eq_of_beq htag
        obtain rfl : l = SchemaType.layout :=
          eq_of_mem_layouts (by decide) hl (List.mem_of_getElem? (i := 5) rfl)
        cases h
        exact ⟨rfl, hv, rfl⟩
      · exact (hother hl' h).elim
  | _ => exact (hother (by decide) h).elim

/-- **A record that cannot be read has a fault at a place in the document.** Either a record on the
way lacks a declared field, or the value of a declared field or an item in it is at odds with its
layout; the text of the path is that of the steps that lead there. Only where the side of a schema
has a name that is no side, the fault may be reported by that name alone. -/
theorem failures_located (k : RecordKind) (d : Document) :
    (∃ r, ofDocument k.Carrier d = .ok r) ∨
      (∃ path name strict fields entries tag,
        ofDocument k.Carrier d = .error (.decode (.missing path tag)) ∧
        DecodeError.missingPath path tag = String.ofList (Path.dotted (path ++ [.key tag])) ∧
        Leads (layout k.Carrier) d.toValue path (.record name strict fields) (.document entries) ∧
        tag ∈ fields.tags ∧ Entries.get? tag entries = none) ∨
      (∃ path l v cause,
        ofDocument k.Carrier d = .error (.decode (.mismatch path cause)) ∧
        path ≠ [] ∧ path.render = path.dotted ∧ Leads (layout k.Carrier) d.toValue path l v ∧
        decode .document l v = .error (.mismatch [] cause)) ∨
      k = .schema ∧ ∃ v name, d.get? "schemaType" = some v ∧ v.variantTag? = some name ∧
        name ∉ ["input", "output"] ∧
        ofDocument k.Carrier d = .error (.decode (.unknownVariant name ["input", "output"])) := by
  cases hread : decode .document (layout k.Carrier) d.toValue with
  | ok x => exact .inl ⟨ofFields x, by simp only [ofDocument, Layout.ofDocument, hread]; rfl⟩
  | error e =>
    have herror : ofDocument k.Carrier d = .error (.decode e) := by
      simp only [ofDocument, Layout.ofDocument, hread]
      rfl
    right
    cases located_of_decode _ k.plain_layout hread with
    | @missing path name strict fields entries tag h declared absent =>
      refine .inl ⟨path, name, strict, fields, entries, tag, herror, ?_, h, declared, absent⟩
      have hclear := clear_of_leads h (clearTags_layout k)
      have htag := clear_of_mem_tags (everyPart_of_leads h (clearTags_layout k)) declared
      refine congrArg String.ofList (Path.render_eq_dotted fun step hstep => ?_)
      rcases List.mem_append.1 hstep with hstep | hstep
      · exact hclear step hstep
      · obtain rfl := Step.key.inj (List.mem_singleton.1 hstep)
        exact htag
    | @mismatch path l v cause h refused =>
      refine .inr (.inl ⟨path, l, v, cause, herror, ?_, ?_, h, refused⟩)
      · exact path_ne_nil_of_decode k.plain_layout (by cases k <;> exact ⟨_, _, _, rfl⟩) hread
      · exact Path.render_eq_dotted (clear_of_leads h (clearTags_layout k))
    | variant h named unknown =>
      obtain ⟨hk, hv, htags⟩ := get?_of_leads_choice h
      rw [htags] at unknown herror
      exact .inr (.inr ⟨hk, _, _, hv, named, unknown, herror⟩)
    | stranger h _ _ =>
      have hlenient := everyPart_self (everyPart_of_leads h (lenient_layout k))
      cases hlenient

/-- The entries of a schema with a given side. -/
def schemaEntries (side : Value) : Entries :=
  [("_id", .text "1f1f1f1f1f1f1f1f1f1f1f1f1f1f1f1f1f1f1f1f1f1f1f1f1f1f1f1f1f1f1f1f"),
    ("versionId", .text "2e2e2e2e2e2e2e2e2e2e2e2e2e2e2e2e2e2e2e2e2e2e2e2e2e2e2e2e2e2e2e2e"),
    ("service", .text "billing"), ("source", .text "events"), ("provider", .text "acme"),
    ("schemaType", side), ("jsonSchema", .text "{}"),
    ("createdAt", .text "2024-05-01 12:00:00"), ("updatedAt", .text "2024-05-01 12:00:01")]

/-- A side of an unknown name is reported without the place where it stands. -/
theorem unknown_side_without_path :
    let e : MapperError := .decode (.unknownVariant "sideways" ["input", "output"])
    ofDocument Schema ⟨schemaEntries (.text "sideways")⟩ = .error e ∧ e.category = "Custom" ∧
      e.message = "unknown variant `sideways`, expected `input` or `output`" := by
  decide +kernel

/-! ## Surplus items are dropped -/

theorem wellTagged_layout (k : RecordKind) : (layout k.Carrier).WellTagged :=
  wellTagged_of_plain _ k.plain_layout LawfulRecord.regular

/-- **Items for which there are no places are dropped from a document.** A document is read as the
one in which every array that stands for a tuple, a tuple variant or a record was cut to the number
of its places, at any depth; that is another document just where an array has surplus items. JSON
properties, in contrast, are read only if no array has any. -/
theorem surplus_items_dropped {l : Layout} (hl : l.WellTagged) :
    (∀ d : Document, ∃ d' : Document, d'.toValue = l.cut d.toValue ∧
      Snug .document l d'.toValue ∧ (d' = d ↔ Snug .document l d.toValue) ∧
      l.ofDocument d = l.ofDocument d') ∧
    ∀ j x, l.ofProperties j = .ok x → Snug .properties l j.sorted := by
  constructor
  · intro d
    obtain ⟨entries, hentries⟩ := exists_cut_document l d.entries
    have hcut : (Document.mk entries).toValue = l.cut d.toValue := hentries.symm
    have hsnug : Snug .document l (Document.mk entries).toValue := by
      rw [hcut]
      exact snug_cut l d.toValue
    refine ⟨⟨entries⟩, hcut, hsnug, ⟨?_, fun h => ?_⟩, ?_⟩
    · rintro rfl
      exact hsnug
    · rw [cut_of_snug l h] at hcut
      exact congrArg Document.mk (Value.document.inj hcut)
    · rw [Layout.ofDocument, Layout.ofDocument, hcut, decode_cut l hl]
  · exact fun j x h => snug_of_decode l (Json.sorted_sorted j) h

/-- A dependency and a storage with an item too many. -/
def surplusConfig : Document :=
  ⟨configEntries (.array [.array [.text "auth", .text "users", .text "admin"]])
    (.array [.text "jobs", .text "out", .text "eu-west"])⟩

/-- A configuration is read without the surplus items of its dependency and of its storage. -/
theorem surplus_items_dropped_specimen :
    Config.layout.WellTagged ∧ ofDocument Config surplusConfig = ofDocument Config
      ⟨configEntries (.array [.array [.text "auth", .text "users"]])
        (.array [.text "jobs", .text "out"])⟩ := by
  have hl : Config.layout.WellTagged := wellTagged_layout .config
  obtain ⟨d, hcut, -, -, hread⟩ := (surplus_items_dropped hl).1 surplusConfig
  obtain ⟨entries⟩ := d
  obtain rfl := Value.document.inj hcut
  exact ⟨hl, congrArg (Except.map ofFields) hread⟩

/-- A configuration with surplus items is read all the same. -/
theorem surplus_items_accepted :
    (ofDocument Config surplusConfig).isOk = true ∧
      ¬ Snug .document Config.layout surplusConfig.toValue := by
  refine ⟨by decide +kernel, fun h => ?_⟩
  have hstorage := h ("storage", .array [.text "jobs", .text "out", .text "eu-west"])
    (List.mem_of_getElem? (i := 7) rfl)
  exact absurd hstorage.1 (by decide)

-- The same array is refused where JSON properties are read.
example : StorageTarget.layout.ofProperties (.array [.text "jobs", .text "out", .text "eu-west"]) =
    .error (.mismatch [] (.length 3 "fewer elements in array")) :=
  rfl

end JobRegistry.Record
