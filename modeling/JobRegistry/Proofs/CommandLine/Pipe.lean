import JobRegistry.CommandLine.Session
import JobRegistry.Proofs.Record.Kinded

/-!
# What is printed is accepted

The command `document` prints the document of a record that it builds of properties, and `validate`
reads such a document. So the second accepts what the first has printed: the record that was built
is read back from its JSON, in which the keys stand in the order of their names, and is valid if no
text is hashed to the null identifier (`printed_is_accepted`). The report of `validate` tells so
exactly when there are no violations (`Session.reportsValid_findings_iff`).
-/

namespace JobRegistry.CommandLine

/-! ## Reports -/

namespace Session

/-- JSON as it is printed is read as its normal form. -/
theorem read?_jsonText {j : Json} (h : j.Fits Json.maxDepth) :
    Json.read? (jsonText j) = some j.sorted :=
  Json.read?_pretty h.sorted.1 h.sorted.2 (Json.blank_newline 0)

/-- The report tells that the record is valid, and names its kind and its identifier. -/
def ReportsValid (r : KindedRecord) (report : String) : OutputFormat → Prop
  | .json => ∃ members, Json.read? report = some (.object members) ∧
    members.lookup "kind" = some (.text r.kind.name) ∧
    members.lookup "id" = some (.text r.id.toHex) ∧
    members.lookup "valid" = some (.bool true) ∧ members.lookup "violations" = some (.array [])
  | .text => report = "✓ valid " ++ r.kind.name ++ " " ++ r.id.shortHex ++ "\n"

/-- What is read from a report in JSON, by the names of its members. -/
theorem read?_findings (r : KindedRecord) (broken : List Violation) : ∃ members,
    Json.read? (findings r broken .json) = some (.object members) ∧
      members.lookup "kind" = some (.text r.kind.name) ∧
      members.lookup "id" = some (.text r.id.toHex) ∧
      members.lookup "valid" = some (.bool broken.isEmpty) ∧
      members.lookup "violations" = some (Json.array (broken.map fun v =>
        .object [("field", .text v.field), ("reason", .text v.reason)])).sorted := by
  have hviolations : (Json.array (broken.map fun v =>
      Json.object [("field", .text v.field), ("reason", .text v.reason)])).Fits 2 := by
    apply Json.fits_array
    rw [List.forall_mem_map]
    intro v _
    apply Json.fits_object
    simp [Json.fits_text]
  refine ⟨_, read?_jsonText (Json.Fits.mono (n := 3) (by decide) (Json.fits_object ?_)), ?_⟩
  · simp [Json.fits_text, Json.fits_bool, hviolations]
  · simp only [Sorted.lookup_ofList]
    exact ⟨rfl, rfl, rfl, rfl⟩

/-- **A report tells that a record is valid exactly when it was made of no violations.** -/
theorem reportsValid_findings_iff (r : KindedRecord) (broken : List Violation)
    (format : OutputFormat) : ReportsValid r (findings r broken format) format ↔ broken = [] := by
  cases format with
  | json =>
    obtain ⟨members, hread, hkind, hid, hvalid, hviolations⟩ := read?_findings r broken
    constructor
    · rintro ⟨members', hread', -, -, hvalid', -⟩
      obtain rfl := Json.object.inj (Option.some.inj (hread.symm.trans hread'))
      have hempty := Json.bool.inj (Option.some.inj (hvalid.symm.trans hvalid'))
      exact List.isEmpty_iff.1 hempty
    · rintro rfl
      exact ⟨members, hread, hkind, hid, hvalid, hviolations⟩
  | text =>
    constructor
    · intro h
      by_contra hbroken
      have hne : ¬ broken.isEmpty = true := mt List.isEmpty_iff.1 hbroken
      have hmarks := congrArg (fun text => text.toList.head?) h
      simp [findings, hne] at hmarks
    · rintro rfl
      rfl

end Session

/-! ## Words -/

/-- A word that is a timestamp may be the value of an option. -/
theorem isValue_of_parse? {text : String} {t : Timestamp} (h : Timestamp.parse? text = some t) :
    isValue text = true := by
  unfold isValue
  split
  · next c cs hchars =>
    rw [Timestamp.parse?_eq_none hchars (by decide)] at h
    cases h
  · rfl

/-- The words that ask for an output format. -/
def formatWords : OutputFormat → List String
  | .text => []
  | .json => ["--format", "json"]

theorem scan_document (k : RecordKind) {text : String} (h : isValue text = true) :
    scan (.after .document) none [k.name, "--at", text] .empty =
      .ok (⟨.empty, some (.time, text), [k.name]⟩, []) := by
  have hwords : scan (.after .document) none [k.name, "--at", text] .empty =
      scan (.after .document) (some .time) [text] ⟨.empty, none, [k.name]⟩ := by
    cases k <;> rfl
  rw [hwords, scan, if_pos h]
  rfl

theorem parse_document (k : RecordKind) {text : String} (h : isValue text = true) :
    parse ["document", k.name, "--at", text] =
      .run ⟨.document k "-" (some text), .text, none⟩ := by
  have hinvocation : invocation ["document", k.name, "--at", text] =
      .ok ⟨.document k "-" (some text), .text, none⟩ := by
    show scan (.after .document) none [k.name, "--at", text] .empty >>= _ = _
    rw [scan_document k h]
    cases k <;> rfl
  rw [parse, hinvocation]

theorem parse_validate (k : RecordKind) (format : OutputFormat) :
    parse (["validate", k.name] ++ formatWords format) = .run ⟨.validate k "-", format, none⟩ := by
  cases k <;> cases format <;> decide

/-- The outcome of words, if they ask for a command. -/
def outcome? (now : Timestamp) (contents : Source → Except String String) (words : List String) :
    Option Outcome :=
  match parse words with
  | .run i => some ((Session.ofInvocation now i).run contents)
  | .help => none
  | .misuse => none

/-! ## Sessions -/

namespace Session

variable {contents : Source → Except String String} {written : String}

/-- Where the standard input is a JSON text, its tree is what is read. -/
theorem run_readJson (hinput : contents .standardInput = .ok written) {j : Json}
    (hj : Json.read? written = some j) (next : Json → Session) :
    (readJson "-" next).run contents = (next j).run contents := by
  rw [readJson, run, if_pos rfl, hinput]
  simp only [hj]

variable {k : RecordKind} {r : KindedRecord}

theorem run_document {text : String} {now : Timestamp} (htime : Timestamp.parse text = .ok now)
    {props : Json} (hbuild : KindedRecord.build k props now = .ok r) {j : Json}
    (hj : r.toJson = .ok j) (hinput : contents .standardInput = .ok written)
    (hprops : Json.read? written = some props) (present : Timestamp) (format : OutputFormat) :
    (ofInvocation present ⟨.document k "-" (some text), format, none⟩).run contents =
      ⟨jsonText j, none⟩ := by
  show (readRecord present k "-" (some text) document).run contents = _
  rw [readRecord, readTime, htime, orFail, run_readJson hinput hprops, hbuild, orFail, document, hj]
  rfl

theorem run_validate {j : Json} (hread : KindedRecord.ofJson k j = .ok r)
    (hvalid : r.validate = .ok ()) (hinput : contents .standardInput = .ok written)
    (hj : Json.read? written = some j) (present : Timestamp) (format : OutputFormat) :
    (ofInvocation present ⟨.validate k "-", format, none⟩).run contents =
      ⟨findings r [] format, none⟩ := by
  show (readJson "-" fun j => orFail MapperError.message (KindedRecord.ofJson k j) fun r =>
    validate r format).run contents = _
  rw [run_readJson hinput hj, hread, orFail, validate, violations, hvalid]
  rfl

end Session

/-! ## From one command to the other -/

open Session

/-- **What is printed is accepted.** Let a record be built of JSON properties at a time that was
read from a text. Then it has a document, of whose JSON in normal form the same record is read, and
it is valid if no text is hashed to the null identifier. So the command `document` with that time
prints this JSON when it reads the properties, and the command `validate` finds no violation when it
reads what was printed: it reports that the record is valid, with the identifier of the one that was
built. -/
theorem printed_is_accepted (k : RecordKind) (props : Json) (text : String) (now : Timestamp)
    (r : KindedRecord) (htime : Timestamp.parse text = .ok now)
    (hbuild : KindedRecord.build k props now = .ok r) :
    ∃ j, r.toJson = .ok j ∧ j.sorted = j ∧ KindedRecord.ofJson k j = .ok r ∧
      (NullFree r.hashedTexts → r.validate = .ok ()) ∧
      ∀ (present : Timestamp) (contents : Source → Except String String) (written : String),
        contents .standardInput = .ok written → Json.read? written = some props →
        outcome? present contents ["document", k.name, "--at", text] = some ⟨jsonText j, none⟩ ∧
        (NullFree r.hashedTexts → ∀ (present' : Timestamp)
            (contents' : Source → Except String String) (format : OutputFormat),
          contents' .standardInput = .ok (jsonText j) →
          outcome? present' contents' (["validate", k.name] ++ formatWords format) =
            some ⟨findings r [] format, none⟩ ∧ ReportsValid r (findings r [] format) format) := by
  obtain ⟨p, s, hp, hs, rfl⟩ := KindedRecord.build_eq_ok.1 hbuild
  have hparsed := Timestamp.parse_eq_ok.1 htime
  have hyears := RecordKind.legible_of_create hp (Timestamp.hasFourDigitYear_of_parse? hparsed) hs
  obtain ⟨j, hj, hread, hsorted, hprinted⟩ := KindedRecord.exists_toJson hyears
  have hvalid : NullFree (k.pack s).hashedTexts → (k.pack s).validate = .ok () := by
    rw [RecordKind.hashedTexts_pack, RecordKind.validate_pack]
    exact Record.validate_of_create hs
  refine ⟨j, hj, hsorted, hread, hvalid, fun present contents written hinput hprops =>
    ⟨?_, fun hnull present' contents' format hinput' => ?_⟩⟩
  · rw [outcome?, parse_document k (isValue_of_parse? hparsed)]
    exact congrArg some (run_document htime hbuild hj hinput hprops present .text)
  · have hback : Json.read? (jsonText j) = some j := by
      rw [jsonText, hsorted]
      exact hprinted "\n" (Json.blank_newline 0)
    refine ⟨?_, (reportsValid_findings_iff _ [] format).2 rfl⟩
    rw [outcome?, parse_validate]
    exact congrArg some (run_validate hread (hvalid hnull) hinput' hback present' format)

/-- The properties of `Input.specimen` as JSON. -/
def specimenProps : Json :=
  .object [("uri", .text "box/1"), ("format", .text "eml"), ("service", .text "mail"),
    ("source", .text "inbox"), ("provider", .text "imap")]

/-- A text of `specimenProps`. -/
def specimenText : String :=
  "\x7b\"uri\": \"box/1\", \"format\": \"eml\", \"service\": \"mail\",\n \"source\": \"inbox\", " ++
    "\"provider\": \"imap\"\x7d"

/-- An input that is built of its properties in a leap second. -/
theorem printed_is_accepted_leap :
    let time := "2016-12-31 23:59:60"
    ∃ now props j, Timestamp.parse time = .ok now ∧ Json.read? specimenText = some props ∧
      KindedRecord.build .input props now = .ok (.input (Input.specimen now)) ∧
      (KindedRecord.input (Input.specimen now)).toJson = .ok j ∧
      KindedRecord.ofJson .input j = .ok (.input (Input.specimen now)) ∧
      outcome? now (fun _ => .ok specimenText) ["document", "input", "--at", time] =
        some ⟨jsonText j, none⟩ ∧
      outcome? now (fun _ => .ok (jsonText j)) ["validate", "input", "--format", "json"] =
        some ⟨findings (.input (Input.specimen now)) [] .json, none⟩ ∧
      ReportsValid (.input (Input.specimen now))
        (findings (.input (Input.specimen now)) [] .json) .json := by
  intro time
  obtain ⟨now, hnow⟩ : ∃ now, Timestamp.parse? time = some now :=
    Option.isSome_iff_exists.1 (by decide)
  have htime := Timestamp.parse_eq_ok.2 hnow
  have hprops : Json.read? specimenText = some specimenProps := rfl
  have hread : Properties.ofJson RecordKind.input.Props specimenProps =
      .ok (⟨"mail", "inbox", "imap", "box/1", "eml"⟩ : InputProps) := rfl
  have hcreate : Properties.create (P := InputProps) ⟨"mail", "inbox", "imap", "box/1", "eml"⟩ now =
      .ok (Input.specimen now) :=
    Record.identify_eq_ok.2 ⟨Check.violations_new [.required "service" "mail",
      .required "source" "inbox", .required "provider" "imap", .required "objectUri" "box/1",
      .required "format" "eml"] (by decide) now, rfl⟩
  have hbuild : KindedRecord.build .input specimenProps now = .ok (.input (Input.specimen now)) :=
    KindedRecord.build_eq_ok.2 ⟨_, _, hread, hcreate, rfl⟩
  have hnull : NullFree (KindedRecord.input (Input.specimen now)).hashedTexts := by
    intro a ha he
    obtain rfl := List.mem_singleton.1 ha
    have hspecimen := Input.isNull_specimenKey
    rw [RecordId.isNull_eq_false, Purpose.bytes_derive] at hspecimen
    exact hspecimen he
  obtain ⟨j, hj, -, hback, -, hpipe⟩ := printed_is_accepted .input _ time now _ htime hbuild
  obtain ⟨hdocument, hvalidate⟩ := hpipe now (fun _ => .ok specimenText) specimenText rfl hprops
  exact ⟨now, _, j, htime, hprops, hbuild, hj, hback, hdocument,
    hvalidate hnull now (fun _ => .ok (jsonText j)) .json rfl⟩

end JobRegistry.CommandLine
