import JobRegistry.CommandLine.Arguments
import JobRegistry.Dependents
import JobRegistry.Json.Printer
import JobRegistry.Json.Reader
import JobRegistry.Record.Kinded
import JobRegistry.Settings.File

/-!
# Sessions of the command line

What the program does for an invocation. A session reads sources one after another and ends with an
outcome: what is printed, and the failure if there is one. Settings are read first, whether the
command needs them or not; a construction time is read before the properties.
-/

namespace JobRegistry.CommandLine

/-- Where a session reads from. -/
inductive Source
  | standardInput
  | file (name : String)
  deriving DecidableEq, Repr

/-- Why a session fails: a message, and the causes behind it, the nearest first. -/
structure Failure where
  message : String
  causes : List String
  deriving DecidableEq, Repr

/-- What a session ends with. -/
structure Outcome where
  /-- What is printed. -/
  output : String
  failure : Option Failure
  deriving DecidableEq, Repr

/-- A run of the program, which reads sources and ends with an outcome. -/
inductive Session
  | done (o : Outcome)
  | read (s : Source) (next : Except String String → Session)

/-! ## Failures -/

/-- A cause under a heading: its first line after `first`, and its further lines after `other`. -/
def indented (first other : String) (cause : String) : String :=
  first ++ String.ofList (cause.toList.flatMap fun c =>
    if c = '\n' then '\n' :: other.toList else [c])

/-- Causes with their numbers, the first of which is given. -/
def numbered : Nat → List String → List String
  | _, [] => []
  | n, cause :: rest =>
    let digits := Text.Digits.ofNat n
    indented (String.ofList (List.replicate (5 - digits.length) ' ' ++ digits ++ [':', ' ']))
      "       " cause :: numbered (n + 1) rest

/-- The lines of causes; only when there are several they have numbers. -/
def causeLines : List String → List String
  | [cause] => [indented "    " "    " cause]
  | causes => numbered 0 causes

/-- The report of a failure. -/
def Failure.report (f : Failure) : String :=
  "Error: " ++ f.message ++ "\n" ++
    if f.causes.isEmpty then ""
    else "\nCaused by:\n" ++ "\n".intercalate (causeLines f.causes) ++ "\n"

/-- What is printed as an error. -/
def Outcome.report (o : Outcome) : String :=
  match o.failure with
  | some f => f.report
  | none => ""

/-- The exit code. -/
def Outcome.code (o : Outcome) : Nat :=
  if o.failure.isSome then 1 else 0

/-- What lies behind an error of a vault. -/
def causesOf : VaultError → List String
  | .mapping e => [e.message]
  | _ => []

/-- The failure of a list of configurations. -/
def failureOf (e : DependentsError) : Failure :=
  match e with
  | .refused _ _ _ cause => ⟨e.message, cause.message :: causesOf cause⟩
  | .unanswered cause => ⟨e.message, causesOf cause⟩

/-! ## Reading -/

namespace Session

/-- The end of a session that succeeds. -/
def succeed (output : String) : Session :=
  done ⟨output, none⟩

/-- The end of a session that fails before it printed anything. -/
def fail (message : String) (causes : List String) : Session :=
  done ⟨"", some ⟨message, causes⟩⟩

/-- Goes on with the result of a step, if it has one. -/
def orFail {ε α : Type} (message : ε → String) (result : Except ε α) (next : α → Session) :
    Session :=
  match result with
  | .ok a => next a
  | .error e => fail (message e) []

/-- Reads a settings file. -/
def readSettings (file : Option String) (next : Settings → Session) : Session :=
  match file with
  | none => next .standard
  | some name =>
    read (.file name) fun
      | .ok text => orFail SettingsError.message (Settings.ofToml text) next
      | .error reason => fail ("failed to read " ++ name ++ ": " ++ reason) [reason]

/-- Reads an input as JSON. -/
def readJson (input : String) (next : Json → Session) : Session :=
  let name := if input = "-" then "stdin" else input
  read (if input = "-" then .standardInput else .file input) fun
    | .error reason => fail ("failed to read " ++ name) [reason]
    | .ok text =>
      match Json.read? text with
      | some j => next j
      | none => fail (input ++ " is not valid JSON") []

/-- Reads the time at which a record is built, which is the present unless another is given. -/
def readTime (now : Timestamp) (time : Option String) (next : Timestamp → Session) : Session :=
  match time with
  | none => next now
  | some text => orFail Timestamp.Invalid.message (Timestamp.parse text) next

/-- Builds a record of properties. -/
def readRecord (now : Timestamp) (kind : RecordKind) (input : String) (time : Option String)
    (next : KindedRecord → Session) : Session :=
  readTime now time fun now =>
    readJson input fun props =>
      orFail BuildError.message (KindedRecord.build kind props now) next

/-! ## Commands -/

/-- JSON as it is printed: indented, with the members of objects in the order of their names. -/
def jsonText (j : Json) : String :=
  j.sorted.pretty ++ "\n"

/-- Tells the identifier and the version of the record of properties. -/
def id (r : KindedRecord) : OutputFormat → Session
  | .json => succeed <| jsonText <| .object [
      ("kind", .text r.kind.name), ("id", .text r.id.toHex),
      ("versionId", (r.version?.map fun v => .text v.toHex).getD .null)]
  | .text => succeed <| "✓ " ++ r.kind.name ++ " " ++ r.id.toHex ++ "\n" ++
      (r.version?.map fun v => "  version: " ++ v.toHex ++ "\n").getD ""

/-- Prints the document of a record. -/
def document (r : KindedRecord) : Session :=
  orFail MapperError.message r.toJson fun j => succeed (jsonText j)

/-- The violations of a record. -/
def violations (r : KindedRecord) : List Violation :=
  match r.validate with
  | .ok () => []
  | .error e => e.violations

/-- The findings about a record with some violations. -/
def findings (r : KindedRecord) (broken : List Violation) : OutputFormat → String
  | .json => jsonText <| .object [
      ("kind", .text r.kind.name), ("id", .text r.id.toHex), ("valid", .bool broken.isEmpty),
      ("violations", .array (broken.map fun v =>
        .object [("field", .text v.field), ("reason", .text v.reason)]))]
  | .text =>
    if broken.isEmpty then "✓ valid " ++ r.kind.name ++ " " ++ r.id.shortHex ++ "\n"
    else "✗ invalid " ++ r.kind.name ++ "\n" ++
      String.join (broken.map fun v => "  " ++ v.field ++ ": " ++ v.reason ++ "\n")

/-- Checks a record; one with violations is a failure. -/
def validate (r : KindedRecord) (format : OutputFormat) : Session :=
  let broken := violations r
  let count := String.ofList (Text.Digits.ofNat broken.length)
  done ⟨findings r broken format,
    if broken.isEmpty then none else some ⟨count ++ " violation(s)", []⟩⟩

/-- The listing of configurations that depend on a job. -/
def listing (service source : String) (hits : List Config) : OutputFormat → String
  | .json => jsonText <| .array <| hits.map fun c =>
      .object [("id", .text c.id.toHex), ("service", .text c.service), ("source", .text c.source),
        ("provider", .text c.provider)]
  | .text =>
    if hits.isEmpty then "No configuration depends on " ++ service ++ "/" ++ source ++ ".\n"
    else String.join <| hits.map fun c =>
      c.id.shortHex ++ " " ++ c.service ++ "/" ++ c.source ++ " (" ++ c.provider ++ ")\n"

/-- The properties of configurations in an array. -/
def configList (j : Json) : Except DecodeError (List ConfigProps) :=
  (Layout.ofProperties (.list ConfigProps.layout) j).map (List.map ConfigProps.ofFields)

/-- Lists the configurations of an input that depend on the outputs of a job. -/
def dependents (s : Settings) (now : Timestamp) (configs service source : String)
    (format : OutputFormat) : Session :=
  readJson configs fun j =>
    match configList j with
    | .error e => fail (configs ++ " is not an array of configurations") [e.propertiesMessage]
    | .ok props =>
      match JobRegistry.dependents s (props.map (Submission.mk now)) service source with
      | .error e => done ⟨"", some (failureOf e)⟩
      | .ok hits => succeed (listing service source hits format)

/-- The JSON of settings. -/
def settingsJson (s : Settings) : Json :=
  .object [
    ("request_timeout_ms", (Number.Ranged.ofInt? _ _ s.requestTimeoutMs).elim .null .whole),
    ("log_level", .text s.logLevel),
    ("collections", .object ((Settings.named s.collections).map fun n => (n.1, .text n.2)))]

/-- Prints settings. -/
def settings (s : Settings) : OutputFormat → Session
  | .json => succeed (jsonText (settingsJson s))
  | .text => orFail SettingsError.message s.toToml succeed

/-- The session of an invocation at some present. -/
def ofInvocation (now : Timestamp) (i : Invocation) : Session :=
  readSettings i.settingsFile fun s =>
    match i.command with
    | .id kind input time => readRecord now kind input time fun r => id r i.format
    | .document kind input time => readRecord now kind input time document
    | .validate kind input =>
      readJson input fun j =>
        orFail MapperError.message (KindedRecord.ofJson kind j) fun r => validate r i.format
    | .dependents configs service source => dependents s now configs service source i.format
    | .settings => settings s i.format

/-- The outcome of a session over sources with known contents, or known reasons why they cannot be
read. -/
def run (contents : Source → Except String String) : Session → Outcome
  | done o => o
  | read s next => run contents (next (contents s))

end Session

end JobRegistry.CommandLine
