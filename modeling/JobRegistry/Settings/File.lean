import JobRegistry.Settings.Basic
import JobRegistry.Toml.Reader

/-!
# Settings files

Settings are kept in TOML documents. `Settings.ofToml` reads one, in which every key may be missing
and no other key may stand, and refuses unsound settings; `Settings.toToml` writes one.

The table of collections may be written as a table, as an inline table, with dotted keys, or as an
array of the names in order.
-/

namespace JobRegistry

open Text

/-- Why settings cannot be read or written. -/
inductive SettingsError
  /-- The text is no TOML document, or not one of settings. -/
  | parse
  /-- The timeout is beyond the integers of TOML. -/
  | render
  | invalid (fault : SettingsFault)
  deriving DecidableEq, Repr

/-- The wording of an error. -/
def SettingsError.message : SettingsError → String
  | .parse => "failed to parse vault config"
  | .render => "failed to render vault config"
  | .invalid fault => "invalid vault config: " ++ fault.message

namespace CollectionNames

/-- The names with one of them replaced, if there is one under the key. -/
def set? (c : CollectionNames) (key name : String) : Option CollectionNames :=
  if key = "configs" then some { c with configs := name }
  else if key = "outputs" then some { c with outputs := name }
  else if key = "schemas" then some { c with schemas := name }
  else if key = "inputs" then some { c with inputs := name }
  else none

/-- The names of a table. -/
def ofEntries? : CollectionNames → List (List String × Toml) → Option CollectionNames
  | c, [] => some c
  | c, ([key], .text name) :: rest =>
    match c.set? key name with
    | some c => ofEntries? c rest
    | none => none
  | _, _ => none

/-- The names of an array, for the keys that are left. -/
def ofItems? : CollectionNames → List String → List Toml → Option CollectionNames
  | c, key :: keys, .text name :: rest =>
    match c.set? key name with
    | some c => ofItems? c keys rest
    | none => none
  | _, _ :: _, _ :: _ => none
  | c, [], _ => some c
  | c, _, [] => some c

end CollectionNames

namespace Settings

/-- The key of the table of collections. -/
def collectionsKey : String := "collections"

/-- The entries of a document with their paths from the outermost table. The table of collections
is the only one with a header. It has one header at most, and none after entries of it. -/
def entriesOf? :
    List String → List (List String × Toml) → List Toml.Statement →
      Option (List (List String × Toml))
  | _, before, [] => some before
  | table, before, .entry path v :: rest => entriesOf? table (before ++ [(table ++ path, v)]) rest
  | table, before, .header path :: rest =>
    if path = [collectionsKey] ∧ table = [] ∧ before.all (fun e => !Toml.inConflict path e.1) then
      entriesOf? path before rest
    else none
  | _, _, .arrayHeader _ :: _ => none

/-- The settings changed by an entry. -/
def set? (s : Settings) (path : List String) (v : Toml) : Option Settings :=
  match path, v with
  | ["request_timeout_ms"], .whole n =>
    if 0 ≤ n.1 then some { s with requestTimeoutMs := n.1.toNat } else none
  | ["log_level"], .text level => some { s with logLevel := level }
  | [table], .table entries =>
    if table = collectionsKey then
      (s.collections.ofEntries? entries).map fun c => { s with collections := c }
    else none
  | [table], .array items =>
    if table = collectionsKey then
      (s.collections.ofItems? ["configs", "outputs", "schemas", "inputs"] items).map fun c =>
        { s with collections := c }
    else none
  | [table, key], .text name =>
    if table = collectionsKey then
      (s.collections.set? key name).map fun c => { s with collections := c }
    else none
  | _, _ => none

/-- The settings changed by entries. -/
def setAll? : Settings → List (List String × Toml) → Option Settings
  | s, [] => some s
  | s, (path, v) :: rest =>
    match s.set? path v with
    | some s => setAll? s rest
    | none => none

/-- The settings of the statements of a document, sound or not. -/
def ofStatements? (statements : List Toml.Statement) : Option Settings :=
  match entriesOf? [] [] statements with
  | some entries => if Toml.isConsistent entries then standard.setAll? entries else none
  | none => none

/-- Settings that are sound. -/
def checked (s : Settings) : Except SettingsError Settings :=
  match s.fault? with
  | some fault => .error (.invalid fault)
  | none => .ok s

/-- Reads settings from a TOML document. -/
def ofToml (text : String) : Except SettingsError Settings :=
  match (Toml.read? text).bind ofStatements? with
  | some s => s.checked
  | none => .error .parse

/-- A line of a document that gives a key a text. -/
def textLine (key value : String) : List Char :=
  key.toList ++ " = ".toList ++ Toml.write value ++ ['\n']

/-- The text of a document of settings. -/
def chars (s : Settings) : List Char :=
  "request_timeout_ms = ".toList ++ Digits.ofNat s.requestTimeoutMs ++ ['\n'] ++
    textLine "log_level" s.logLevel ++ "\n[collections]\n".toList ++
    (named s.collections).flatMap fun entry => textLine entry.1 entry.2

/-- Writes settings as a TOML document. -/
def toToml (s : Settings) : Except SettingsError String :=
  if s.requestTimeoutMs ≤ 9223372036854775807 then .ok (String.ofList s.chars) else .error .render

end Settings

end JobRegistry
