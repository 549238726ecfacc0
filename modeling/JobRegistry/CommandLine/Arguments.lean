import JobRegistry.Record.Basic

/-!
# Arguments of the command line

What the words after the program's name ask for. The options `--format` and `--config` and the flag
`--verbose` may stand before the command and after it, where those after it win; every other option
belongs to its command. The value of an option follows it, after an equals sign or as the next
word. On one side of the command no option may be given twice. After a lone `--` every word of a
command is taken as it is.

Words are read from left to right, and the first request for help or the first mistake decides. A
value that is a word of its own is checked when the word after it is read, but the command itself
does not wait for that: an option right before the command is checked after the command's words.
-/

namespace JobRegistry.CommandLine

/-- How answers are printed. -/
inductive OutputFormat
  | text
  | json
  deriving DecidableEq, Repr

/-- What the program is asked to do. An input is the name of a file, or `-`. -/
inductive Command
  /-- Tell the identifier and the version of the record of properties. -/
  | id (kind : RecordKind) (input : String) (time : Option String)
  /-- Print the document of the record of properties. -/
  | document (kind : RecordKind) (input : String) (time : Option String)
  /-- Check the record that a document holds. -/
  | validate (kind : RecordKind) (input : String)
  /-- List the configurations of a file that depend on the outputs of a job. -/
  | dependents (configs service source : String)
  /-- Print the settings. -/
  | settings
  deriving DecidableEq, Repr

/-- A command with the options that hold for all commands. -/
structure Invocation where
  command : Command
  format : OutputFormat
  /-- The settings file. -/
  settingsFile : Option String
  deriving DecidableEq, Repr

/-- What comes of the words of a command line. -/
inductive Parsed
  | run (i : Invocation)
  | help
  | misuse
  deriving DecidableEq, Repr

/-- Why words are not read to their end. -/
inductive Stop
  | help
  | misuse
  deriving DecidableEq, Repr

/-- A result without which the words are misused. -/
def orMisuse {α : Type} : Option α → Except Stop α
  | some a => .ok a
  | none => .error .misuse

/-! ## Options -/

/-- The options that have values. -/
inductive ValueOption
  | format
  | settingsFile
  | time
  | configs
  deriving DecidableEq, Repr

/-- The name of an option, which is written after two dashes. -/
def ValueOption.name : ValueOption → String
  | .format => "format"
  | .settingsFile => "config"
  | .time => "at"
  | .configs => "configs"

/-- The format of a name. -/
def OutputFormat.ofName? : String → Option OutputFormat
  | "text" => some .text
  | "json" => some .json
  | _ => none

/-- The options on one side of the command. -/
structure Options where
  verbose : Bool
  format : Option OutputFormat
  settingsFile : Option String
  time : Option String
  configs : Option String
  deriving DecidableEq, Repr

namespace Options

/-- No options. -/
def empty : Options := ⟨false, none, none, none, none⟩

/-- Adds an option, which may not be there yet. A format has to be one, and the name of the settings
file is not empty. -/
def add? (o : Options) : ValueOption → String → Option Options
  | .format, value =>
    if o.format.isSome then none
    else (OutputFormat.ofName? value).map fun f => { o with format := some f }
  | .settingsFile, value =>
    if o.settingsFile.isSome ∨ value.isEmpty then none
    else some { o with settingsFile := some value }
  | .time, value => if o.time.isSome then none else some { o with time := some value }
  | .configs, value => if o.configs.isSome then none else some { o with configs := some value }

/-- Adds the flag, which may not be there yet. -/
def addVerbose? (o : Options) : Option Options :=
  if o.verbose then none else some { o with verbose := true }

end Options

/-! ## Commands -/

/-- The names of commands. -/
inductive CommandName
  | id
  | document
  | validate
  | dependents
  | settings
  deriving DecidableEq, Repr

namespace CommandName

/-- The command of a name. -/
def ofName? : String → Option CommandName
  | "id" => some .id
  | "document" => some .document
  | "validate" => some .validate
  | "dependents" => some .dependents
  | "config" => some .settings
  | _ => none

/-- The options that belong to a command. -/
def options : CommandName → List ValueOption
  | .id => [.time]
  | .document => [.time]
  | .validate => []
  | .dependents => [.configs]
  | .settings => []

/-- Whether the words of a command may begin like this. -/
def mayBegin : CommandName → List String → Bool
  | _, [] => true
  | .settings, _ => false
  | .dependents, words => words.length ≤ 2
  | _, kind :: words => (RecordKind.ofName? kind).isSome && words.length ≤ 1

/-- The kind and the input among the words of a command. -/
def kindAndInput? : List String → Option (RecordKind × String)
  | [kind] => (RecordKind.ofName? kind).map fun k => (k, "-")
  | [kind, input] => (RecordKind.ofName? kind).map fun k => (k, input)
  | _ => none

/-- The command of a name with its options and words. -/
def command? (name : CommandName) (o : Options) (words : List String) : Option Command :=
  match name, words with
  | .id, words => (kindAndInput? words).map fun w => .id w.1 w.2 o.time
  | .document, words => (kindAndInput? words).map fun w => .document w.1 w.2 o.time
  | .validate, words => (kindAndInput? words).map fun w => .validate w.1 w.2
  | .dependents, [service, source] =>
    o.configs.map fun configs => .dependents configs service source
  | .settings, [] => some .settings
  | _, _ => none

end CommandName

/-- The side of the command on which a word stands. -/
inductive Side
  | before
  | after (command : CommandName)
  deriving DecidableEq, Repr

/-- The options with values on a side. -/
def Side.options : Side → List ValueOption
  | .before => [.format, .settingsFile]
  | .after command => command.options ++ [.format, .settingsFile]

/-! ## Words -/

/-- What one word of a command line is. -/
inductive Token
  /-- Neither an option nor a flag. -/
  | plain
  /-- Two dashes alone. -/
  | separator
  /-- An option whose value is the next word. -/
  | awaiting (option : ValueOption)
  | option (option : ValueOption) (value : String)
  | verbose
  /-- A single dash and letters. -/
  | letters (cs : List Char)
  | help
  | unknown
  deriving DecidableEq, Repr

/-- The characters before the first equals sign, and those after it if there is one. -/
def splitEquals : List Char → List Char × Option (List Char)
  | [] => ([], none)
  | c :: rest =>
    if c = '=' then ([], some rest)
    else
      let (name, value) := splitEquals rest
      (c :: name, value)

namespace Side

/-- The option of a name. -/
def option? (side : Side) (name : String) : Option ValueOption :=
  side.options.find? fun option => option.name = name

/-- What a word after two dashes is. The version is told before the command only. -/
def long (side : Side) (word : List Char) : Token :=
  let (nameChars, value?) := splitEquals word
  let name := String.ofList nameChars
  match side.option? name, value? with
  | some option, some value => .option option (String.ofList value)
  | some option, none => .awaiting option
  | none, some _ => .unknown
  | none, none =>
    if name = "verbose" then .verbose
    else if name = "help" ∨ (side = .before ∧ name = "version") then .help
    else .unknown

/-- What a word is. -/
def token (side : Side) (word : String) : Token :=
  match word.toList with
  | ['-', '-'] => .separator
  | '-' :: '-' :: word => side.long word
  | '-' :: c :: letters => .letters (c :: letters)
  | _ => .plain

end Side

/-- Whether a word may be the value of the option before it. -/
def isValue (word : String) : Bool :=
  match word.toList with
  | '-' :: _ :: _ => false
  | _ => true

/-! ## Reading -/

/-- Words that have been told apart. -/
structure Scanned where
  options : Options
  /-- The last option, if its value is a word of its own: it is not checked yet. -/
  unchecked : Option (ValueOption × String)
  /-- The words that are neither options nor values. -/
  words : List String
  deriving DecidableEq, Repr

namespace Scanned

/-- Nothing. -/
def empty : Scanned := ⟨.empty, none, []⟩

/-- Adds an option. -/
def withOption (s : Scanned) (option : ValueOption) (value : String) : Except Stop Scanned :=
  (orMisuse (s.options.add? option value)).map fun o => { s with options := o }

/-- Adds the flag. -/
def withVerbose (s : Scanned) : Except Stop Scanned :=
  (orMisuse s.options.addVerbose?).map fun o => { s with options := o }

/-- Checks the last option. -/
def settle (s : Scanned) : Except Stop Scanned :=
  match s.unchecked with
  | none => .ok s
  | some (option, value) => { s with unchecked := none }.withOption option value

/-- Adds the flags among letters. The version is told before the command only. -/
def withLetters (s : Scanned) (side : Side) : List Char → Except Stop Scanned
  | [] => .ok s
  | c :: rest =>
    if c = 'v' then s.withVerbose.bind fun s => s.withLetters side rest
    else if c = 'h' ∨ (side = .before ∧ c = 'V') then .error .help
    else .error .misuse

/-- Adds a word, which only a command has. -/
def withWord (s : Scanned) (side : Side) (word : String) : Except Stop Scanned :=
  match side with
  | .before => .error .misuse
  | .after command =>
    if command.mayBegin (s.words ++ [word]) then .ok { s with words := s.words ++ [word] }
    else .error .misuse

end Scanned

/-- Tells options and words apart. Before the command the first word ends it, and the words after
that one are answered too. An option that waits for its value may be given. -/
def scan (side : Side) :
    Option ValueOption → List String → Scanned → Except Stop (Scanned × List String)
  | none, [], s => .ok (s, [])
  | some _, [], _ => .error .misuse
  | some option, word :: rest, s =>
    if isValue word then scan side none rest { s with unchecked := some (option, word) }
    else .error .misuse
  | none, word :: rest, s =>
    if side = .before ∧ side.token word = .plain then .ok ({ s with words := [word] }, rest)
    else
      match s.settle with
      | .error stop => .error stop
      | .ok s =>
        match side.token word with
        | .plain => (s.withWord side word).bind fun s => scan side none rest s
        | .separator =>
          if side = .before then .error .misuse
          else .ok ({ s with words := s.words ++ rest }, [])
        | .awaiting option => scan side (some option) rest s
        | .option option value => (s.withOption option value).bind fun s => scan side none rest s
        | .verbose => s.withVerbose.bind fun s => scan side none rest s
        | .letters cs => (s.withLetters side cs).bind fun s => scan side none rest s
        | .help => .error .help
        | .unknown => .error .misuse

/-- What is asked for by the words after `help`: there is help about the program and about each of
its commands, of which `help` is one. -/
def helpAbout : List String → Stop
  | [] => .help
  | [word] => if word = "help" ∨ (CommandName.ofName? word).isSome then .help else .misuse
  | _ => .misuse

/-- What words ask for. -/
def invocation (args : List String) : Except Stop Invocation := do
  let (outer, rest) ← scan .before none args .empty
  match outer.words with
  | [word] =>
    if word = "help" then .error (helpAbout rest)
    else
      let name ← orMisuse (CommandName.ofName? word)
      let (inner, _) ← scan (.after name) none rest .empty
      let inner ← inner.settle
      let command ← orMisuse (name.command? inner.options inner.words)
      let outer ← outer.settle
      return {
        command
        format := (inner.options.format.or outer.options.format).getD .text
        settingsFile := inner.options.settingsFile.or outer.options.settingsFile }
  | _ => .error .misuse

/-- What words ask for. -/
def parse (args : List String) : Parsed :=
  match invocation args with
  | .ok i => .run i
  | .error .help => .help
  | .error .misuse => .misuse

end JobRegistry.CommandLine
