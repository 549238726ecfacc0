import JobRegistry.CommandLine.Session

/-!
# Trees of files

What a session reads when the files are known in advance. Places are paths from the root, one name
after another. A path that is read is walked from the root or from the working directory, name by
name: only directories are walked through, `.` stays where it is and `..` goes one up. A slash at
the end of a path asks for a directory.
-/

namespace JobRegistry.CommandLine

/-- Why a path cannot be read. -/
inductive FileFault
  | missing
  | denied
  | notDirectory
  | isDirectory
  | nameTooLong
  deriving DecidableEq, Repr

namespace FileFault

/-- The number by which systems know a fault. -/
def number : FileFault → Nat
  | .missing => 2
  | .denied => 13
  | .notDirectory => 20
  | .isDirectory => 21
  | .nameTooLong => 36

/-- The fault of a number. -/
def ofNumber? (n : Nat) : Option FileFault :=
  [missing, denied, notDirectory, isDirectory, nameTooLong].find? fun fault => fault.number = n

/-- What a fault says. -/
def words : FileFault → String
  | .missing => "No such file or directory"
  | .denied => "Permission denied"
  | .notDirectory => "Not a directory"
  | .isDirectory => "Is a directory"
  | .nameTooLong => "File name too long"

/-- The wording of a fault. -/
def message (fault : FileFault) : String :=
  fault.words ++ " (os error " ++ String.ofList (Text.Digits.ofNat fault.number) ++ ")"

end FileFault

/-- Names, each of a file or directory in the one before. -/
abbrev Place := List String

/-- What stands at a place. -/
inductive Entry
  | file (text : String)
  | directory
  deriving DecidableEq, Repr

/-- Files and directories at places. What has an entry in it is a directory too. -/
structure FileTree where
  files : List (Place × String)
  directories : List Place
  /-- The working directory. -/
  here : Place
  deriving DecidableEq, Repr

/-- The pieces of characters between slashes. -/
def splitSlash : List Char → List (List Char)
  | [] => [[]]
  | c :: rest =>
    if c = '/' then [] :: splitSlash rest
    else
      match splitSlash rest with
      | piece :: pieces => (c :: piece) :: pieces
      | [] => [[c]]

/-- The names along a path. -/
def pathNames (path : String) : List String :=
  ((splitSlash path.toList).filter fun piece => !piece.isEmpty).map String.ofList

/-- The most bytes of a name. -/
def maxNameBytes : Nat := 255

/-- The most bytes of a path. -/
def maxPathBytes : Nat := 4095

namespace FileTree

/-- What stands at a place. -/
def entry? (t : FileTree) (place : Place) : Option Entry :=
  match t.files.lookup place with
  | some text => some (.file text)
  | none =>
    let places := t.here :: t.directories ++ t.files.map Prod.fst
    if places.any fun other => place.isPrefixOf other then some .directory else none

/-- Walks names from a place with an entry. -/
def walk (t : FileTree) : Place → Entry → List String → Except FileFault Entry
  | _, e, [] => .ok e
  | _, .file _, _ :: _ => .error .notDirectory
  | place, .directory, name :: rest =>
    if name = "." then t.walk place .directory rest
    else if name = ".." then t.walk place.dropLast .directory rest
    else if name.utf8ByteSize > maxNameBytes then .error .nameTooLong
    else
      match t.entry? (place ++ [name]) with
      | some e => t.walk (place ++ [name]) e rest
      | none => .error .missing

/-- What a path leads to. -/
def find (t : FileTree) (path : String) : Except FileFault Entry :=
  let start := if path.startsWith "/" then [] else t.here
  let last := if path.endsWith "/" then ["."] else []
  if path.isEmpty then .error .missing
  else if path.utf8ByteSize > maxPathBytes then .error .nameTooLong
  else t.walk start .directory (pathNames path ++ last)

/-- The text of the file that a path leads to. -/
def read (t : FileTree) (path : String) : Except FileFault String :=
  match t.find path with
  | .ok (.file text) => .ok text
  | .ok .directory => .error .isDirectory
  | .error e => .error e

/-- What sources hold when the files are those of a tree. -/
def contents (t : FileTree) (input : String) : Source → Except String String
  | .standardInput => .ok input
  | .file path => (t.read path).mapError FileFault.message

end FileTree

end JobRegistry.CommandLine
