import JobRegistry.Document.Basic
import JobRegistry.Text.Message

/-!
# Faults of the mapper

Why a value could not be written into a document (`EncodeError`) or read from one (`DecodeError`).
A fault at a place in a document carries the path to it, kept as data: the keys and indices from
the outside in. A variant or field of unknown name is reported by its name alone.

Every fault is worded in two ways, for trees that are documents and for trees that are JSON
properties (`DecodeError.message`, `DecodeError.propertiesMessage`).
-/

namespace JobRegistry

open Number Text

/-- One step into a tree. -/
inductive Step
  | key (name : String)
  | index (i : Nat)
  deriving DecidableEq, Repr

/-- The way from the outermost document to a value. -/
abbrev Path := List Step

namespace Path

/-- The text of one step. -/
def stepText : Step → List Char
  | .key name => name.toList
  | .index i => '[' :: (Digits.ofNat i ++ [']'])

/-- Puts an outer step before the text of a path: an index follows at once, a key after a dot. -/
def join (outer : List Char) : List Char → List Char
  | [] => outer
  | '[' :: rest => outer ++ '[' :: rest
  | inner => outer ++ '.' :: inner

/-- The text of a path. -/
def render : Path → List Char
  | [] => []
  | step :: rest => join (stepText step) (render rest)

end Path

/-- What was found where something else was expected. -/
inductive Found
  | null
  | bool (b : Bool)
  | integer (n : Int)
  | real (x : Double)
  | text (s : String)
  | sequence
  | map
  /-- A variant without a payload. -/
  | bareVariant
  /-- Any value of a kind. -/
  | kind (name : String)
  deriving DecidableEq

namespace Found

/-- The wording that does not depend on what the tree is. -/
def phrase (null : String) (real : Double → String) : Found → String
  | .null => null
  | .bool b => "boolean " ++ (if b then "`true`" else "`false`")
  | .integer n => "integer `" ++ String.ofList (Digits.ofInt n) ++ "`"
  | .real x => "floating point `" ++ real x ++ "`"
  | .text s => "string " ++ quote s
  | .sequence => "sequence"
  | .map => "map"
  | .bareVariant => "unit variant"
  | .kind name => name

/-- What a value of a document is called. -/
def inDocument : Found → String :=
  phrase "unit value" Floating.shown

/-- What a value of JSON properties is called. -/
def inProperties : Found → String :=
  phrase "null" fun x => String.ofList (Json.realText x)

end Found

/-- A value that does not suit its layout. -/
inductive Mismatch
  /-- It is of another type. -/
  | type (found : Found) (expected : String)
  /-- It is of the right type, but not one of its values. -/
  | value (found : Found) (expected : String)
  /-- It is a sequence of the wrong length. -/
  | length (n : Nat) (expected : String)
  deriving DecidableEq

/-- Why a tree could not be read as a value of a layout. -/
inductive DecodeError
  /-- The record at the path lacks a field. -/
  | missing (path : Path) (tag : String)
  /-- The value at the path does not suit its layout. -/
  | mismatch (path : Path) (cause : Mismatch)
  | unknownVariant (name : String) (known : List String)
  | unknownField (name : String) (known : List String)
  deriving DecidableEq

/-- Why a value could not be written into a document. -/
inductive EncodeError
  /-- The key of a map is no text. -/
  | keyNotText
  /-- The integer needs the sixty-fourth bit for its magnitude. -/
  | integerOutOfRange (n : Nat)
  /-- Integers of this many bits are not kept in documents. -/
  | unsupported (signed : Bool) (bits : Nat)
  /-- The value of an entry came before its key. -/
  | valueBeforeKey
  deriving DecidableEq, Repr

namespace DecodeError

/-- The same fault, seen from one step further out. -/
def within (step : Step) : DecodeError → DecodeError
  | .missing path tag => .missing (step :: path) tag
  | .mismatch path cause => .mismatch (step :: path) cause
  | e => e

/-- A value of the wrong type. -/
def wrongType (found : Found) (expected : String) : DecodeError :=
  .mismatch [] (.type found expected)

/-- Names in backquotes, the last after `or`. -/
def alternatives : List String → String
  | [] => ""
  | [a] => "`" ++ a ++ "`"
  | [a, b] => "`" ++ a ++ "` or `" ++ b ++ "`"
  | names => "one of " ++ ", ".intercalate (names.map fun name => "`" ++ name ++ "`")

/-- The wording of an unknown name. -/
def unknownMessage (what name : String) (known : List String) : String :=
  "unknown " ++ what ++ " `" ++ name ++ "`, " ++
    if known.isEmpty then "there are no " ++ what ++ "s" else "expected " ++ alternatives known

/-- The text of the path to a missing field. -/
def missingPath (path : Path) (tag : String) : String :=
  String.ofList (Path.render (path ++ [.key tag]))

/-- The wording for a tree that is a document. -/
def message : DecodeError → String
  | .missing path tag => "missing field `" ++ missingPath path tag ++ "`"
  | .mismatch path cause =>
    let (found, expected) := match cause with
      | .type found expected => (found.inDocument, expected)
      | .value found expected => (found.inDocument, expected)
      | .length n expected =>
        ("a sequence of length " ++ String.ofList (Digits.ofNat n), expected)
    "type mismatch at `" ++ String.ofList (Path.render path) ++ "`: expected " ++ expected ++
      ", found " ++ found
  | .unknownVariant name known => unknownMessage "variant" name known
  | .unknownField name known => unknownMessage "field" name known

/-- The wording for a tree that is JSON properties, which does not tell the place. -/
def propertiesMessage : DecodeError → String
  | .missing _ tag => "missing field `" ++ tag ++ "`"
  | .mismatch _ (.type found expected) =>
    "invalid type: " ++ found.inProperties ++ ", expected " ++ expected
  | .mismatch _ (.value found expected) =>
    "invalid value: " ++ found.inProperties ++ ", expected " ++ expected
  | .mismatch _ (.length n expected) =>
    "invalid length " ++ String.ofList (Digits.ofNat n) ++ ", expected " ++ expected
  | .unknownVariant name known => unknownMessage "variant" name known
  | .unknownField name known => unknownMessage "field" name known

end DecodeError

/-- The wording of a fault in writing. -/
def EncodeError.message : EncodeError → String
  | .keyNotText => "document keys must be strings"
  | .integerOutOfRange n =>
    "integer " ++ String.ofList (Digits.ofNat n) ++ " out of range for a document value"
  | .unsupported signed bits =>
    (if signed then "i" else "u") ++ String.ofList (Digits.ofNat bits) ++ " is not supported"
  | .valueBeforeKey => "serialize_value called before serialize_key"

/-- Any fault of the mapper. -/
inductive MapperError
  | encode (e : EncodeError)
  | decode (e : DecodeError)
  /-- The outermost value is no document. -/
  | notARecord (kind : String)
  deriving DecidableEq

namespace MapperError

/-- The wording of a fault. -/
def message : MapperError → String
  | .encode e => e.message
  | .decode e => e.message
  | .notARecord kind => "expected a record, found " ++ kind

/-- The class to which a fault belongs. -/
def category : MapperError → String
  | .encode .keyNotText => "NonStringKey"
  | .encode (.integerOutOfRange _) => "IntegerOutOfRange"
  | .encode (.unsupported _ _) => "Custom"
  | .encode .valueBeforeKey => "Custom"
  | .decode (.missing _ _) => "MissingField"
  | .decode (.mismatch _ _) => "TypeMismatch"
  | .decode (.unknownVariant _ _) => "Custom"
  | .decode (.unknownField _ _) => "Custom"
  | .notARecord _ => "NotARecord"

end MapperError

end JobRegistry
