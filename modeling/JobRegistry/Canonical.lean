import JobRegistry.Json.Printer
import JobRegistry.RecordId
import JobRegistry.Sorted
import JobRegistry.Timestamp

/-!
# Canonical values

The values from which identities are derived, and their one canonical text. Texts and keys are
written as literals, so that no separator inside a value can pass for one between values; items
are separated by commas; every entry of a map is closed by a semicolon. Maps are made by
`Canonical.ofEntries`, which puts the keys into order and keeps the last value of each key, so that
the text does not depend on the order in which a map was built.

`Canonical.ofJson` gives a JSON tree its canonical value. Integers are kept if they fit sixty-four
bits with a sign; every other number becomes the text of its numeral.
-/

namespace JobRegistry

open Number Text

/-- A canonical value. -/
inductive Canonical
  | null
  | bool (b : Bool)
  | int (n : Signed64)
  | text (s : String)
  | seq (items : List Canonical)
  | map (entries : List (String × Canonical))

namespace Canonical

mutual

/-- The canonical text of a value. -/
def chars : Canonical → List Char
  | .null => "null".toList
  | .bool true => "true".toList
  | .bool false => "false".toList
  | .int n => Digits.ofInt n.1
  | .text s => literal s
  | .seq items => '[' :: (seqChars items ++ [']'])
  | .map entries => '\x7b' :: (mapChars entries ++ ['\x7d'])

/-- Items with commas between them. -/
def seqChars : List Canonical → List Char
  | [] => []
  | [v] => v.chars
  | v :: rest => v.chars ++ ',' :: seqChars rest

/-- Entries, each closed by a semicolon. -/
def mapChars : List (String × Canonical) → List Char
  | [] => []
  | (key, v) :: rest => literal key ++ ':' :: (v.chars ++ ';' :: mapChars rest)

end

/-- The canonical text of a value. -/
def render (v : Canonical) : String :=
  String.ofList v.chars

/-- The map with the given entries, of which a later one replaces an earlier one of its key. -/
def ofEntries (entries : List (String × Canonical)) : Canonical :=
  .map (Sorted.ofList Sorted.textBefore entries)

/-- The canonical value of a map in the order of its keys, by those of its values. -/
def ofMap {α : Type} (value : α → Canonical) (map : List (String × α)) : Canonical :=
  ofEntries (map.map fun entry => (entry.1, value entry.2))

/-- An identifier stands for its text form. -/
def ofId (id : RecordId) : Canonical :=
  .text id.toHex

/-- A timestamp stands for its text form. -/
def ofTimestamp (t : Timestamp) : Canonical :=
  .text t.format

/-- An absent value is null. -/
def ofOption (v : Option Canonical) : Canonical :=
  v.getD .null

/-- An integer that fits is kept, any other becomes its numeral. -/
def ofWhole (n : Whole64) : Canonical :=
  match Ranged.ofInt? _ _ n.1 with
  | some m => .int m
  | none => .text (String.ofList (Digits.ofInt n.1))

mutual

/-- The canonical value of a JSON tree. -/
def ofJson : Json → Canonical
  | .null => .null
  | .bool b => .bool b
  | .whole n => ofWhole n
  | .real x => .text (String.ofList (Json.realText x))
  | .text s => .text s
  | .array items => .seq (ofItems items)
  | .object members => ofEntries (ofMembers members)

/-- The canonical values of items. -/
def ofItems : List Json → List Canonical
  | [] => []
  | j :: rest => ofJson j :: ofItems rest

/-- The canonical values of members. -/
def ofMembers : List (String × Json) → List (String × Canonical)
  | [] => []
  | (name, j) :: rest => (name, ofJson j) :: ofMembers rest

end

end Canonical

end JobRegistry
