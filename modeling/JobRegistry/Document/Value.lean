import JobRegistry.Json.Printer
import JobRegistry.Json.Reader

/-!
# Values of documents

What a document holds under its keys. The entries of a nested document keep the order in which
their keys were first put there: `putEntry` replaces the value of a key where it stands and appends
a new key at the end.

A JSON tree becomes a value in one of two ways, in both of which integers that do not fit sixty-four
bits with a sign become floats. `Value.ofJson` is for trees in normal form: the entries of a
document are the members of the object as they stand. `Value.ofWritten` takes a tree as it is
written: the members are put one after another, and an integer is looked at for its sign first.
`Value.tree` is the way back that keeps the order of the entries, and `Value.toJson` the one that
ends in the normal form of JSON trees.
-/

namespace JobRegistry

open Number

/-- A value of a document. -/
inductive Value
  | null
  | bool (b : Bool)
  | int (n : Signed64)
  | float (x : Double)
  | text (s : String)
  | array (items : List Value)
  | document (entries : List (String × Value))

/-- The entries of a document. -/
abbrev Entries := List (String × Value)

namespace Entries

/-- The value of a key. -/
def get? (key : String) : Entries → Option Value
  | [] => none
  | (k, v) :: rest => if k = key then some v else get? key rest

/-- Puts a value under a key: in the place of the value before it, or else at the end. -/
def put (key : String) (v : Value) : Entries → Entries
  | [] => [(key, v)]
  | (k, old) :: rest => if k = key then (k, v) :: rest else (k, old) :: put key v rest

/-- Drops the entry of a key. -/
def drop (key : String) : Entries → Entries
  | [] => []
  | (k, old) :: rest => if k = key then rest else (k, old) :: drop key rest

/-- Puts a value under a key as `put` does and answers the value that was in its place. -/
def exchange (key : String) (v : Value) : Entries → Option Value × Entries
  | [] => (none, [(key, v)])
  | (k, old) :: rest =>
    if k = key then (some old, (k, v) :: rest)
    else
      let (replaced, rest) := exchange key v rest
      (replaced, (k, old) :: rest)

/-- Drops the entry of a key as `drop` does and answers its value. -/
def detach (key : String) : Entries → Option Value × Entries
  | [] => (none, [])
  | (k, old) :: rest =>
    if k = key then (some old, rest)
    else
      let (dropped, rest) := detach key rest
      (dropped, (k, old) :: rest)

/-- The entries after a list of insertions. -/
def ofList (pairs : List (String × Value)) : Entries :=
  pairs.foldl (fun entries pair => put pair.1 pair.2 entries) []

end Entries

namespace Value

/-- What messages call a value. -/
def kind : Value → String
  | .null => "null"
  | .bool _ => "boolean"
  | .int _ => "integer"
  | .float _ => "float"
  | .text _ => "string"
  | .array _ => "array"
  | .document _ => "document"

/-- The text of a value that is a text. -/
def text? : Value → Option String
  | .text s => some s
  | _ => none

/-- The items of a value that is an array. -/
def items? : Value → Option (List Value)
  | .array items => some items
  | _ => none

/-- The entries of a value that is a document. -/
def entries? : Value → Option Entries
  | .document entries => some entries
  | _ => none

mutual

/-- Equality of values: floats compare as numbers and documents entry by entry in order. -/
def eqv : Value → Value → Bool
  | .null, .null => true
  | .bool a, .bool b => a == b
  | .int a, .int b => a.1 == b.1
  | .float a, .float b => a.eqv b
  | .text a, .text b => a == b
  | .array a, .array b => eqvItems a b
  | .document a, .document b => eqvEntries a b
  | _, _ => false

/-- Equality of items, one by one. -/
def eqvItems : List Value → List Value → Bool
  | [], [] => true
  | a :: as, b :: bs => eqv a b && eqvItems as bs
  | _, _ => false

/-- Equality of entries, one by one. -/
def eqvEntries : List (String × Value) → List (String × Value) → Bool
  | [], [] => true
  | (j, a) :: as, (k, b) :: bs => j == k && eqv a b && eqvEntries as bs
  | _, _ => false

end

instance : BEq Value := ⟨eqv⟩

/-- An integer that fits is kept, any other becomes a float. -/
def ofWhole (n : Whole64) : Value :=
  match Ranged.ofInt? _ _ n.1 with
  | some m => .int m
  | none => .float (.ofInt binary64 n.1)

mutual

/-- The value of a JSON tree in normal form. -/
def ofJson : Json → Value
  | .null => .null
  | .bool b => .bool b
  | .whole n => ofWhole n
  | .real x => .float x
  | .text s => .text s
  | .array items => .array (ofItems items)
  | .object members => .document (ofMembers members)

/-- The values of items. -/
def ofItems : List Json → List Value
  | [] => []
  | j :: rest => ofJson j :: ofItems rest

/-- The values of members. -/
def ofMembers : List (String × Json) → List (String × Value)
  | [] => []
  | (name, j) :: rest => (name, ofJson j) :: ofMembers rest

end

/-- An integer that is written without a sign: one that is too great becomes a float. -/
def ofUnsigned (n : Nat) : Value :=
  if h : n ≤ 9223372036854775807 then .int ⟨n, by omega⟩ else .float (.ofInt binary64 n)

/-- An integer as it is written: one with a sign always fits. -/
def ofInteger (n : Whole64) : Value :=
  if h : n.1 < 0 then .int ⟨n.1, n.2.1, by omega⟩ else ofUnsigned n.1.toNat

mutual

/-- The value of a JSON tree as it is written, its members put one after another. -/
def ofWritten : Json → Value
  | .null => .null
  | .bool b => .bool b
  | .whole n => ofInteger n
  | .real x => .float x
  | .text s => .text s
  | .array items => .array (ofWrittenItems items)
  | .object members => .document (Entries.ofList (ofWrittenMembers members))

/-- The values of items as they are written. -/
def ofWrittenItems : List Json → List Value
  | [] => []
  | j :: rest => ofWritten j :: ofWrittenItems rest

/-- The values of members as they are written. -/
def ofWrittenMembers : List (String × Json) → List (String × Value)
  | [] => []
  | (name, j) :: rest => (name, ofWritten j) :: ofWrittenMembers rest

end

/-- A number as a JSON tree, which has no place for what is not finite. -/
def realTree (x : Double) : Json :=
  if x.isFinite then .real x else .null

mutual

/-- The JSON tree of a value, with members in the order of the entries. -/
def tree : Value → Json
  | .null => .null
  | .bool b => .bool b
  | .int n => .whole ⟨n.1, n.2.1, by have := n.2.2; omega⟩
  | .float x => realTree x
  | .text s => .text s
  | .array items => .array (treeItems items)
  | .document entries => .object (treeMembers entries)

/-- The trees of items. -/
def treeItems : List Value → List Json
  | [] => []
  | v :: rest => tree v :: treeItems rest

/-- The members of entries. -/
def treeMembers : List (String × Value) → List (String × Json)
  | [] => []
  | (key, v) :: rest => (key, tree v) :: treeMembers rest

end

/-- The JSON tree of a value in normal form. -/
def toJson (v : Value) : Json :=
  v.tree.sorted

/-- The compact JSON text of a value, with entries in their own order. -/
def wire (v : Value) : String :=
  v.tree.compact

/-- Reads a value from a JSON text with the members as they are written. -/
def ofWire? (s : String) : Option Value :=
  (Json.read? s).map ofWritten

end Value

end JobRegistry
