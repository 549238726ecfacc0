import JobRegistry.Document.Value

/-!
# Documents

Maps from keys to values in the order in which the keys were first put there. `Document.exchange`
and `Document.take` answer the value that stood under a key before. A path of keys with dots
between them leads through nested documents (`Document.getPath?`).

A document is read from a JSON text in one of two ways. `Document.ofWire` takes the members as they
are written; a text that starts with a value of another kind is refused for its kind before
anything after that value is looked at. `Document.ofJson` takes a tree that was brought into normal
form before.
-/

namespace JobRegistry

/-- A map from keys to values with an order. -/
structure Document where
  entries : Entries

namespace Document

/-- The document without entries. -/
def empty : Document := ⟨[]⟩

/-- The document after a list of insertions. -/
def ofList (pairs : List (String × Value)) : Document :=
  ⟨Entries.ofList pairs⟩

/-- A document as a value. -/
def toValue (d : Document) : Value :=
  .document d.entries

def keys (d : Document) : List String :=
  d.entries.map Prod.fst

def size (d : Document) : Nat :=
  d.entries.length

def isEmpty (d : Document) : Bool :=
  d.entries.isEmpty

/-- The value of a key. -/
def get? (d : Document) (key : String) : Option Value :=
  Entries.get? key d.entries

def contains (d : Document) (key : String) : Bool :=
  (d.get? key).isSome

/-- Puts a value under a key, in the place of the value before it or else at the end. -/
def insert (d : Document) (key : String) (v : Value) : Document :=
  ⟨Entries.put key v d.entries⟩

/-- Drops the entry of a key. -/
def erase (d : Document) (key : String) : Document :=
  ⟨Entries.drop key d.entries⟩

/-- Puts a value under a key and answers the value that it replaces. -/
def exchange (d : Document) (key : String) (v : Value) : Option Value × Document :=
  let (replaced, entries) := Entries.exchange key v d.entries
  (replaced, ⟨entries⟩)

/-- Drops the entry of a key and answers its value. -/
def take (d : Document) (key : String) : Option Value × Document :=
  let (dropped, entries) := Entries.detach key d.entries
  (dropped, ⟨entries⟩)

/-- Cuts a path at its dots. -/
def segments : List Char → List (List Char)
  | [] => [[]]
  | c :: rest =>
    if c = '.' then [] :: segments rest
    else
      match segments rest with
      | [] => [[c]]
      | first :: others => (c :: first) :: others

/-- The keys along a path. -/
def pathKeys (path : String) : List String :=
  (segments path.toList).map String.ofList

/-- Follows keys through nested entries. -/
def follow? : Entries → List String → Option Value
  | _, [] => none
  | entries, [key] => Entries.get? key entries
  | entries, key :: rest =>
    match Entries.get? key entries with
    | some (.document inner) => follow? inner rest
    | _ => none

/-- The value at the end of a dotted path. -/
def getPath? (d : Document) (path : String) : Option Value :=
  follow? d.entries (pathKeys path)

instance : BEq Document := ⟨fun a b => Value.eqvEntries a.entries b.entries⟩

/-- A value that should have been a document. -/
structure NotADocument where
  kind : String
  deriving DecidableEq, Repr

/-- A value that is a document. -/
def ofValue : Value → Except NotADocument Document
  | .document entries => .ok ⟨entries⟩
  | v => .error ⟨v.kind⟩

/-- The document of a JSON tree, which is first brought into normal form. -/
def ofJson (j : Json) : Except NotADocument Document :=
  ofValue (.ofJson j.sorted)

/-- The JSON tree of a document in normal form. -/
def toJson (d : Document) : Json :=
  d.toValue.toJson

/-- The compact JSON text of a document, with entries in their own order. -/
def wire (d : Document) : String :=
  d.toValue.wire

/-- Why a JSON text is no document. -/
inductive ReadError
  | malformed
  | notADocument (kind : String)
  deriving DecidableEq, Repr

/-- Reads a document from a JSON text with the members as they are written. -/
def ofWire (s : String) : Except ReadError Document :=
  match Json.readFront? s with
  | none => .error .malformed
  | some (j, rest) =>
    match ofValue (.ofWritten j) with
    | .error e => .error (.notADocument e.kind)
    | .ok d => if (Json.skipBlanks rest).isEmpty then .ok d else .error .malformed

end Document

end JobRegistry
