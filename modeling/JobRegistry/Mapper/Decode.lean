import JobRegistry.Mapper.Error
import JobRegistry.Mapper.Layout

/-!
# Reading values from trees

The value of a layout that a tree spells. Two kinds of trees are read by the same rules: documents
and the JSON properties of records. A `Reading` says how to look at one level of a tree, and the
few points in which the rules differ: whether surplus items of an array are a fault, and what a
choice is expected to look like.

A record is read from a document by the tags of its fields, or from an array in the order of its
fields. All faults of a record are found, and the one that stands first in the document is
reported; absent fields come after all entries, in the order of the fields.
-/

namespace JobRegistry

open Number

/-- One level of a tree. -/
inductive Node (α : Type)
  | null
  | bool (b : Bool)
  | integer (n : Int)
  | real (x : Double)
  | text (s : String)
  | items (xs : List α)
  | members (ms : List (String × α))

/-- What a level is called where something else was expected. -/
def Node.found {α : Type} : Node α → Found
  | .null => .null
  | .bool b => .bool b
  | .integer n => .integer n
  | .real x => .real x
  | .text s => .text s
  | .items _ => .sequence
  | .members _ => .map

/-- What a choice is expected to look like. -/
structure ChoiceWords where
  whole : String
  /-- The fault of a document that does not have one key, if it is one of its own. -/
  singleKey : Option String
  unit : String
  one : String
  many : String
  fields : String

/-- How trees of a type are read. -/
structure Reading (α : Type) where
  node : α → Node α
  /-- Any tree as a value of a document. -/
  value : α → Value
  /-- Whether surplus items of an array are a fault. -/
  refusesSurplus : Bool
  words : ChoiceWords

namespace Value

mutual

/-- A value read item by item and entry by entry. -/
def rebuild : Value → Value
  | .array items => .array (rebuildItems items)
  | .document entries => .document (Entries.ofList (rebuildEntries entries))
  | v => v

/-- Items, each read anew. -/
def rebuildItems : List Value → List Value
  | [] => []
  | v :: rest => rebuild v :: rebuildItems rest

/-- Entries, each read anew. -/
def rebuildEntries : List (String × Value) → List (String × Value)
  | [] => []
  | (k, v) :: rest => (k, rebuild v) :: rebuildEntries rest

end

/-- One level of a value. -/
def node : Value → Node Value
  | .null => .null
  | .bool b => .bool b
  | .int n => .integer n.1
  | .float x => .real x
  | .text s => .text s
  | .array items => .items items
  | .document entries => .members entries

end Value

/-- One level of a JSON tree. -/
def Json.node : Json → Node Json
  | .null => .null
  | .bool b => .bool b
  | .whole n => .integer n.1
  | .real x => .real x
  | .text s => .text s
  | .array items => .items items
  | .object members => .members members

/-- Documents: surplus items are ignored. -/
def Reading.document : Reading Value where
  node := Value.node
  value := Value.rebuild
  refusesSurplus := false
  words := ⟨"an enum variant", none, "a unit variant", "a newtype variant", "a tuple variant",
    "a struct variant"⟩

/-- JSON properties: surplus items are a fault. -/
def Reading.properties : Reading Json where
  node := Json.node
  value := Value.ofWritten
  refusesSurplus := true
  words := ⟨"string or map", some "map with a single key", "unit", "newtype variant",
    "tuple variant", "struct variant"⟩

namespace Layout

/-- The name of the integers of a number of bits. -/
def integerName (signed : Bool) (bits : Nat) : String :=
  (if signed then "i" else "u") ++ String.ofList (Text.Digits.ofNat bits)

/-- A count of elements. -/
def elementCount (n : Nat) : String :=
  String.ofList (Text.Digits.ofNat n) ++ if n = 1 then " element" else " elements"

/-- What messages call a tuple. -/
def tupleTitle (name : Option String) (size : Nat) : String :=
  match name with
  | some name => "tuple struct " ++ name
  | none => "a tuple of size " ++ String.ofList (Text.Digits.ofNat size)

/-- What messages call a tuple whose length is wrong. -/
def tupleLengthTitle (name : Option String) (size : Nat) : String :=
  match name with
  | some name => "tuple struct " ++ name ++ " with " ++ elementCount size
  | none => tupleTitle none size

/-- What messages call a layout. -/
def describe (choiceWord : String) : Layout → String
  | .bool => "a boolean"
  | .integer signed bits => integerName signed bits
  | .single => "f32"
  | .double => "f64"
  | .char => "a character"
  | .text => "a string"
  | .bytes => "byte array"
  | .unit => "unit"
  | .unitStruct name => "unit struct " ++ name
  | .option _ => "option"
  | .newtype name _ => "tuple struct " ++ name
  | .list _ => "a sequence"
  | .tuple name items => tupleTitle name items.size
  | .map _ _ => "a map"
  | .record name _ _ => "struct " ++ name
  | .choice _ _ => choiceWord
  | .recordId => RecordId.description
  | .timestamp => Timestamp.description
  | .value => "any document value"
  | .document => "a document"

/-- A variant without payload, by its tag. -/
def bareVariant? (words : ChoiceWords) (tag : String) :
    (vs : Variants) → Option (Except DecodeError (VariantsCarrier vs))
  | .nil => none
  | .cons t payload rest =>
    if t = tag then
      some <| match payload with
        | .none => .ok (.inl ())
        | .one _ => .error (.wrongType .bareVariant words.one)
        | .many _ => .error (.wrongType .bareVariant words.many)
        | .fields _ => .error (.wrongType .bareVariant words.fields)
    else (bareVariant? words tag rest).map (·.map .inr)

/-- What a key of a map may not stand for. -/
def keyWords : ChoiceWords :=
  ⟨"", none, "", "newtype variant", "tuple variant", "struct variant"⟩

/-- The value of a layout that the key of a map spells. -/
def decodeKey : (l : Layout) → String → Except DecodeError l.Carrier
  | .text, s => .ok s
  | .char, s =>
    match s.toList with
    | [c] => .ok c
    | _ => .error (.mismatch [] (.value (.text s) "a character"))
  | .recordId, s =>
    match RecordId.ofHex? s with
    | some id => .ok id
    | none => .error (.mismatch [] (.value (.text s) RecordId.description))
  | .timestamp, s =>
    match Timestamp.parse? s with
    | some t => .ok t
    | none => .error (.mismatch [] (.value (.text s) Timestamp.description))
  | .value, s => .ok (.text s)
  | .choice _ variants, s =>
    (bareVariant? keyWords s variants).getD (.error (.unknownVariant s variants.tags))
  | l, s => .error (.wrongType (.text s) (l.describe ""))

/-- The order of the keys of a map. -/
def keyBefore : (l : Layout) → l.Carrier → l.Carrier → Bool
  | .text, a, b => Sorted.textBefore a b
  | .char, a, b => (fun c d : Char => decide (c < d)) a b
  | .recordId, a, b => (fun i j : RecordId => compare i j == .lt) a b
  | .timestamp, a, b => (fun t u : Timestamp => compare t u == .lt) a b
  | .choice _ variants, a, b => decide (variants.place a < variants.place b)
  | _, _, _ => false

/-- A fault and its place in a document. -/
abbrev Fault := Nat × DecodeError

/-- Both of two values, or the fault that stands first; of two at one place the first. -/
def both {α β : Type} : Except Fault α → Except Fault β → Except Fault (α × β)
  | .ok a, .ok b => .ok (a, b)
  | .error e, .ok _ => .error e
  | .ok _, .error e => .error e
  | .error e, .error e' => .error (if e'.1 < e.1 then e' else e)

/-- A member with a name, and its place. -/
def memberAt? {α : Type} (name : String) : Nat → List (String × α) → Option (Nat × α)
  | _, [] => none
  | i, (n, a) :: rest => if n = name then some (i, a) else memberAt? name (i + 1) rest

/-- The first member that no tag names, and its place. -/
def strangerAt? {α : Type} (tags : List String) : Nat → List (String × α) → Option (Nat × String)
  | _, [] => none
  | i, (n, _) :: rest => if tags.contains n then strangerAt? tags (i + 1) rest else some (i, n)

/-- Reads the items of a list, the first of them at an index. -/
def decodeList {α β : Type} (item : α → Except DecodeError β) :
    Nat → List α → Except DecodeError (List β)
  | _, [] => .ok []
  | i, a :: rest => do
    let b ← (item a).mapError (.within (.index i))
    return b :: (← decodeList item (i + 1) rest)

/-- Reads the entries of a map into those that were read. -/
def decodeMap {α κ β : Type} (before : κ → κ → Bool) (key : String → Except DecodeError κ)
    (item : α → Except DecodeError β) :
    List (κ × β) → List (String × α) → Except DecodeError (List (κ × β))
  | entries, [] => .ok entries
  | entries, (name, a) :: rest => do
    let k ← key name
    let b ← (item a).mapError (.within (.key name))
    decodeMap before key item (Sorted.insert before k b entries) rest

/-- A byte. -/
def decodeByte {α : Type} (r : Reading α) (a : α) : Except DecodeError UInt8 :=
  match r.node a with
  | .integer n =>
    if 0 ≤ n ∧ n < 256 then .ok (UInt8.ofNat n.toNat)
    else .error (.mismatch [] (.value (.integer n) "u8"))
  | other => .error (.wrongType other.found "u8")

/-- Refuses items of an array that are left over. -/
def checkSurplus {α β : Type} (r : Reading α) (xs : List α) (size : Nat) (b : β) :
    Except DecodeError β :=
  if r.refusesSurplus ∧ size < xs.length then
    .error (.mismatch [] (.length xs.length "fewer elements in array"))
  else .ok b

/-- The values of the fields of a record, or the fault that stands first in it. A strict record
has a fault in every member that no tag names. -/
def settle {α β : Type} (strict : Bool) (tags : List String) (ms : List (String × α))
    (values : Except Fault β) : Except DecodeError β :=
  let known : Except Fault Unit := match strict, strangerAt? tags 0 ms with
    | true, some (i, name) => .error (i, .unknownField name tags)
    | _, _ => .ok ()
  match both known values with
  | .ok (_, values) => .ok values
  | .error e => .error e.2

variable {α : Type}

mutual

/-- The value of a layout that a tree spells. -/
def decode (r : Reading α) : (l : Layout) → α → Except DecodeError l.Carrier
  | .bool, a =>
    match r.node a with
    | .bool b => .ok b
    | other => .error (.wrongType other.found "a boolean")
  | .integer signed bits, a =>
    match r.node a with
    | .integer n =>
      match Ranged.ofInt? _ _ n with
      | some m => .ok m
      | none => .error (.mismatch [] (.value (.integer n) (integerName signed bits)))
    | other => .error (.wrongType other.found (integerName signed bits))
  | .single, a =>
    match r.node a with
    | .integer n => .ok (.ofInt binary32 n)
    | .real x => .ok (x.convert binary32)
    | other => .error (.wrongType other.found "f32")
  | .double, a =>
    match r.node a with
    | .integer n => .ok (.ofInt binary64 n)
    | .real x => .ok x
    | other => .error (.wrongType other.found "f64")
  | .char, a =>
    match r.node a with
    | .text s =>
      match s.toList with
      | [c] => .ok c
      | _ => .error (.mismatch [] (.value (.text s) "a character"))
    | other => .error (.wrongType other.found "a character")
  | .text, a =>
    match r.node a with
    | .text s => .ok s
    | other => .error (.wrongType other.found "a string")
  | .bytes, a =>
    match r.node a with
    | .text s => .ok s.toUTF8.toList
    | .items xs => decodeList (decodeByte r) 0 xs
    | other => .error (.wrongType other.found "byte array")
  | .unit, a =>
    match r.node a with
    | .null => .ok ()
    | other => .error (.wrongType other.found "unit")
  | .unitStruct name, a =>
    match r.node a with
    | .null => .ok ()
    | other => .error (.wrongType other.found ("unit struct " ++ name))
  | .option inner, a =>
    match r.node a with
    | .null => .ok none
    | _ => (decode r inner a).map some
  | .newtype _ inner, a => decode r inner a
  | .list item, a =>
    match r.node a with
    | .items xs => decodeList (decode r item) 0 xs
    | other => .error (.wrongType other.found "a sequence")
  | .tuple name items, a =>
    match r.node a with
    | .items xs => do
      let values ← decodeTuple r (tupleLengthTitle name items.size) items 0 xs
      checkSurplus r xs items.size values
    | other => .error (.wrongType other.found (tupleTitle name items.size))
  | .map key item, a =>
    match r.node a with
    | .members ms => decodeMap (keyBefore key) (decodeKey key) (decode r item) [] ms
    | other => .error (.wrongType other.found "a map")
  | .record name strict fields, a =>
    match r.node a with
    | .members ms => settle strict fields.tags ms (decodeFields r ms fields)
    | .items xs => do
      let title := "struct " ++ name ++ " with " ++ elementCount fields.size
      let values ← decodeSequence r title fields 0 xs
      checkSurplus r xs fields.size values
    | other => .error (.wrongType other.found ("struct " ++ name))
  | .choice name variants, a =>
    match r.node a with
    | .text tag =>
      (bareVariant? r.words tag variants).getD (.error (.unknownVariant tag variants.tags))
    | .members [(tag, payload)] => decodeVariant r name tag payload variants.tags variants
    | .members _ =>
      match r.words.singleKey with
      | some expected => .error (.mismatch [] (.value .map expected))
      | none => .error (.wrongType .map r.words.whole)
    | other => .error (.wrongType other.found r.words.whole)
  | .recordId, a =>
    match r.node a with
    | .text s =>
      match RecordId.ofHex? s with
      | some id => .ok id
      | none => .error (.mismatch [] (.value (.text s) RecordId.description))
    | other => .error (.wrongType other.found RecordId.description)
  | .timestamp, a =>
    match r.node a with
    | .text s =>
      match Timestamp.parse? s with
      | some t => .ok t
      | none => .error (.mismatch [] (.value (.text s) Timestamp.description))
    | other => .error (.wrongType other.found Timestamp.description)
  | .value, a => .ok (r.value a)
  | .document, a =>
    match r.value a with
    | .document entries => .ok ⟨entries⟩
    | v => .error (.wrongType (.kind v.kind) "a document")

/-- Reads the items of a tuple from an array. -/
def decodeTuple (r : Reading α) (title : String) :
    (is : Items) → Nat → List α → Except DecodeError (ItemsCarrier is)
  | .nil, _, _ => .ok ()
  | .cons _ _, i, [] => .error (.mismatch [] (.length i title))
  | .cons item rest, i, a :: as => do
    let x ← (decode r item a).mapError (.within (.index i))
    return (x, ← decodeTuple r title rest (i + 1) as)

/-- Reads the fields of a record from an array. -/
def decodeSequence (r : Reading α) (title : String) :
    (fs : Fields) → Nat → List α → Except DecodeError (FieldsCarrier fs)
  | .nil, _, _ => .ok ()
  | .cons _ absence l rest, i, [] =>
    match absence, l.zero? with
    | .required, _ => .error (.mismatch [] (.length i title))
    | _, none => .error (.mismatch [] (.length i title))
    | _, some x => do return (x, ← decodeSequence r title rest (i + 1) [])
  | .cons _ _ l rest, i, a :: as => do
    let x ← (decode r l a).mapError (.within (.index i))
    return (x, ← decodeSequence r title rest (i + 1) as)

/-- Reads the fields of a record from members. -/
def decodeFields (r : Reading α) (ms : List (String × α)) :
    (fs : Fields) → Except Fault (FieldsCarrier fs)
  | .nil => .ok ()
  | .cons tag absence l rest =>
    let field : Except Fault l.Carrier := match memberAt? tag 0 ms with
      | some (i, a) => (decode r l a).mapError fun e => (i, e.within (.key tag))
      | none =>
        match l.absent? absence with
        | some x => .ok x
        | none => .error (ms.length, .missing [] tag)
    both field (decodeFields r ms rest)

/-- Reads a variant with a payload, by its tag. -/
def decodeVariant (r : Reading α) (name tag : String) (payload : α) (known : List String) :
    (vs : Variants) → Except DecodeError (VariantsCarrier vs)
  | .nil => .error (.unknownVariant tag known)
  | .cons t p rest =>
    if t = tag then (decodePayload r (name ++ "::" ++ tag) payload p).map .inl
    else (decodeVariant r name tag payload known rest).map .inr

/-- Reads the payload of a variant. -/
def decodePayload (r : Reading α) (title : String) (a : α) :
    (p : Payload) → Except DecodeError (PayloadCarrier p)
  | .none =>
    match r.node a with
    | .null => .ok ()
    | other => .error (.wrongType other.found r.words.unit)
  | .one l => decode r l a
  | .many items =>
    match r.node a with
    | .items xs =>
      let title := "tuple variant " ++ title ++ " with " ++ elementCount items.size
      do
        let values ← decodeTuple r title items 0 xs
        checkSurplus r xs items.size values
    | _ => .error (.wrongType .bareVariant r.words.many)
  | .fields fs =>
    match r.node a with
    | .members ms => settle false fs.tags ms (decodeFields r ms fs)
    | _ => .error (.wrongType .bareVariant r.words.fields)

end

/-- Reads a value from a document. -/
def ofDocument (l : Layout) (d : Document) : Except MapperError l.Carrier :=
  (decode .document l d.toValue).mapError .decode

/-- Reads a value from JSON properties, which are first brought into normal form. -/
def ofProperties (l : Layout) (j : Json) : Except DecodeError l.Carrier :=
  decode .properties l j.sorted

end Layout

end JobRegistry
