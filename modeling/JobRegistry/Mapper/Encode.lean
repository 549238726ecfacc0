import JobRegistry.Mapper.Error
import JobRegistry.Mapper.Layout

/-!
# Writing values into documents

The document form of the values of a layout. Records and string-keyed maps become documents, lists
and tuples arrays; a variant without payload is its tag, any other a document with the tag as its
only key; what is absent or empty becomes null. Integers must fit sixty-four bits with a sign.

The entries of a map are written by a `MapWriter`, which takes keys and values in turn.
-/

namespace JobRegistry

open Number

/-- A document that is being written, with the key whose value is still to come. -/
structure MapWriter where
  entries : Entries
  pending : Option String

namespace MapWriter

/-- A document without entries. -/
def start : MapWriter := ⟨[], none⟩

/-- Takes the key of the next entry. -/
def key (w : MapWriter) : Value → Except EncodeError MapWriter
  | .text s => .ok { w with pending := some s }
  | _ => .error .keyNotText

/-- Takes the value of an entry whose key has been taken. -/
def item (w : MapWriter) (v : Value) : Except EncodeError MapWriter :=
  match w.pending with
  | some k => .ok ⟨Entries.put k v w.entries, none⟩
  | none => .error .valueBeforeKey

/-- The document that was written. -/
def finish (w : MapWriter) : Value :=
  .document w.entries

end MapWriter

namespace Value

mutual

/-- Writes a value of a document item by item and entry by entry. -/
def encode : Value → Except EncodeError Value
  | .array items => (encodeItems items).map .array
  | .document entries => (encodeEntries .start entries).map MapWriter.finish
  | v => .ok v

/-- Writes items. -/
def encodeItems : List Value → Except EncodeError (List Value)
  | [] => .ok []
  | v :: rest => do return (← encode v) :: (← encodeItems rest)

/-- Writes entries after those that are written. -/
def encodeEntries (w : MapWriter) : List (String × Value) → Except EncodeError MapWriter
  | [] => .ok w
  | (k, v) :: rest => do
    let w ← w.key (.text k)
    let w ← w.item (← encode v)
    encodeEntries w rest

end

end Value

namespace Layout

/-- Writes an integer of a number of bits. -/
def encodeInteger (signed : Bool) (bits : Nat) (n : Int) : Except EncodeError Value :=
  if 64 < bits then .error (.unsupported signed bits)
  else
    match Ranged.ofInt? _ _ n with
    | some m => .ok (.int m)
    | none => .error (.integerOutOfRange n.natAbs)

/-- Writes a list, item after item. -/
def encodeList {α : Type} (item : α → Except EncodeError Value) :
    List α → Except EncodeError (List Value)
  | [] => .ok []
  | a :: rest => do return (← item a) :: (← encodeList item rest)

/-- Writes the entries of a map after those that are written. -/
def encodeMap {κ α : Type} (key : κ → Except EncodeError Value)
    (item : α → Except EncodeError Value) (w : MapWriter) :
    List (κ × α) → Except EncodeError MapWriter
  | [] => .ok w
  | (k, a) :: rest => do
    let w ← w.key (← key k)
    let w ← w.item (← item a)
    encodeMap key item w rest

/-- An option without a value. -/
def isAbsent : (l : Layout) → l.Carrier → Bool
  | .option _, none => true
  | _, _ => false

mutual

/-- The document form of a value. -/
def encode : (l : Layout) → l.Carrier → Except EncodeError Value
  | .bool, b => .ok (.bool b)
  | .integer signed bits, n => encodeInteger signed bits n.1
  | .single, x => .ok (.float (Floating.convert binary64 x))
  | .double, x => .ok (.float x)
  | .char, c => .ok (.text (String.singleton c))
  | .text, s => .ok (.text s)
  | .bytes, bs => .ok (.array (bs.map fun b => .int ⟨b.toNat, by have := b.toNat_lt; omega⟩))
  | .unit, _ => .ok .null
  | .unitStruct _, _ => .ok .null
  | .option _, none => .ok .null
  | .option inner, some x => encode inner x
  | .newtype _ inner, x => encode inner x
  | .list item, xs => (encodeList (encode item) xs).map .array
  | .tuple _ items, xs => (encodeTuple items xs).map .array
  | .map key item, entries =>
    (encodeMap (encode key) (encode item) .start entries).map MapWriter.finish
  | .record _ _ fields, xs => (encodeFields fields [] xs).map .document
  | .choice _ variants, x => encodeVariant variants x
  | .recordId, id => .ok (.text id.toHex)
  | .timestamp, t => .ok (.text t.format)
  | .value, v => v.encode
  | .document, d => d.toValue.encode

/-- The document forms of the items of a tuple. -/
def encodeTuple : (is : Items) → ItemsCarrier is → Except EncodeError (List Value)
  | .nil, _ => .ok []
  | .cons item rest, (x, xs) => do return (← encode item x) :: (← encodeTuple rest xs)

/-- Writes the fields of a record after the entries that are written. -/
def encodeFields : (fs : Fields) → Entries → FieldsCarrier fs → Except EncodeError Entries
  | .nil, entries, _ => .ok entries
  | .cons tag absence l rest, entries, (x, xs) =>
    if absence = .omitted ∧ isAbsent l x then encodeFields rest entries xs
    else do encodeFields rest (Entries.put tag (← encode l x) entries) xs

/-- The document form of a variant. -/
def encodeVariant : (vs : Variants) → VariantsCarrier vs → Except EncodeError Value
  | .cons tag payload _, .inl x => encodePayload tag payload x
  | .cons _ _ rest, .inr x => encodeVariant rest x

/-- The document form of a variant with its payload. -/
def encodePayload (tag : String) : (p : Payload) → PayloadCarrier p → Except EncodeError Value
  | .none, _ => .ok (.text tag)
  | .one l, x => do return .document [(tag, ← encode l x)]
  | .many items, xs => do return .document [(tag, .array (← encodeTuple items xs))]
  | .fields fs, xs => do return .document [(tag, .document (← encodeFields fs [] xs))]

end

/-- The document of a value whose form is a document. -/
def toDocument (l : Layout) (x : l.Carrier) : Except MapperError Document :=
  match l.encode x with
  | .error e => .error (.encode e)
  | .ok v => (Document.ofValue v).mapError fun e => .notARecord e.kind

end Layout

end JobRegistry
