import JobRegistry.Document.Basic
import JobRegistry.RecordId
import JobRegistry.Timestamp

/-!
# Layouts

The types whose values are kept in documents. A `Layout` names such a type: scalars, options,
lists, tuples, maps, records with tagged fields and choices between tagged variants, nested to any
depth. `Layout.Carrier` is the type of its values: a record is the product of its fields, a choice
the sum of its variants.

`Mapper.Encode` writes a value of a layout into a document and `Mapper.Decode` reads it back.
-/

namespace JobRegistry

open Number

/-- What an absent field of a record stands for. -/
inductive Absence
  /-- It is a fault, unless the field is an option. -/
  | required
  /-- It stands for the zero value of its layout. -/
  | default
  /-- The same, and an option without a value is not written at all. -/
  | omitted
  deriving DecidableEq, Repr

mutual

/-- A type of values that documents keep. -/
inductive Layout
  | bool
  /-- The integers of a number of bits. -/
  | integer (signed : Bool) (bits : Nat)
  | single
  | double
  | char
  | text
  | bytes
  | unit
  /-- A record type without any field. -/
  | unitStruct (name : String)
  | option (inner : Layout)
  /-- A named wrapper that leaves no trace in a document. -/
  | newtype (name : String) (inner : Layout)
  | list (item : Layout)
  /-- A tuple, named or not. -/
  | tuple (name : Option String) (items : Items)
  | map (key item : Layout)
  /-- A record; a strict one refuses fields that it does not have. -/
  | record (name : String) (strict : Bool) (fields : Fields)
  | choice (name : String) (variants : Variants)
  | recordId
  | timestamp
  /-- Any value of a document. -/
  | value
  | document

/-- The layouts of the items of a tuple. -/
inductive Items
  | nil
  | cons (item : Layout) (rest : Items)

/-- The tagged fields of a record. -/
inductive Fields
  | nil
  | cons (tag : String) (absence : Absence) (layout : Layout) (rest : Fields)

/-- The tagged variants of a choice. -/
inductive Variants
  | nil
  | cons (tag : String) (payload : Payload) (rest : Variants)

/-- What a variant carries. -/
inductive Payload
  | none
  | one (layout : Layout)
  | many (items : Items)
  | fields (fields : Fields)

end

namespace Layout

/-- The least integer of a number of bits. -/
def least (signed : Bool) (bits : Nat) : Int :=
  if signed then -(twoPow (bits - 1) : Int) else 0

/-- The greatest integer of a number of bits. -/
def greatest (signed : Bool) (bits : Nat) : Int :=
  if signed then (twoPow (bits - 1) : Int) - 1 else (twoPow bits : Int) - 1

mutual

/-- The values of a layout. -/
def Carrier : Layout → Type
  | .bool => Bool
  | .integer signed bits => Ranged (least signed bits) (greatest signed bits)
  | .single => Single
  | .double => Double
  | .char => Char
  | .text => String
  | .bytes => List UInt8
  | .unit => Unit
  | .unitStruct _ => Unit
  | .option inner => Option inner.Carrier
  | .newtype _ inner => inner.Carrier
  | .list item => List item.Carrier
  | .tuple _ items => ItemsCarrier items
  | .map key item => List (key.Carrier × item.Carrier)
  | .record _ _ fields => FieldsCarrier fields
  | .choice _ variants => VariantsCarrier variants
  | .recordId => RecordId
  | .timestamp => Timestamp
  | .value => Value
  | .document => Document

/-- The values of tuple items. -/
def ItemsCarrier : Items → Type
  | .nil => Unit
  | .cons item rest => item.Carrier × ItemsCarrier rest

/-- The values of record fields. -/
def FieldsCarrier : Fields → Type
  | .nil => Unit
  | .cons _ _ layout rest => layout.Carrier × FieldsCarrier rest

/-- The values of variants. -/
def VariantsCarrier : Variants → Type
  | .nil => Empty
  | .cons _ payload rest => PayloadCarrier payload ⊕ VariantsCarrier rest

/-- The values that a variant carries. -/
def PayloadCarrier : Payload → Type
  | .none => Unit
  | .one layout => layout.Carrier
  | .many items => ItemsCarrier items
  | .fields fields => FieldsCarrier fields

end

mutual

/-- The zero value of a layout, if it has one. -/
def zero? : (l : Layout) → Option l.Carrier
  | .bool => some false
  | .integer _ _ => Ranged.ofInt? _ _ 0
  | .single => some (.ofInt binary32 0)
  | .double => some (.ofInt binary64 0)
  | .char => some '\x00'
  | .text => some ""
  | .bytes => some []
  | .unit => some ()
  | .unitStruct _ => some ()
  | .option _ => some none
  | .newtype _ inner => zero? inner
  | .list _ => some []
  | .tuple _ items => zeroItems? items
  | .map _ _ => some []
  | .record _ _ fields => zeroFields? fields
  | .choice _ _ => none
  | .recordId => none
  | .timestamp => none
  | .value => none
  | .document => some .empty

/-- The zero values of tuple items. -/
def zeroItems? : (is : Items) → Option (ItemsCarrier is)
  | .nil => some ()
  | .cons item rest =>
    match zero? item, zeroItems? rest with
    | some x, some xs => some (x, xs)
    | _, _ => none

/-- The zero values of record fields. -/
def zeroFields? : (fs : Fields) → Option (FieldsCarrier fs)
  | .nil => some ()
  | .cons _ _ layout rest =>
    match zero? layout, zeroFields? rest with
    | some x, some xs => some (x, xs)
    | _, _ => none

end

/-- The value of an absent option. -/
def absentOption? : (l : Layout) → Option l.Carrier
  | .option _ => some none
  | _ => none

/-- What an absent field stands for, if it may be absent. -/
def absent? (absence : Absence) (l : Layout) : Option l.Carrier :=
  match absence with
  | .required => l.absentOption?
  | .default => l.zero?
  | .omitted => l.zero?

end Layout

/-- The number of items of a tuple. -/
def Items.size : Items → Nat
  | .nil => 0
  | .cons _ rest => rest.size + 1

/-- The number of fields of a record. -/
def Fields.size : Fields → Nat
  | .nil => 0
  | .cons _ _ _ rest => rest.size + 1

/-- The tags of the fields of a record. -/
def Fields.tags : Fields → List String
  | .nil => []
  | .cons tag _ _ rest => tag :: rest.tags

/-- The tags of the variants of a choice. -/
def Variants.tags : Variants → List String
  | .nil => []
  | .cons tag _ rest => tag :: rest.tags

/-- The place of a value among the variants of its choice. -/
def Variants.place : (vs : Variants) → Layout.VariantsCarrier vs → Nat
  | .cons _ _ _, .inl _ => 0
  | .cons _ _ rest, .inr x => rest.place x + 1

end JobRegistry
