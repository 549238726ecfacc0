import JobRegistry.Text.Hex

/-!
# Record identifiers

Identifiers of thirty-two bytes, written as sixty-four lower-case hexadecimal digits. Reading
accepts either case and reports an odd length before a bad digit and a bad digit before a wrong
number of bytes. The null identifier, all of whose bytes are zero, stands for no record.
-/

namespace JobRegistry

open Text

/-- A record identifier. -/
structure RecordId where
  bytes : List UInt8
  length_bytes : bytes.length = 32
  deriving DecidableEq

namespace RecordId

/-- Why a text is no identifier. -/
inductive Error
  | hex (e : Hex.Error)
  | length (actual : Nat)
  deriving DecidableEq, Repr

/-- The wording of an error. -/
def Error.message : Error → String
  | .hex e => "invalid hex string: " ++ e.message
  | .length actual =>
    "invalid byte length: expected 32, got " ++ String.ofList (Digits.ofNat actual)

/-- What a message calls an identifier that it expected. -/
def description : String := "a 64-character hex record id"

/-- The identifier with the given bytes, if they are thirty-two. -/
def ofBytes? (bytes : List UInt8) : Option RecordId :=
  if h : bytes.length = 32 then some ⟨bytes, h⟩ else none

/-- The null identifier. -/
def null : RecordId :=
  ⟨List.replicate 32 0, List.length_replicate⟩

def isNull (id : RecordId) : Bool :=
  id = null

/-- The text form. -/
def toHex (id : RecordId) : String :=
  Hex.encode id.bytes

/-- The first eight digits of the text form. -/
def shortHex (id : RecordId) : String :=
  Hex.encode (id.bytes.take 4)

/-- One word on an identifier. -/
def describe (id : RecordId) : String :=
  "RecordId(" ++ id.shortHex ++ ")"

/-- Reads the text form. -/
def ofHex (s : String) : Except Error RecordId :=
  match Hex.decode s with
  | .error e => .error (.hex e)
  | .ok bytes =>
    if h : bytes.length = 32 then .ok ⟨bytes, h⟩ else .error (.length bytes.length)

/-- Reads the text form. -/
def ofHex? (s : String) : Option RecordId :=
  (ofHex s).toOption

/-- The order of identifiers, byte by byte. -/
instance : Ord RecordId :=
  ⟨fun a b => compare a.bytes b.bytes⟩

instance : LT RecordId := ltOfOrd

end RecordId

end JobRegistry
