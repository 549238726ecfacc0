import JobRegistry.Text.Digits
import JobRegistry.Text.Message

/-!
# Hexadecimal text of bytes

Two digits a byte, high half first. `encode` writes lower case; `decode` accepts either case. A
text is judged by its bytes: an odd number of them is refused first, then the first byte that is
no hexadecimal digit.
-/

namespace JobRegistry.Text.Hex

/-- Why a text is not the hexadecimal form of some bytes. -/
inductive Error
  | oddLength
  /-- The byte at this position is no digit. -/
  | badDigit (byte : UInt8) (position : Nat)
  deriving DecidableEq, Repr

/-- The wording of an error; a byte is shown as the character with its code point. -/
def Error.message : Error → String
  | .oddLength => "Odd number of digits"
  | .badDigit byte position =>
    "Invalid character " ++ quoteChar (Char.ofNat byte.toNat) ++ " at position " ++
      String.ofList (Digits.ofNat position)

/-- The two digits of a byte. -/
def digits (byte : UInt8) : List Char :=
  [Digits.hexDigit (byte.toNat / 16), Digits.hexDigit byte.toNat]

/-- The lower-case hexadecimal form of bytes. -/
def encode (bytes : List UInt8) : String :=
  String.ofList (bytes.flatMap digits)

/-- The value of the digit that an ASCII byte stands for. -/
def nibble? (byte : UInt8) : Option Nat :=
  Digits.hexValue? (Char.ofNat byte.toNat)

/-- Reads pairs of digits, the first of them at `position`. -/
def decodePairs : Nat → List UInt8 → Except Error (List UInt8)
  | position, high :: low :: rest =>
    match nibble? high, nibble? low with
    | some h, some l => (decodePairs (position + 2) rest).map (UInt8.ofNat (16 * h + l) :: ·)
    | none, _ => .error (.badDigit high position)
    | some _, none => .error (.badDigit low (position + 1))
  | _, _ => .ok []

/-- Reads the hexadecimal form of bytes. -/
def decode (s : String) : Except Error (List UInt8) :=
  let bytes := s.toUTF8.toList
  if bytes.length % 2 = 1 then .error .oddLength else decodePairs 0 bytes

end JobRegistry.Text.Hex
