/-!
# Digits

Numerals in bases ten and sixteen as lists of characters. `ofNat` writes the shortest decimal
numeral, `padded` a decimal numeral of at least a given width, `hexDigit` one lower-case
hexadecimal digit; `value?` reads one digit back.
-/

namespace JobRegistry.Text.Digits

/-- The lower-case hexadecimal digit of a number below sixteen. -/
def hexDigit (n : Nat) : Char :=
  if n % 16 < 10 then Char.ofNat (48 + n % 16) else Char.ofNat (87 + n % 16)

/-- The upper-case hexadecimal digit of a number below sixteen. -/
def hexDigitUpper (n : Nat) : Char :=
  if n % 16 < 10 then Char.ofNat (48 + n % 16) else Char.ofNat (55 + n % 16)

/-- The value of a decimal digit. -/
def value? (c : Char) : Option Nat :=
  if '0' ≤ c ∧ c ≤ '9' then some (c.toNat - 48) else none

/-- The value of a hexadecimal digit of either case. -/
def hexValue? (c : Char) : Option Nat :=
  if '0' ≤ c ∧ c ≤ '9' then some (c.toNat - 48)
  else if 'a' ≤ c ∧ c ≤ 'f' then some (c.toNat - 87)
  else if 'A' ≤ c ∧ c ≤ 'F' then some (c.toNat - 55)
  else none

/-- The decimal numeral of a number, without leading zeros. -/
def ofNat (n : Nat) : List Char :=
  Nat.toDigits 10 n

/-- The decimal numeral of an integer, with a sign when it is negative. -/
def ofInt (n : Int) : List Char :=
  if n < 0 then '-' :: ofNat n.natAbs else ofNat n.natAbs

/-- The decimal numeral of a number, filled with zeros up to a width. -/
def padded (width n : Nat) : List Char :=
  List.replicate (width - (ofNat n).length) '0' ++ ofNat n

/-- The lower-case hexadecimal numeral of a number, without leading zeros. -/
def hexOfNat (n : Nat) : List Char :=
  Nat.toDigits 16 n

/-- The number that a list of decimal digits stands for; other characters count as zero. -/
def toNat (cs : List Char) : Nat :=
  cs.foldl (fun n c => 10 * n + (value? c).getD 0) 0

/-- A decimal digit. -/
def isDigit (c : Char) : Bool :=
  (value? c).isSome

end JobRegistry.Text.Digits
