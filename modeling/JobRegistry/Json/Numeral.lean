import JobRegistry.Json.Basic
import JobRegistry.Text.Digits

/-!
# Numerals in JSON texts

The number that a JSON numeral spells. Digits are gathered in a significand of sixty-four bits, and
digits that no longer fit count as zeros. A numeral without fraction and exponent is kept exactly
when it fits sixty-four bits. Every other numeral becomes a double: the significand is rounded
once and then multiplied or divided by a power of ten, each step rounded to nearest, and a numeral
that leaves the range is refused. The steps make the result differ from the nearest double in the
last bit now and then.
-/

namespace JobRegistry.Json

open Number Text

/-- The parts of a numeral: the digits before and after the point and the exponent. -/
structure Numeral where
  negative : Bool
  whole : List Char
  fraction : Option (List Char)
  exponent : Option Int

/-- Appends digits to a significand as long as it fits sixty-four bits; also the digits left. -/
def gather : Nat → List Char → Nat × List Char
  | significand, [] => (significand, [])
  | significand, c :: rest =>
    let next := 10 * significand + (Digits.value? c).getD 0
    if next < 18446744073709551616 then gather next rest else (significand, c :: rest)

/-- The double nearest to a power of ten. -/
def powerOfTen (k : Nat) : Double :=
  .ofQuotient binary64 false (tenPow k) 1

/-- Divides by `10 ^ n` in steps of at most `10 ^ 308`; three steps already give zero. -/
def scaleDown (x : Double) (n : Nat) : Double :=
  let steps := (n - 1) / 308
  let x := (List.replicate (min steps 3) (powerOfTen 308)).foldl Floating.quotient x
  if 3 < steps then x else x.quotient (powerOfTen (n - 308 * steps))

/-- The double for `significand * 10 ^ exponent`, unless it leaves the range. -/
def scale? (significand : Nat) (exponent : Int) : Option Double :=
  let x : Double := .ofInt binary64 significand
  if exponent < 0 then some (scaleDown x exponent.natAbs)
  else if significand = 0 then some x
  else if 308 < exponent then none
  else
    let y := x.product (powerOfTen exponent.toNat)
    if y.isFinite then some y else none

/-- A number as a tree, with its sign. -/
def signed (negative : Bool) (x : Double) : Json :=
  .real { x with negative }

/-- The tree of an integer below `2 ^ 64`; below the least signed integer it becomes a double, and
so does the negative zero. -/
def ofSignificand (negative : Bool) (n : Nat) (h : n < 18446744073709551616) : Json :=
  if hn : negative then
    if hr : 0 < n ∧ n ≤ 9223372036854775808 then .whole ⟨-n, by omega⟩
    else signed true (.ofInt binary64 n)
  else .whole ⟨n, by omega⟩

/-- The tree of a numeral. -/
def Numeral.value? (numeral : Numeral) : Option Json :=
  let (significand, dropped) := gather 0 numeral.whole
  if h : numeral.fraction = none ∧ numeral.exponent = none ∧ dropped = [] ∧
      significand < 18446744073709551616
  then some (ofSignificand numeral.negative significand h.2.2.2)
  else
    let fraction := numeral.fraction.getD []
    let (significand, unused) := gather significand fraction
    let exponent := (dropped.length : Int) - (fraction.length - unused.length : Nat) +
      numeral.exponent.getD 0
    (scale? significand exponent).map (signed numeral.negative)

end JobRegistry.Json
