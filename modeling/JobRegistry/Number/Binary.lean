import JobRegistry.Number.Power

/-!
# Binary floating point

Signed binary fractions of a fixed format, as their sign and the integer that their remaining bits
spell. The magnitudes of a format are ordered as their integers are: zero, the subnormal and normal
fractions, the infinity, and above it what is not a number. Every operation is exact integer
arithmetic followed by one rounding to the nearest magnitude, ties to the even one
(`Format.nearest`).
-/

namespace JobRegistry.Number

/-- A binary interchange format. -/
structure Format where
  /-- Bits of a significand, the leading one included. -/
  precision : Nat
  /-- Bits of an exponent. -/
  exponentBits : Nat
  deriving DecidableEq

/-- Twice the precision of `binary32`, and a range up to about `1.8e308`. -/
def binary64 : Format := ⟨53, 11⟩

/-- Twenty-four bits of precision, and a range up to about `3.4e38`. -/
def binary32 : Format := ⟨24, 8⟩

namespace Format

/-- The step between neighbouring significands: the weight of the hidden bit. -/
def hidden (f : Format) : Nat :=
  twoPow (f.precision - 1)

/-- The exponent of the least positive magnitude. -/
def minExponent (f : Format) : Int :=
  3 - (twoPow (f.exponentBits - 1) : Int) - f.precision

/-- The magnitude of the infinity. -/
def infinity (f : Format) : Nat :=
  (twoPow f.exponentBits - 1) * f.hidden

/-- Bound of all magnitudes. -/
def limit (f : Format) : Nat :=
  twoPow f.exponentBits * f.hidden

/-- The significand `m` and the exponent `e` of a finite magnitude, whose value is `m * 2 ^ e`. -/
def unpack (f : Format) (magnitude : Nat) : Nat × Int :=
  if magnitude < f.hidden then (magnitude, f.minExponent)
  else (magnitude % f.hidden + f.hidden, f.minExponent + (magnitude / f.hidden - 1 : Nat))

/-- A quotient rounded to the nearest integer, a half to the even one. -/
def roundQuotient (num den : Nat) : Nat :=
  let q := num / den
  let r := 2 * (num % den)
  if r < den ∨ (r = den ∧ q % 2 = 0) then q else q + 1

/-- The exponent `⌊log₂ (num / den)⌋` of a positive quotient. -/
def quotientLog (num den : Nat) : Int :=
  let e : Int := (num.log2 : Int) - den.log2
  if num * twoPow (-e).toNat < den * twoPow e.toNat then e - 1 else e

/-- The magnitude nearest to `num / den`, the even one of two, and the infinity past the range. -/
def nearest (f : Format) (num den : Nat) : Nat :=
  if num = 0 ∨ den = 0 then 0
  else
    let e := max (quotientLog num den - (f.precision - 1)) f.minExponent
    let m := roundQuotient (num * twoPow (-e).toNat) (den * twoPow e.toNat)
    min ((e - f.minExponent).toNat * f.hidden + m) f.infinity

end Format

/-- A floating-point number of a format. -/
structure Floating (f : Format) where
  negative : Bool
  magnitude : Nat
  magnitude_lt : magnitude < f.limit
  deriving DecidableEq

/-- Double precision. -/
abbrev Double := Floating binary64

/-- Single precision. -/
abbrev Single := Floating binary32

namespace Floating

variable {f g : Format}

/-- The number with a sign and a magnitude; magnitudes past the limit stand for the infinity. -/
def make (f : Format) (negative : Bool) (magnitude : Nat) : Floating f :=
  if h : magnitude < f.limit then ⟨negative, magnitude, h⟩
  else ⟨negative, f.infinity, by
    have : 0 < f.hidden := twoPow_pos _
    have : 0 < twoPow f.exponentBits := twoPow_pos _
    unfold Format.infinity Format.limit
    exact Nat.mul_lt_mul_of_pos_right (by omega) ‹_›⟩

/-- The number nearest to a signed quotient. -/
def ofQuotient (f : Format) (negative : Bool) (num den : Nat) : Floating f :=
  make f negative (f.nearest num den)

/-- The number nearest to an integer. -/
def ofInt (f : Format) (n : Int) : Floating f :=
  ofQuotient f (n < 0) n.natAbs 1

/-- What is not a number. -/
def nan (f : Format) : Floating f :=
  make f false (f.infinity + f.hidden / 2)

/-- The infinity of a sign. -/
def infinite (f : Format) (negative : Bool) : Floating f :=
  make f negative f.infinity

def isNaN (x : Floating f) : Bool :=
  f.infinity < x.magnitude

def isFinite (x : Floating f) : Bool :=
  x.magnitude < f.infinity

/-- Equality as numbers: nothing equals what is not a number, and the two zeros are equal. -/
def eqv (x y : Floating f) : Bool :=
  !x.isNaN && !y.isNaN &&
    (x.magnitude == y.magnitude && (x.negative == y.negative || x.magnitude == 0))

/-- Numerator and denominator of the value of a finite magnitude. -/
def ratio (x : Floating f) : Nat × Nat :=
  let (m, e) := f.unpack x.magnitude
  (m * twoPow e.toNat, twoPow (-e).toNat)

/-- The same number in another format, rounded to nearest. -/
def convert (g : Format) (x : Floating f) : Floating g :=
  if x.isNaN then nan g
  else if x.isFinite then ofQuotient g x.negative x.ratio.1 x.ratio.2
  else infinite g x.negative

/-- The rounded product of two finite numbers. -/
def product (x y : Floating f) : Floating f :=
  ofQuotient f (x.negative != y.negative) (x.ratio.1 * y.ratio.1) (x.ratio.2 * y.ratio.2)

/-- The rounded quotient of two finite numbers. -/
def quotient (x y : Floating f) : Floating f :=
  ofQuotient f (x.negative != y.negative) (x.ratio.1 * y.ratio.2) (x.ratio.2 * y.ratio.1)

end Floating

end JobRegistry.Number
