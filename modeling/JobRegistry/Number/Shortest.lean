import JobRegistry.Number.Binary
import JobRegistry.Text.Digits

/-!
# Shortest decimal digits

The fewest decimal digits that read back as a given floating-point magnitude, and of all numerals
with that many digits the nearest to it; of two equally near ones the even one. The search tries
one digit, two digits, and so on: on the grid of numerals with `n` digits only the two neighbours
of the value can lie in the interval of numbers that round to it.
-/

namespace JobRegistry.Number

/-- Digits and the place of the decimal point: the value is `digits * 10 ^ exponent`. -/
structure Decimal where
  digits : Nat
  exponent : Int
  deriving DecidableEq, Repr

/-- The numbers that round to a magnitude, as fractions over one denominator. -/
structure Interval where
  low : Nat
  value : Nat
  high : Nat
  den : Nat
  /-- Whether the ends belong to the interval. -/
  closed : Bool

/-- The numbers that round to a finite positive magnitude. -/
def Format.interval (f : Format) (magnitude : Nat) : Interval :=
  let (m, e) := f.unpack magnitude
  let up := twoPow e.toNat
  let down := 4 * twoPow (-e).toNat
  -- The neighbour below is nearer where the exponent changes.
  let gap := if m = f.hidden ∧ f.minExponent < e then 1 else 2
  ⟨(4 * m - gap) * up, 4 * m * up, (4 * m + 2) * up, down, m % 2 = 0⟩

/-- Whether `num / den` lies in the interval. -/
def Interval.contains (i : Interval) (num den : Nat) : Bool :=
  if i.closed then i.low * den ≤ num * i.den && num * i.den ≤ i.high * den
  else i.low * den < num * i.den && num * i.den < i.high * den

/-- The decimal exponent `k` with `10 ^ (k - 1) ≤ num / den < 10 ^ k`, at most `fuel` from `k`. -/
def decimalExponent (num den : Nat) : Nat → Int → Int
  | 0, k => k
  | fuel + 1, k =>
    if num * tenPow (-k).toNat < den * tenPow k.toNat then
      if num * tenPow (1 - k).toNat < den * tenPow (k - 1).toNat then
        decimalExponent num den fuel (k - 1)
      else k
    else decimalExponent num den fuel (k + 1)

/-- The nearest numeral with `n` digits that reads back, if there is one. -/
def Interval.onGrid? (i : Interval) (k : Int) (n : Nat) : Option Decimal :=
  let s := k - n
  let up := tenPow s.toNat
  let down := tenPow (-s).toNat
  -- The value lies between `below * 10 ^ s` and `(below + 1) * 10 ^ s`.
  let below := i.value * down / (i.den * up)
  let rest := 2 * (i.value * down % (i.den * up))
  let preferBelow := rest < i.den * up || (rest == i.den * up && below % 2 == 0)
  let inBelow := 0 < below && i.contains (below * up) down
  let inAbove := i.contains ((below + 1) * up) down
  if inBelow && (preferBelow || !inAbove) then some ⟨below, s⟩
  else if inAbove then some ⟨below + 1, s⟩
  else none

/-- The first grid with a numeral that reads back, from `n` digits on. -/
def Interval.search (i : Interval) (k : Int) : Nat → Nat → Decimal
  | 0, n => ⟨i.value * tenPow (n - k).toNat / (i.den * tenPow (k - n).toNat), k - n⟩
  | fuel + 1, n => (i.onGrid? k n).getD (i.search k fuel (n + 1))

/-- Digits without trailing zeros. -/
def Decimal.trim : Nat → Decimal → Decimal
  | 0, d => d
  | fuel + 1, d => if d.digits % 10 = 0 then trim fuel ⟨d.digits / 10, d.exponent + 1⟩ else d

/-- The shortest digits of a finite positive magnitude. -/
def Format.shortest (f : Format) (magnitude : Nat) : Decimal :=
  let i := f.interval magnitude
  -- A thousandth above `log₁₀ 2` times the binary exponent starts the search next to its end.
  let guess := (((f.unpack magnitude).2 + (f.unpack magnitude).1.log2) * 30103) / 100000 + 1
  let k := decimalExponent i.value i.den 4 guess
  (i.search k 20 1).trim 20

end JobRegistry.Number
