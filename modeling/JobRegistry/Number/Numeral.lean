import JobRegistry.Number.Shortest

/-!
# Numerals of floating-point numbers

Writing a floating-point number with its shortest digits, positionally or with a power of ten
(`NumeralStyle`), and reading the number nearest to a decimal numeral (`Floating.ofDecimal`).
-/

namespace JobRegistry.Number

open JobRegistry.Text

/-- Which decimal exponents are written positionally, all of them when there is no bound. -/
structure NumeralStyle where
  least : Option Int
  greatest : Option Int

/-- Positional notation throughout. -/
def NumeralStyle.plain : NumeralStyle := ⟨none, none⟩

/-- Positional notation from `1e-5` up to, but without, `1e16`. -/
def NumeralStyle.compact : NumeralStyle := ⟨some (-5), some 15⟩

/-- Whether a number `d.ddd * 10 ^ e` is written positionally. -/
def NumeralStyle.isPositional (rule : NumeralStyle) (e : Int) : Bool :=
  (rule.least.all fun l => l ≤ e) && (rule.greatest.all fun g => e ≤ g)

/-- Positional numeral of `digits * 10 ^ exponent`, always with a point. -/
def positional (digits : List Char) (exponent : Int) : List Char :=
  let whole : Int := digits.length + exponent
  if 0 ≤ exponent then digits ++ List.replicate exponent.toNat '0' ++ ['.', '0']
  else if 0 < whole then digits.take whole.toNat ++ '.' :: digits.drop whole.toNat
  else '0' :: '.' :: (List.replicate (-whole).toNat '0' ++ digits)

/-- Numeral of `digits * 10 ^ exponent` with one digit before the point and a signed power. -/
def scientific (digits : List Char) (exponent : Int) : List Char :=
  let e : Int := digits.length - 1 + exponent
  digits.take 1 ++ (if digits.length = 1 then [] else '.' :: digits.drop 1) ++
    'e' :: (if e < 0 then '-' else '+') :: Digits.ofNat e.natAbs

/-- The numeral of a finite number. -/
def Floating.numeral {f : Format} (rule : NumeralStyle) (x : Floating f) : List Char :=
  let body :=
    if x.magnitude = 0 then ['0', '.', '0']
    else
      let d := f.shortest x.magnitude
      let ds := Digits.ofNat d.digits
      if rule.isPositional (ds.length - 1 + d.exponent) then positional ds d.exponent
      else scientific ds d.exponent
  if x.negative then '-' :: body else body

/-- The number as a message shows it. -/
def Floating.shown {f : Format} (x : Floating f) : String :=
  if x.isNaN then "NaN"
  else if x.isFinite then String.ofList (x.numeral .plain)
  else if x.negative then "-inf" else "inf"

/-- The number nearest to `digits * 10 ^ exponent`; far outside every range the digits of the
exponent are not expanded. -/
def Floating.ofDecimal (f : Format) (negative : Bool) (digits : Nat) (exponent : Int) :
    Floating f :=
  if digits = 0 then make f negative 0
  else if 2000 < digits.log2 + exponent * (if exponent < 0 then 4 else 3) then
    infinite f negative
  else if digits.log2 + exponent * 3 < -8000 then make f negative 0
  else ofQuotient f negative (digits * tenPow exponent.toNat) (tenPow (-exponent).toNat)

/-- Splits decimal digits off the front. -/
def spanDigits (cs : List Char) : List Char × List Char :=
  (cs.takeWhile Digits.isDigit, cs.dropWhile Digits.isDigit)

/-- An exponent part: a marker, a sign if any, and at least one digit, or nothing at all. -/
def exponent? : List Char → Option Int
  | [] => some 0
  | c :: rest =>
    if c = 'e' ∨ c = 'E' then
      let (negative, digits) := match rest with
        | '-' :: r => (true, r)
        | '+' :: r => (false, r)
        | r => (false, r)
      if digits.isEmpty || !digits.all Digits.isDigit then none
      else some (if negative then -(Digits.toNat digits : Int) else Digits.toNat digits)
    else none

/-- Reads an unsigned decimal numeral. -/
def Floating.ofUnsigned? (f : Format) (negative : Bool) (cs : List Char) : Option (Floating f) :=
  let lower := cs.map Char.toLower
  if lower = "nan".toList then some { nan f with negative }
  else if lower = "inf".toList ∨ lower = "infinity".toList then some (infinite f negative)
  else
    let (whole, rest) := spanDigits cs
    let (fraction, rest) := match rest with
      | '.' :: r => spanDigits r
      | r => ([], r)
    if whole.isEmpty && fraction.isEmpty then none
    else
      (exponent? rest).map fun e =>
        ofDecimal f negative (Digits.toNat (whole ++ fraction)) (e - fraction.length)

/-- Reads a decimal numeral as the nearest number of a format. -/
def Floating.ofText? (f : Format) (s : String) : Option (Floating f) :=
  match s.toList with
  | '-' :: cs => ofUnsigned? f true cs
  | '+' :: cs => ofUnsigned? f false cs
  | cs => ofUnsigned? f false cs

end JobRegistry.Number
