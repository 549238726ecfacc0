import JobRegistry.Calendar
import JobRegistry.Number.Numeral
import JobRegistry.Toml.Basic
import JobRegistry.Toml.Literal

/-!
# Scalars of TOML documents

Words that stand for a boolean, an integer, a number with a fraction or exponent, or a date or
time. In numerals an underscore may stand between two digits. Decimal numerals may have a sign and
have no leading zeros; the others start with the mark of their base and have no sign. An integer
has to fit sixty-four bits; a numeral beyond the range of positive numbers is refused, while one
beyond the range of negative numbers counts as the negative infinity.
-/

namespace JobRegistry.Toml

open Number Text

/-- A character of a word. -/
def isWordChar (c : Char) : Bool :=
  c.isAlphanum || c == '_' || c == '-' || c == '+' || c == '.' || c == ':'

/-- The digits of a numeral without the underscores between them. -/
def ungroup? (isDigit : Char → Bool) : List Char → Option (List Char)
  | [] => none
  | [c] => if isDigit c then some [c] else none
  | c :: '_' :: rest => if isDigit c then (ungroup? isDigit rest).map (c :: ·) else none
  | c :: rest => if isDigit c then (ungroup? isDigit rest).map (c :: ·) else none

/-- The digits of a decimal numeral. -/
def decimal? (cs : List Char) : Option (List Char) :=
  match ungroup? Digits.isDigit cs with
  | some ['0'] => some ['0']
  | some ('0' :: _) => none
  | digits => digits

/-- The number that digits of a base spell. -/
def inBase? (base : Nat) (cs : List Char) : Option Nat :=
  let isDigit c := (Digits.hexValue? c).any (· < base)
  (ungroup? isDigit cs).map fun ds =>
    ds.foldl (fun n c => base * n + (Digits.hexValue? c).getD 0) 0

/-- The integer that a word spells. -/
def integer? : List Char → Option Int
  | '0' :: 'x' :: cs => (inBase? 16 cs).map Int.ofNat
  | '0' :: 'o' :: cs => (inBase? 8 cs).map Int.ofNat
  | '0' :: 'b' :: cs => (inBase? 2 cs).map Int.ofNat
  | '-' :: cs => (decimal? cs).map fun ds => -(Digits.toNat ds : Int)
  | '+' :: cs => (decimal? cs).map fun ds => (Digits.toNat ds : Int)
  | cs => (decimal? cs).map fun ds => (Digits.toNat ds : Int)

/-- Digits and underscores at the front, and what follows them. -/
def digitSpan (cs : List Char) : List Char × List Char :=
  let inNumeral c := Digits.isDigit c || c == '_'
  (cs.takeWhile inNumeral, cs.dropWhile inNumeral)

/-- Splits a sign off; true is minus. -/
def splitSign : List Char → Bool × List Char
  | '-' :: cs => (true, cs)
  | '+' :: cs => (false, cs)
  | cs => (false, cs)

/-- The exponent that the rest of a word spells. -/
def exponent? : List Char → Option Int
  | c :: cs =>
    if c = 'e' ∨ c = 'E' then
      let (negative, cs) := splitSign cs
      (ungroup? Digits.isDigit cs).map fun ds =>
        if negative then -(Digits.toNat ds : Int) else Digits.toNat ds
    else none
  | [] => none

/-- The fraction and the exponent that the rest of a word spells; there has to be one of them. -/
def fraction? : List Char → Option (List Char × Int)
  | '.' :: cs =>
    let (digits, rest) := digitSpan cs
    match ungroup? Digits.isDigit digits with
    | none => none
    | some digits =>
      if rest.isEmpty then some (digits, 0) else (exponent? rest).map fun e => (digits, e)
  | cs => (exponent? cs).map fun e => ([], e)

/-- The number with a fraction or exponent that a word spells. -/
def real? (cs : List Char) : Option Double :=
  let (negative, cs) := splitSign cs
  if cs = "inf".toList then some (.infinite binary64 negative)
  else if cs = "nan".toList then some { Floating.nan binary64 with negative }
  else
    let (digits, rest) := digitSpan cs
    match decimal? digits, fraction? rest with
    | some digits, some (fraction, e) =>
      let x := Floating.ofDecimal binary64 negative (Digits.toNat (digits ++ fraction))
        (e - fraction.length)
      if x.isFinite || negative then some x else none
    | _, _ => none

/-- The number that digits of a fixed width spell. -/
def field? (cs : List Char) : Option Nat :=
  if cs.all Digits.isDigit then some (Digits.toNat cs) else none

/-- Whether digits spell a number up to a bound. -/
def isUpTo (bound : Nat) (cs : List Char) : Bool :=
  (field? cs).any (· ≤ bound)

/-- Whether a word is a date. -/
def isDate : List Char → Bool
  | [y₁, y₂, y₃, y₄, '-', m₁, m₂, '-', d₁, d₂] =>
    match field? [y₁, y₂, y₃, y₄], field? [m₁, m₂], field? [d₁, d₂] with
    | some year, some month, some day => decide (Date.IsReal ⟨year, month, day⟩)
    | _, _, _ => false
  | _ => false

/-- Whether a word is a fraction of a second, or nothing. -/
def isSecondFraction : List Char → Bool
  | [] => true
  | '.' :: cs => !cs.isEmpty && cs.all Digits.isDigit
  | _ => false

/-- Whether a word is a time. -/
def isTime : List Char → Bool
  | h₁ :: h₂ :: ':' :: i₁ :: i₂ :: ':' :: s₁ :: s₂ :: rest =>
    isUpTo 23 [h₁, h₂] && isUpTo 59 [i₁, i₂] && isUpTo 60 [s₁, s₂] && isSecondFraction rest
  | _ => false

/-- Whether a word is the distance from universal time. -/
def isOffset : List Char → Bool
  | ['Z'] => true
  | ['z'] => true
  | [sign, h₁, h₂, ':', i₁, i₂] =>
    (sign == '+' || sign == '-') && isUpTo 23 [h₁, h₂] && isUpTo 59 [i₁, i₂]
  | _ => false

/-- Whether a word is a time with or without its distance from universal time. -/
def isZonedTime (cs : List Char) : Bool :=
  let isSign c := c == 'Z' || c == 'z' || c == '+' || c == '-'
  let offset := cs.dropWhile fun c => !isSign c
  isTime (cs.takeWhile fun c => !isSign c) && (offset.isEmpty || isOffset offset)

/-- Whether a word is a date, a time, or both with the letter `T` between them. -/
def isMoment (cs : List Char) : Bool :=
  isDate cs || isTime cs ||
    match cs.drop 10 with
    | t :: time => (t == 'T' || t == 't') && isDate (cs.take 10) && isZonedTime time
    | [] => false

/-- The value that a word stands for. -/
def ofWord? (cs : List Char) : Option Toml :=
  if cs = "true".toList then some (.bool true)
  else if cs = "false".toList then some (.bool false)
  else if isMoment cs then some (.moment (String.ofList cs))
  else
    match integer? cs with
    | some n => (Ranged.ofInt? _ _ n).map .whole
    | none => (real? cs).map .real

/-- Reads a scalar that is no text. A date and a time may have a space between them. -/
def word? (cs : List Char) : Option (Toml × List Char) :=
  let word := cs.takeWhile isWordChar
  let rest := cs.dropWhile isWordChar
  match rest with
  | ' ' :: after =>
    let time := after.takeWhile isWordChar
    if isDate word && isZonedTime time then
      some (.moment (String.ofList (word ++ ' ' :: time)), after.dropWhile isWordChar)
    else (ofWord? word).map fun v => (v, rest)
  | _ => (ofWord? word).map fun v => (v, rest)

end JobRegistry.Toml
