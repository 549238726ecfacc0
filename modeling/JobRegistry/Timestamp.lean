import JobRegistry.Calendar
import JobRegistry.Text.Digits
import JobRegistry.Text.Message

/-!
# Timestamps

Points in time of second resolution, from the first second of the year -262143 to the last of the
year 262142, counted from the start of 1970. The last second of any minute may be followed by a
leap second, which is written as second sixty and shares the count of the second before it.

The text form is `YYYY-MM-DD HH:MM:SS`. It is read only with every field at its full width, so
that years from 0 to 9999 have exactly one text; other years are written with a sign and cannot
be read back.
-/

namespace JobRegistry

open Text

/-- A point in time. -/
structure Timestamp where
  /-- Seconds since the start of 1970, leap seconds not counted. -/
  seconds : Int
  /-- Whether this is the leap second after that second. -/
  leap : Bool
  seconds_ge : -8334601228800 ≤ seconds
  seconds_le : seconds ≤ 8210266876799
  leap_last : leap = true → seconds % 60 = 59
  deriving DecidableEq

namespace Timestamp

/-- A text that is no timestamp. -/
structure Invalid where
  input : String
  deriving DecidableEq, Repr

/-- The wording of an error. -/
def Invalid.message (e : Invalid) : String :=
  "invalid timestamp " ++ quote e.input ++ ": expected layout YYYY-MM-DD HH:MM:SS"

/-- What a message calls a timestamp that it expected. -/
def description : String := "a timestamp formatted as YYYY-MM-DD HH:MM:SS"

/-- The timestamp at a number of seconds since the start of 1970. -/
def ofUnix? (seconds : Int) : Option Timestamp :=
  if h : -8334601228800 ≤ seconds ∧ seconds ≤ 8210266876799 then
    some ⟨seconds, false, h.1, h.2, by simp⟩
  else none

/-- The day number of the first of January 1970. -/
def epochDay : Int := 719528

/-- The timestamp at a time of a real day; second sixty is the leap second. -/
def ofCivil? (date : Date) (hour minute second : Nat) : Option Timestamp :=
  if date.IsReal ∧ hour ≤ 23 ∧ minute ≤ 59 ∧ second ≤ 60 then
    let start := (date.dayNumber - epochDay) * 86400 + (hour * 3600 + minute * 60 : Nat)
    let total := start + (min second 59 : Nat)
    if h : -8334601228800 ≤ total ∧ total ≤ 8210266876799 then
      some ⟨total, second = 60 && total % 60 = 59, h.1, h.2, by simp⟩
    else none
  else none

/-- The number that digits of a fixed width spell. -/
def field? (cs : List Char) : Option Nat :=
  if cs.all Digits.isDigit then some (Digits.toNat cs) else none

/-- Reads the text form. -/
def parse? (s : String) : Option Timestamp :=
  match s.toList with
  | [y₁, y₂, y₃, y₄, '-', m₁, m₂, '-', d₁, d₂, ' ', h₁, h₂, ':', i₁, i₂, ':', s₁, s₂] => do
    let year ← field? [y₁, y₂, y₃, y₄]
    let month ← field? [m₁, m₂]
    let day ← field? [d₁, d₂]
    let hour ← field? [h₁, h₂]
    let minute ← field? [i₁, i₂]
    let second ← field? [s₁, s₂]
    ofCivil? ⟨year, month, day⟩ hour minute second
  | _ => none

/-- Reads the text form. -/
def parse (s : String) : Except Invalid Timestamp :=
  match parse? s with
  | some t => .ok t
  | none => .error ⟨s⟩

/-- The numeral of a year: four digits, with a sign when they do not suffice. -/
def yearText (year : Int) : List Char :=
  if 0 ≤ year ∧ year ≤ 9999 then Digits.padded 4 year.natAbs
  else (if year < 0 then '-' else '+') :: Digits.padded 4 year.natAbs

/-- The second of the day. -/
def secondOfDay (t : Timestamp) : Nat :=
  (t.seconds % 86400).toNat

/-- The date. -/
def date (t : Timestamp) : Date :=
  Date.ofDay (t.seconds / 86400 + epochDay)

/-- The year. -/
def year (t : Timestamp) : Int :=
  t.date.year

/-- The text form. -/
def format (t : Timestamp) : String :=
  let d := t.date
  let s := t.secondOfDay
  let second := if t.leap then 60 else s % 60
  String.ofList (yearText d.year ++ '-' :: Digits.padded 2 d.month ++
    '-' :: Digits.padded 2 d.day ++ ' ' :: Digits.padded 2 (s / 3600) ++
    ':' :: Digits.padded 2 (s / 60 % 60) ++ ':' :: Digits.padded 2 second)

/-- One word on a timestamp. -/
def describe (t : Timestamp) : String :=
  "Timestamp(" ++ t.format ++ ")"

/-- The timestamp shifted by a number of seconds, if it is in range. A shift by zero keeps a leap
second; any other leaves it, forward from the second before it and backward from the second
after it. -/
def plusSeconds? (t : Timestamp) (n : Int) : Option Timestamp :=
  if n = 0 then some t
  else ofUnix? (t.seconds + n + (if t.leap ∧ n < 0 then 1 else 0))

/-- The order of timestamps: a leap second comes after the second it shares the count of. -/
instance : Ord Timestamp :=
  ⟨fun a b => (compare a.seconds b.seconds).then (compare a.leap b.leap)⟩

instance : LE Timestamp := leOfOrd
instance : LT Timestamp := ltOfOrd
instance (a b : Timestamp) : Decidable (a ≤ b) := inferInstanceAs (Decidable (_ = true))
instance (a b : Timestamp) : Decidable (a < b) := inferInstanceAs (Decidable (_ = _))

/-- The later of two timestamps. -/
def latest (a b : Timestamp) : Timestamp :=
  if a < b then b else a

end Timestamp

end JobRegistry
