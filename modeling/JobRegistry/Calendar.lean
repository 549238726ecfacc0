/-!
# The calendar

Dates of the proleptic Gregorian calendar and their day numbers, counted from the first of January
of the year zero. `Date.dayNumber` counts the days before a year and before a month; `Date.ofDay`
finds the year whose days enclose a day number, starting from the mean length of a year, and walks
through the months of that year.
-/

namespace JobRegistry

/-- A date, real or not. -/
structure Date where
  year : Int
  month : Nat
  day : Nat
  deriving DecidableEq, Repr

namespace Date

/-- A year with a twenty-ninth of February. -/
def isLeapYear (year : Int) : Bool :=
  year % 4 = 0 && (year % 100 != 0 || year % 400 = 0)

/-- The lengths of the months of a year. -/
def monthLengths (year : Int) : List Nat :=
  [31, if isLeapYear year then 29 else 28, 31, 30, 31, 30, 31, 31, 30, 31, 30, 31]

/-- A date that the calendar has. -/
def IsReal (d : Date) : Prop :=
  1 ≤ d.month ∧ d.month ≤ 12 ∧ 1 ≤ d.day ∧ d.day ≤ (monthLengths d.year).getD (d.month - 1) 0

instance : DecidablePred IsReal := fun d => by unfold IsReal; infer_instance

/-- Days from the start of the year zero to the start of a year. -/
def daysBeforeYear (year : Int) : Int :=
  365 * year + (year + 3) / 4 - (year + 99) / 100 + (year + 399) / 400

/-- The day number of a date. -/
def dayNumber (d : Date) : Int :=
  let before := ((monthLengths d.year).take (d.month - 1)).foldl Nat.add 0
  daysBeforeYear d.year + (before + (d.day - 1) : Nat)

/-- The year to which a day number belongs. -/
def yearOf (n : Int) : Int :=
  let year := 400 * n / 146097
  if n < daysBeforeYear year then year - 1
  else if daysBeforeYear (year + 1) ≤ n then year + 1
  else year

/-- Month and day at an offset into months of the given lengths, the first of them `month`. -/
def monthAndDay (month : Nat) : List Nat → Nat → Nat × Nat
  | [], offset => (month, offset + 1)
  | length :: rest, offset =>
    if offset < length then (month, offset + 1)
    else monthAndDay (month + 1) rest (offset - length)

/-- The date with a day number. -/
def ofDay (n : Int) : Date :=
  let year := yearOf n
  let (month, day) := monthAndDay 1 (monthLengths year) (n - daysBeforeYear year).toNat
  ⟨year, month, day⟩

end Date

end JobRegistry
