import JobRegistry.Proofs.Calendar
import JobRegistry.Proofs.Text.Digits
import JobRegistry.Timestamp
import Mathlib.Tactic.SplitIfs

/-!
# Timestamps in order and in text

The order of timestamps is that of their ranks (`lt_iff`, `le_iff`), which count seconds twice to
make room for leap seconds. In this order `latest` is the maximum (`latest_of_le`, `latest_of_gt`).
Adding one second leads to a later timestamp (`lt_of_plusSeconds?`), and can be done as long as
years have four digits (`exists_plusSeconds?_one`).

The text form shows the fields of a timestamp (`Civil`), and is read field by field
(`Civil.parse?_text`). A timestamp whose year has four digits is read back from its text
(`parse?_format`), leap seconds included. The text of any other starts with a sign, and is no
timestamp to the reader (`parse?_format_eq_none`); no text is read as such a timestamp
(`hasFourDigitYear_of_parse?`).
-/

namespace JobRegistry.Timestamp

open Text

/-! ## Order -/

/-- The place of a timestamp in the order of all. -/
def rank (t : Timestamp) : Int :=
  2 * t.seconds + if t.leap then 1 else 0

theorem ext_iff' {a b : Timestamp} : a = b ↔ a.seconds = b.seconds ∧ a.leap = b.leap := by
  cases a
  cases b
  simp

theorem rank_inj {a b : Timestamp} : a.rank = b.rank ↔ a = b := by
  rw [ext_iff']
  unfold rank
  cases a.leap <;> cases b.leap <;> simp <;> omega

theorem compare_eq (a b : Timestamp) : compare a b = compare a.rank b.rank := by
  show (compare a.seconds b.seconds).then (compare a.leap b.leap) = compare a.rank b.rank
  unfold rank
  rcases Int.lt_trichotomy a.seconds b.seconds with h | h | h
  · rw [Int.compare_eq_lt.2 h, Int.compare_eq_lt.2 (by split_ifs <;> omega)]
    rfl
  · rw [h, Int.compare_eq_eq.2 rfl]
    cases a.leap <;> cases b.leap
    · exact (Int.compare_eq_eq.2 rfl).symm
    · exact (Int.compare_eq_lt.2 (show 2 * b.seconds + 0 < 2 * b.seconds + 1 by omega)).symm
    · exact (Int.compare_eq_gt.2 (show 2 * b.seconds + 0 < 2 * b.seconds + 1 by omega)).symm
    · exact (Int.compare_eq_eq.2 rfl).symm
  · rw [Int.compare_eq_gt.2 h, Int.compare_eq_gt.2 (by split_ifs <;> omega)]
    rfl

theorem lt_iff {a b : Timestamp} : a < b ↔ a.rank < b.rank := by
  show compare a b = .lt ↔ _
  rw [compare_eq, Int.compare_eq_lt]

theorem le_iff {a b : Timestamp} : a ≤ b ↔ a.rank ≤ b.rank := by
  show (compare a b).isLE = true ↔ _
  rw [compare_eq, Int.isLE_compare]

theorem le_refl (a : Timestamp) : a ≤ a :=
  le_iff.2 (Int.le_refl _)

theorem le_trans {a b c : Timestamp} (h : a ≤ b) (h' : b ≤ c) : a ≤ c := by
  rw [le_iff] at *
  omega

theorem le_of_lt {a b : Timestamp} (h : a < b) : a ≤ b := by
  rw [lt_iff] at h
  rw [le_iff]
  omega

theorem not_le_of_lt {a b : Timestamp} (h : a < b) : ¬ b ≤ a := by
  rw [lt_iff] at h
  rw [le_iff]
  omega

theorem lt_of_lt_of_le {a b c : Timestamp} (h : a < b) (h' : b ≤ c) : a < c := by
  rw [lt_iff] at *
  rw [le_iff] at h'
  omega

theorem le_of_not_lt {a b : Timestamp} (h : ¬ a < b) : b ≤ a := by
  rw [lt_iff] at h
  rw [le_iff]
  omega

theorem le_antisymm {a b : Timestamp} (h : a ≤ b) (h' : b ≤ a) : a = b := by
  rw [le_iff] at h h'
  exact rank_inj.1 (by omega)

theorem latest_of_lt {a b : Timestamp} (h : a < b) : latest a b = b :=
  if_pos h

theorem latest_of_not_lt {a b : Timestamp} (h : ¬ a < b) : latest a b = a :=
  if_neg h

theorem latest_of_le {a b : Timestamp} (h : a ≤ b) : latest a b = b := by
  by_cases hlt : a < b
  · exact latest_of_lt hlt
  · rw [latest_of_not_lt hlt]
    exact le_antisymm h (le_of_not_lt hlt)

theorem latest_of_gt {a b : Timestamp} (h : b < a) : latest a b = a :=
  latest_of_not_lt fun hlt => not_le_of_lt h (le_of_lt hlt)

theorem le_latest_right (a b : Timestamp) : b ≤ latest a b := by
  by_cases h : a < b
  · rw [latest_of_lt h]
    exact le_refl b
  · rw [latest_of_not_lt h]
    exact le_of_not_lt h

/-- A shift forward leads to a whole second, also from a leap second. -/
theorem seconds_of_plusSeconds? {t u : Timestamp} {n : Int} (hn : 0 < n)
    (h : t.plusSeconds? n = some u) : u.seconds = t.seconds + n ∧ u.leap = false := by
  have hz : n ≠ 0 := by omega
  have hneg : ¬ (t.leap = true ∧ n < 0) := by omega
  simp only [plusSeconds?, hz, hneg, if_false, ofUnix?, Option.dite_none_right_eq_some,
    Option.some.injEq] at h
  obtain ⟨-, rfl⟩ := h
  exact ⟨Int.add_zero _, rfl⟩

/-- A shift forward leads to a later timestamp. -/
theorem lt_of_plusSeconds? {t u : Timestamp} {n : Int} (hn : 0 < n)
    (h : t.plusSeconds? n = some u) : t < u := by
  obtain ⟨hseconds, hleap⟩ := seconds_of_plusSeconds? hn h
  rw [lt_iff, rank, rank, hseconds, hleap]
  split_ifs <;> omega

/-! ## Text -/

/-- The year of a timestamp has four digits. -/
def HasFourDigitYear (t : Timestamp) : Prop := 0 ≤ t.year ∧ t.year ≤ 9999

instance (t : Timestamp) : Decidable t.HasFourDigitYear := inferInstanceAs (Decidable (_ ∧ _))

/-- The last second of the year 9999. -/
def lastLegible : Timestamp := ⟨253402300799, false, by decide, by decide, by decide⟩

/-- A timestamp whose year has four digits is not the last there is. -/
theorem exists_plusSeconds?_one {t : Timestamp} (h : t.HasFourDigitYear) :
    ∃ u, t.plusSeconds? 1 = some u := by
  have hyear : t.year = Date.yearOf (t.seconds / 86400 + epochDay) := by
    obtain ⟨i, -, day, -, hday, -⟩ := Date.ofDay_spec (t.seconds / 86400 + epochDay)
    rw [year, date, hday]
  have hlast : t.seconds / 86400 + epochDay < Date.daysBeforeYear (t.year + 1) := by
    rw [hyear]
    exact (Date.yearOf_spec _).2
  have hend : t.seconds + 1 ≤ 8210266876799 := by
    have hle := h.2
    unfold Date.daysBeforeYear epochDay at hlast
    omega
  have hstart := t.seconds_ge
  have hno : ¬ (t.leap = true ∧ (1 : Int) < 0) := by omega
  rw [plusSeconds?, if_neg (by decide), if_neg hno, Int.add_zero, ofUnix?,
    dif_pos ⟨by omega, hend⟩]
  exact ⟨_, rfl⟩

theorem field?_padded (width n : Nat) : field? (Digits.padded width n) = some n := by
  have h : (Digits.padded width n).all Digits.isDigit = true :=
    List.all_eq_true.2 fun _ => Digits.isDigit_padded
  rw [field?, if_pos h, Digits.toNat_padded]

theorem padded_two {n : Nat} (h : n < 100) :
    ∃ a b, Digits.padded 2 n = [a, b] ∧ field? [a, b] = some n := by
  have hl := Digits.length_padded 2 (by decide) h
  match hp : Digits.padded 2 n, hl with
  | [a, b], _ => exact ⟨a, b, rfl, hp ▸ field?_padded 2 n⟩

theorem padded_four {n : Nat} (h : n < 10000) :
    ∃ a b c d, Digits.padded 4 n = [a, b, c, d] ∧ field? [a, b, c, d] = some n := by
  have hl := Digits.length_padded 4 (by decide) h
  match hp : Digits.padded 4 n, hl with
  | [a, b, c, d], _ => exact ⟨a, b, c, d, rfl, hp ▸ field?_padded 4 n⟩

/-- The fields of the text form. -/
structure Civil where
  year : Nat
  month : Nat
  day : Nat
  hour : Nat
  minute : Nat
  second : Nat
  deriving DecidableEq, Repr

namespace Civil

/-- The date of the fields. -/
def date (c : Civil) : Date := ⟨c.year, c.month, c.day⟩

/-- The fields have room in the text form. -/
structure Fits (c : Civil) : Prop where
  year : c.year < 10000
  month : c.month < 100
  day : c.day < 100
  hour : c.hour < 100
  minute : c.minute < 100
  second : c.second < 100

/-- The characters of the text form. -/
def text (c : Civil) : List Char :=
  Digits.padded 4 c.year ++ '-' :: (Digits.padded 2 c.month ++ '-' :: (Digits.padded 2 c.day ++
    ' ' :: (Digits.padded 2 c.hour ++ ':' :: (Digits.padded 2 c.minute ++
      ':' :: Digits.padded 2 c.second))))

/-- The timestamp that has the fields. -/
def timestamp? (c : Civil) : Option Timestamp :=
  ofCivil? c.date c.hour c.minute c.second

/-- **The text of fields is read as the timestamp that has them.** -/
theorem parse?_text {c : Civil} (h : c.Fits) : parse? (String.ofList c.text) = c.timestamp? := by
  obtain ⟨y₁, y₂, y₃, y₄, hy, fy⟩ := padded_four h.year
  obtain ⟨m₁, m₂, hm, fm⟩ := padded_two h.month
  obtain ⟨d₁, d₂, hd, fd⟩ := padded_two h.day
  obtain ⟨h₁, h₂, hh, fh⟩ := padded_two h.hour
  obtain ⟨i₁, i₂, hi, fi⟩ := padded_two h.minute
  obtain ⟨s₁, s₂, hs, fs⟩ := padded_two h.second
  have htext : (String.ofList c.text).toList = [y₁, y₂, y₃, y₄, '-', m₁, m₂, '-', d₁, d₂, ' ',
      h₁, h₂, ':', i₁, i₂, ':', s₁, s₂] := by
    rw [String.toList_ofList, text, hy, hm, hd, hh, hi, hs]
    rfl
  simp only [parse?, htext, fy, fm, fd, fh, fi, fs, bind, Option.bind]
  rfl

end Civil

/-- The last field of the text form. -/
def shownSecond (t : Timestamp) : Nat :=
  if t.leap then 60 else t.secondOfDay % 60

/-- The fields of the text form of a timestamp whose year is not negative. -/
def civil (t : Timestamp) : Civil where
  year := t.year.toNat
  month := t.date.month
  day := t.date.day
  hour := t.secondOfDay / 3600
  minute := t.secondOfDay / 60 % 60
  second := t.shownSecond

theorem secondOfDay_lt (t : Timestamp) : t.secondOfDay < 86400 := by
  unfold secondOfDay
  omega

theorem shownSecond_le (t : Timestamp) : t.shownSecond ≤ 60 := by
  unfold shownSecond
  split <;> omega

theorem isReal_date (t : Timestamp) : t.date.IsReal :=
  Date.isReal_ofDay _

theorem dayNumber_date (t : Timestamp) : t.date.dayNumber = t.seconds / 86400 + epochDay :=
  Date.dayNumber_ofDay _

theorem date_civil {t : Timestamp} (h : t.HasFourDigitYear) : t.civil.date = t.date := by
  rw [Civil.date, civil, Int.toNat_of_nonneg h.1]
  rfl

theorem fits_civil {t : Timestamp} (h : t.HasFourDigitYear) : t.civil.Fits where
  year := by
    have := h.1
    have := h.2
    show t.year.toNat < 10000
    omega
  month := Nat.lt_of_le_of_lt t.isReal_date.2.1 (by decide)
  day := Nat.lt_of_le_of_lt t.isReal_date.day_le (by decide)
  hour := by
    have := t.secondOfDay_lt
    show t.secondOfDay / 3600 < 100
    omega
  minute := by
    show t.secondOfDay / 60 % 60 < 100
    omega
  second := Nat.lt_of_le_of_lt t.shownSecond_le (by decide)

theorem format_eq {t : Timestamp} (h : t.HasFourDigitYear) :
    t.format = String.ofList t.civil.text := by
  have hyear : yearText t.date.year = Digits.padded 4 t.date.year.natAbs := if_pos h
  have habs : t.date.year.natAbs = t.civil.year := by
    have := h.1
    show t.year.natAbs = t.year.toNat
    omega
  simp only [format, hyear, habs, Civil.text, List.append_assoc, List.cons_append]
  rfl

/-- The fields of a timestamp make up that timestamp. -/
theorem timestamp?_civil {t : Timestamp} (h : t.HasFourDigitYear) :
    t.civil.timestamp? = some t := by
  have hs := secondOfDay_lt t
  have hmin : min t.shownSecond 59 = t.secondOfDay % 60 := by
    have := t.leap_last
    unfold shownSecond secondOfDay
    split <;> simp_all <;> omega
  have htotal : (t.date.dayNumber - epochDay) * 86400 +
      (t.secondOfDay / 3600 * 3600 + t.secondOfDay / 60 % 60 * 60 : Nat) +
      (min t.shownSecond 59 : Nat) = t.seconds := by
    rw [dayNumber_date, hmin]
    unfold secondOfDay
    omega
  have hleap : (decide (t.shownSecond = 60) && decide (t.seconds % 60 = 59)) = t.leap := by
    have := t.leap_last
    unfold shownSecond
    cases h : t.leap
    · simp; omega
    · simp_all
  rw [Civil.timestamp?, date_civil h]
  show ofCivil? t.date (t.secondOfDay / 3600) (t.secondOfDay / 60 % 60) t.shownSecond = some t
  unfold ofCivil?
  rw [if_pos ⟨t.isReal_date, by omega, by omega, shownSecond_le t⟩]
  simp only [htotal]
  rw [dif_pos ⟨t.seconds_ge, t.seconds_le⟩]
  exact congrArg some (ext_iff'.2 ⟨rfl, hleap⟩)

/-- **A timestamp with a year of four digits reads back.** -/
theorem parse?_format {t : Timestamp} (h : t.HasFourDigitYear) : parse? t.format = some t := by
  rw [format_eq h, Civil.parse?_text (fits_civil h), timestamp?_civil h]

/-- A text that starts with something else than a digit is no timestamp. -/
theorem parse?_eq_none {s : String} {c : Char} {cs : List Char} (h : s.toList = c :: cs)
    (hc : Digits.isDigit c = false) : parse? s = none := by
  unfold parse?
  split
  · next e =>
    obtain ⟨rfl, -⟩ := List.cons.inj (h.symm.trans e)
    simp [field?, hc]
  · rfl

/-- **No other timestamp reads back.** -/
theorem parse?_format_eq_none {t : Timestamp} (h : ¬ t.HasFourDigitYear) :
    parse? t.format = none := by
  have hy : yearText t.date.year =
      (if t.date.year < 0 then '-' else '+') :: Digits.padded 4 t.date.year.natAbs := if_neg h
  obtain ⟨cs, hcs⟩ : ∃ cs, t.format.toList = (if t.date.year < 0 then '-' else '+') :: cs := by
    simp only [format, String.toList_ofList, hy, List.cons_append]
    exact ⟨_, rfl⟩
  exact parse?_eq_none hcs (by split_ifs <;> decide)

theorem parse_eq_ok {s : String} {t : Timestamp} : parse s = .ok t ↔ parse? s = some t := by
  unfold parse
  cases parse? s <;> simp

/-- A time of a real day has that day, and the time in seconds. -/
theorem ofCivil?_spec {date : Date} {hour minute second : Nat} {t : Timestamp}
    (h : ofCivil? date hour minute second = some t) : t.date = date ∧
      t.secondOfDay = hour * 3600 + minute * 60 + min second 59 ∧
      t.leap = decide (second = 60) := by
  unfold ofCivil? at h
  split at h
  · next hreal =>
    obtain ⟨hreal, hhour, hminute, hsecond⟩ := hreal
    dsimp only at h
    split at h
    · obtain rfl := Option.some.inj h
      have hday : ((date.dayNumber - epochDay) * 86400 + (hour * 3600 + minute * 60 : Nat) +
          (min second 59 : Nat)) / 86400 + epochDay = date.dayNumber := by
        omega
      refine ⟨?_, ?_, ?_⟩
      · rw [Timestamp.date, hday, hreal.ofDay_dayNumber]
      · unfold secondOfDay
        dsimp only
        omega
      · dsimp only
        rw [Bool.and_eq_left_iff_imp]
        intro hsixty
        rw [decide_eq_true_iff] at hsixty ⊢
        omega
    · cases h
  · cases h

theorem field?_lt {cs : List Char} {n : Nat} (h : field? cs = some n) : n < 10 ^ cs.length := by
  unfold field? at h
  split at h
  · obtain rfl := Option.some.inj h
    exact Digits.toNat_lt cs
  · cases h

/-- **A timestamp that was read has a year of four digits.** -/
theorem hasFourDigitYear_of_parse? {s : String} {t : Timestamp} (h : parse? s = some t) :
    t.HasFourDigitYear := by
  unfold parse? at h
  split at h
  · simp only [Option.bind_eq_bind, Option.bind_eq_some_iff] at h
    obtain ⟨year, hyear, month, -, day, -, hour, -, minute, -, second, -, ht⟩ := h
    have hlt : year < 10 ^ 4 := field?_lt hyear
    rw [HasFourDigitYear, Timestamp.year, (ofCivil?_spec ht).1]
    dsimp only
    omega
  · cases h

end JobRegistry.Timestamp
