import JobRegistry.Calendar

/-!
# Dates and day numbers

`isReal_ofDay` and `dayNumber_ofDay` say that every day number is that of a real date, the one that
`Date.ofDay` finds. The year is the one whose days enclose the number (`yearOf_spec`), and the month
is found by walking through the lengths of its months (`monthAndDay_spec`). The other way round, a
real date is the one that is found for its day number (`IsReal.ofDay_dayNumber`), and dates are in
the order of their day numbers (`IsReal.dayNumber_lt_iff`).
-/

namespace JobRegistry.Date

/-! ## Years -/

/-- The days of some months together. -/
def total : List Nat → Nat
  | [] => 0
  | length :: rest => length + total rest

theorem foldl_add (n : Nat) (lengths : List Nat) : lengths.foldl Nat.add n = n + total lengths := by
  induction lengths generalizing n with
  | nil => rfl
  | cons length rest ih => rw [List.foldl_cons, ih, total, ← Nat.add_assoc, Nat.add_eq]

theorem total_monthLengths (year : Int) :
    total (monthLengths year) = if isLeapYear year then 366 else 365 := by
  unfold monthLengths
  split <;> rfl

theorem getD_monthLengths_le (year : Int) (i : Nat) : (monthLengths year).getD i 0 ≤ 31 := by
  have h : ∀ length ∈ monthLengths year, length ≤ 31 := by
    unfold monthLengths
    split <;> decide
  rw [List.getD_eq_getElem?_getD]
  cases hi : (monthLengths year)[i]? with
  | none => exact Nat.zero_le _
  | some length => exact h _ (List.mem_of_getElem? hi)

theorem isLeapYear_iff (year : Int) :
    isLeapYear year = true ↔ year % 4 = 0 ∧ (year % 100 ≠ 0 ∨ year % 400 = 0) := by
  simp [isLeapYear]

/-- A year has as many days as its months together. -/
theorem daysBeforeYear_succ (year : Int) :
    daysBeforeYear (year + 1) = daysBeforeYear year + total (monthLengths year) := by
  rw [total_monthLengths]
  have h := isLeapYear_iff year
  unfold daysBeforeYear
  split <;> simp_all <;> omega

/-- The estimate of the year of a day number is off by one year at most. -/
theorem estimate_spec (n : Int) : daysBeforeYear (400 * n / 146097 - 1) ≤ n ∧
    n < daysBeforeYear (400 * n / 146097 + 1 + 1) := by
  unfold daysBeforeYear
  omega

theorem yearOf_spec (n : Int) :
    daysBeforeYear (yearOf n) ≤ n ∧ n < daysBeforeYear (yearOf n + 1) := by
  obtain ⟨h₁, h₂⟩ := estimate_spec n
  simp only [yearOf]
  split
  · next h => exact ⟨h₁, by rwa [Int.sub_add_cancel]⟩
  split
  · next h => exact ⟨h, h₂⟩
  · next h h' => exact ⟨Int.not_lt.1 h, Int.not_le.1 h'⟩

theorem daysBeforeYear_mono {a b : Int} (h : a ≤ b) : daysBeforeYear a ≤ daysBeforeYear b := by
  unfold daysBeforeYear
  omega

/-- No other year encloses a day number. -/
theorem yearOf_eq {n year : Int} (h : daysBeforeYear year ≤ n)
    (h' : n < daysBeforeYear (year + 1)) : yearOf n = year := by
  obtain ⟨hlow, hhigh⟩ := yearOf_spec n
  rcases Int.lt_trichotomy (yearOf n) year with hlt | heq | hgt
  · have := daysBeforeYear_mono (show yearOf n + 1 ≤ year from hlt)
    omega
  · exact heq
  · have := daysBeforeYear_mono (show year + 1 ≤ yearOf n from hgt)
    omega

/-! ## Months -/

/-- The walk through months ends in the month that holds the day. -/
theorem monthAndDay_spec {lengths : List Nat} (month offset : Nat) (h : offset < total lengths) :
    ∃ i < lengths.length, ∃ day, monthAndDay month lengths offset =
      (month + i, day + 1) ∧ day < lengths.getD i 0 ∧ total (lengths.take i) + day = offset := by
  induction lengths generalizing month offset with
  | nil => exact absurd h (Nat.not_lt_zero _)
  | cons length rest ih =>
    rw [monthAndDay]
    split
    · next hl => exact ⟨0, Nat.zero_lt_succ _, offset, rfl, hl, Nat.zero_add _⟩
    · next hl =>
      rw [total] at h
      obtain ⟨i, hi, day, he, hd, hs⟩ := ih (month + 1) (offset - length) (by omega)
      refine ⟨i + 1, Nat.succ_lt_succ hi, day, ?_, hd, ?_⟩
      · rw [he, Nat.add_assoc, Nat.add_comm 1 i]
      · rw [List.take_succ_cons, total]
        omega

/-! ## The date of a day number -/

theorem ofDay_spec (n : Int) : ∃ i < 12, ∃ day < (monthLengths (yearOf n)).getD i 0,
    ofDay n = ⟨yearOf n, 1 + i, day + 1⟩ ∧
      daysBeforeYear (yearOf n) + (total ((monthLengths (yearOf n)).take i) + day : Nat) = n := by
  obtain ⟨h₁, h₂⟩ := yearOf_spec n
  rw [daysBeforeYear_succ] at h₂
  have hlt : (n - daysBeforeYear (yearOf n)).toNat < total (monthLengths (yearOf n)) := by omega
  obtain ⟨i, hi, day, he, hd, hs⟩ := monthAndDay_spec 1 _ hlt
  refine ⟨i, hi, day, hd, ?_, by omega⟩
  simp only [ofDay, he]

/-- **Every day number is that of a real date.** -/
theorem isReal_ofDay (n : Int) : (ofDay n).IsReal := by
  obtain ⟨i, hi, day, hd, h, -⟩ := ofDay_spec n
  rw [h]
  refine ⟨Nat.le_add_right 1 i, ?_, Nat.succ_le_succ (Nat.zero_le day), ?_⟩
  · show 1 + i ≤ 12
    omega
  · rw [Nat.add_sub_cancel_left]
    exact hd

/-- **The date of a day number has that number.** -/
theorem dayNumber_ofDay (n : Int) : (ofDay n).dayNumber = n := by
  obtain ⟨i, -, day, -, h, hn⟩ := ofDay_spec n
  rw [h]
  simpa [dayNumber, foldl_add] using hn

theorem total_take_add_getD_le (lengths : List Nat) (i : Nat) :
    total (lengths.take i) + lengths.getD i 0 ≤ total lengths := by
  induction lengths generalizing i with
  | nil =>
    rw [List.take_nil, List.getD_nil]
    exact Nat.le_refl _
  | cons length rest ih =>
    cases i with
    | zero => simp [total]
    | succ i =>
      rw [List.take_succ_cons, total, total, List.getD_cons_succ, Nat.add_assoc]
      exact Nat.add_le_add_left (ih i) length

theorem IsReal.dayNumber_bounds {d : Date} (h : d.IsReal) :
    daysBeforeYear d.year ≤ d.dayNumber ∧ d.dayNumber < daysBeforeYear (d.year + 1) := by
  obtain ⟨-, -, hday, hlast⟩ := h
  have htotal := total_take_add_getD_le (monthLengths d.year) (d.month - 1)
  rw [daysBeforeYear_succ, dayNumber, foldl_add]
  omega

/-- **The day number of a real date belongs to the year of that date.** -/
theorem IsReal.yearOf_dayNumber {d : Date} (h : d.IsReal) : yearOf d.dayNumber = d.year :=
  yearOf_eq h.dayNumber_bounds.1 h.dayNumber_bounds.2

theorem IsReal.day_le {d : Date} (h : d.IsReal) : d.day ≤ 31 :=
  Nat.le_trans h.2.2.2 (getD_monthLengths_le _ _)

/-! ## The day number of a date -/

/-- The walk through months finds the day that an offset was made of. -/
theorem monthAndDay_eq {lengths : List Nat} (month : Nat) {i day : Nat}
    (h : day < lengths.getD i 0) :
    monthAndDay month lengths (total (lengths.take i) + day) = (month + i, day + 1) := by
  induction lengths generalizing month i with
  | nil => exact absurd h (Nat.not_lt_zero _)
  | cons length rest ih =>
    cases i with
    | zero =>
      rw [List.take_zero, total, Nat.zero_add, monthAndDay]
      exact if_pos h
    | succ i =>
      rw [List.take_succ_cons, total, monthAndDay, if_neg (by omega),
        show length + total (rest.take i) + day - length = total (rest.take i) + day by omega,
        ih (month + 1) h, Nat.add_assoc, Nat.add_comm 1 i]

/-- **A real date is the date of its day number.** -/
theorem IsReal.ofDay_dayNumber {d : Date} (h : d.IsReal) : ofDay d.dayNumber = d := by
  have hyear := h.yearOf_dayNumber
  obtain ⟨year, month, day⟩ := d
  obtain ⟨hfirst, -, hday, hlast⟩ := h
  dsimp only at hyear hfirst hday hlast
  have hinside : day - 1 < (monthLengths year).getD (month - 1) 0 := by omega
  have hoffset : (dayNumber ⟨year, month, day⟩ - daysBeforeYear year).toNat =
      total ((monthLengths year).take (month - 1)) + (day - 1) := by
    rw [dayNumber, foldl_add]
    dsimp only
    omega
  simp only [ofDay, hyear, hoffset, monthAndDay_eq 1 hinside]
  rw [Nat.add_sub_cancel' hfirst, Nat.sub_add_cancel hday]

/-- The order of dates, years first. -/
def Before (d d' : Date) : Prop :=
  d.year < d'.year ∨ d.year = d'.year ∧ (d.month < d'.month ∨ d.month = d'.month ∧ d.day < d'.day)

theorem before_trichotomy (d d' : Date) : d.Before d' ∨ d = d' ∨ d'.Before d := by
  cases d
  cases d'
  simp only [Before, mk.injEq]
  omega

/-- Later dates have greater day numbers. -/
theorem IsReal.dayNumber_lt {d d' : Date} (h : d.IsReal) (h' : d'.IsReal) (hlt : d.Before d') :
    d.dayNumber < d'.dayNumber := by
  obtain hyear | ⟨hyear, hmonth | ⟨hmonth, hday⟩⟩ := hlt
  · have hmono := daysBeforeYear_mono (show d.year + 1 ≤ d'.year from hyear)
    have hend := h.dayNumber_bounds.2
    have hstart := h'.dayNumber_bounds.1
    omega
  · obtain ⟨hfirst, -, hday, hlast⟩ := h
    have htotal := total_take_add_getD_le ((monthLengths d'.year).take (d'.month - 1)) (d.month - 1)
    rw [List.take_take, Nat.min_eq_left (by omega), List.getD_eq_getElem?_getD,
      List.getElem?_take_of_lt (by omega), ← List.getD_eq_getElem?_getD] at htotal
    rw [hyear] at hlast
    rw [dayNumber, dayNumber, foldl_add, foldl_add, hyear]
    omega
  · have := h.2.2.1
    rw [dayNumber, dayNumber, foldl_add, foldl_add, hyear, hmonth]
    omega

/-- **Real dates are in the order of their day numbers.** -/
theorem IsReal.dayNumber_lt_iff {d d' : Date} (h : d.IsReal) (h' : d'.IsReal) :
    d.dayNumber < d'.dayNumber ↔ d.Before d' := by
  refine ⟨fun hlt => ?_, h.dayNumber_lt h'⟩
  obtain hbefore | rfl | hafter := before_trichotomy d d'
  · exact hbefore
  · exact absurd hlt (Int.lt_irrefl _)
  · exact absurd (h'.dayNumber_lt h hafter) (Int.lt_asymm hlt)

theorem IsReal.dayNumber_inj {d d' : Date} (h : d.IsReal) (h' : d'.IsReal) :
    d.dayNumber = d'.dayNumber ↔ d = d' :=
  ⟨fun he => by rw [← h.ofDay_dayNumber, he, h'.ofDay_dayNumber], congrArg dayNumber⟩

end JobRegistry.Date
