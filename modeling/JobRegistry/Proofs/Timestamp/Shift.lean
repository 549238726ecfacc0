import JobRegistry.Proofs.Record.Kinded
import JobRegistry.Proofs.Timestamp.Layout

/-!
# Shifting timestamps

A shift by a number of seconds is a matter of ranks: it leads to the timestamp at the `landing` of
the rank from which it starts, if there is one (`plusSeconds?_eq_some`). The rank of a leap second
lies between those of the whole seconds around it, so that a shift leaves it forward from the one
and backward from the other. On ranks it is plain that shifts keep the order of timestamps
(`landing_le_landing`), that a greater shift leads further (`landing_le_landing_of_le`), and that
shifts add up where they start from a whole second (`plusSeconds?_plusSeconds?`).

From a leap second they do not: one second forward and one back lead to the second after it.
-/

namespace JobRegistry.Timestamp

/-- The first second there is. -/
def first : Timestamp := ⟨-8334601228800, false, by decide, by decide, by decide⟩

/-- The last second there is. -/
def last : Timestamp := ⟨8210266876799, false, by decide, by decide, by decide⟩

/-- The longest span, in seconds, whose milliseconds are a number of sixty-four bits. -/
def longestSpan : Int := 9223372036854775

/-! ## Ranks -/

theorem rank_of_not_leap {t : Timestamp} (h : t.leap = false) : t.rank = 2 * t.seconds := by
  simp [rank, h]

theorem rank_div_two (t : Timestamp) : t.rank / 2 = t.seconds := by
  unfold rank
  split <;> omega

theorem not_leap_of_rank {t : Timestamp} {s : Int} (h : t.rank = 2 * s) :
    t.leap = false ∧ t.seconds = s := by
  unfold rank at h
  cases hl : t.leap <;> simp [hl] at h ⊢ <;> omega

/-- The whole seconds that have a timestamp. -/
theorem exists_rank_eq {s : Int} :
    (∃ t : Timestamp, t.rank = 2 * s) ↔ first.seconds ≤ s ∧ s ≤ last.seconds := by
  constructor
  · rintro ⟨t, ht⟩
    rw [← (not_leap_of_rank ht).2]
    exact ⟨t.seconds_ge, t.seconds_le⟩
  · intro h
    exact ⟨⟨s, false, h.1, h.2, nofun⟩, rank_of_not_leap rfl⟩

theorem ofUnix?_eq_some {s : Int} {t : Timestamp} : ofUnix? s = some t ↔ t.rank = 2 * s := by
  unfold ofUnix?
  constructor
  · intro h
    split at h
    · obtain rfl := Option.some.inj h
      exact rank_of_not_leap rfl
    · cases h
  · intro h
    obtain ⟨hleap, rfl⟩ := not_leap_of_rank h
    rw [dif_pos ⟨t.seconds_ge, t.seconds_le⟩, Option.some.injEq, ext_iff']
    exact ⟨rfl, hleap.symm⟩

/-! ## Where a shift leads -/

/-- The rank to which a shift leads from a rank: forward from the whole second at it or before it,
and backward from the one at it or after it. -/
def landing (rank n : Int) : Int :=
  if n = 0 then rank
  else if 0 < n then 2 * (rank / 2 + n)
  else 2 * ((rank + 1) / 2 + n)

section

variable {r r' m n : Int}

theorem landing_lt (h : n < 0) : landing r n < r := by
  unfold landing
  split_ifs <;> omega

theorem landing_le_landing (h : r ≤ r') (n : Int) : landing r n ≤ landing r' n := by
  unfold landing
  split_ifs <;> omega

theorem landing_le_landing_of_le (r : Int) (h : m ≤ n) : landing r m ≤ landing r n := by
  unfold landing
  split_ifs <;> omega

theorem landing_two_mul (s n : Int) : landing (2 * s) n = 2 * (s + n) := by
  unfold landing
  split_ifs <;> omega

end

section

variable {t u v : Timestamp} {m n : Int}

/-- **A shift leads to the timestamp at the landing of its rank**, if there is one. -/
theorem plusSeconds?_eq_some : t.plusSeconds? n = some u ↔ u.rank = landing t.rank n := by
  unfold plusSeconds? landing
  by_cases hn : n = 0
  · rw [if_pos hn, if_pos hn, Option.some.injEq, rank_inj, eq_comm]
  · rw [if_neg hn, if_neg hn, ofUnix?_eq_some]
    have hstart : 2 * (t.seconds + n + if t.leap = true ∧ n < 0 then 1 else 0) =
        if 0 < n then 2 * (t.rank / 2 + n) else 2 * ((t.rank + 1) / 2 + n) := by
      unfold rank
      split_ifs <;> simp_all <;> omega
    rw [hstart]

theorem plusSeconds?_lt (hn : n < 0) (h : t.plusSeconds? n = some u) : u < t := by
  rw [lt_iff, plusSeconds?_eq_some.1 h]
  exact landing_lt hn

/-- Shifts keep the order of timestamps. -/
theorem plusSeconds?_le_plusSeconds? {t' u' : Timestamp} (ht : t ≤ t')
    (hu : t.plusSeconds? n = some u) (hu' : t'.plusSeconds? n = some u') : u ≤ u' := by
  rw [le_iff] at ht ⊢
  rw [plusSeconds?_eq_some.1 hu, plusSeconds?_eq_some.1 hu']
  exact landing_le_landing ht n

/-- A greater shift does not lead to an earlier timestamp. -/
theorem plusSeconds?_le_of_le (hmn : m ≤ n) (hu : t.plusSeconds? m = some u)
    (hv : t.plusSeconds? n = some v) : u ≤ v := by
  rw [le_iff, plusSeconds?_eq_some.1 hu, plusSeconds?_eq_some.1 hv]
  exact landing_le_landing_of_le t.rank hmn

/-- From a whole second, two shifts in turn are one shift by their sum. -/
theorem plusSeconds?_plusSeconds? (ht : t.leap = false) (hu : t.plusSeconds? m = some u) (n : Int) :
    u.plusSeconds? n = t.plusSeconds? (m + n) := by
  have hrank : u.rank = 2 * (t.seconds + m) := by
    rw [plusSeconds?_eq_some.1 hu, rank_of_not_leap ht, landing_two_mul]
  have hlanding : landing u.rank n = landing t.rank (m + n) := by
    rw [hrank, rank_of_not_leap ht, landing_two_mul, landing_two_mul, Int.add_assoc]
  ext w
  rw [plusSeconds?_eq_some, plusSeconds?_eq_some, hlanding]

/-! ## Which shifts lead anywhere -/

theorem exists_plusSeconds?_of_landing {s : Int} (h : landing t.rank n = 2 * s) :
    (∃ u, t.plusSeconds? n = some u) ↔ first.seconds ≤ s ∧ s ≤ last.seconds := by
  simp only [plusSeconds?_eq_some, h, exists_rank_eq]

theorem exists_plusSeconds?_iff (ht : t.leap = false) (n : Int) :
    (∃ u, t.plusSeconds? n = some u) ↔
      first.seconds ≤ t.seconds + n ∧ t.seconds + n ≤ last.seconds :=
  exists_plusSeconds?_of_landing (by rw [rank_of_not_leap ht, landing_two_mul])

/-- Forward only the end of the range is in the way, also of a leap second. -/
theorem exists_plusSeconds?_iff_of_nonneg (t : Timestamp) (hn : 0 ≤ n) :
    (∃ u, t.plusSeconds? n = some u) ↔ t.seconds + n ≤ last.seconds := by
  obtain rfl | hpos : n = 0 ∨ 0 < n := by omega
  · exact iff_of_true ⟨t, rfl⟩ (by rw [Int.add_zero]; exact t.seconds_le)
  · have hlanding : landing t.rank n = 2 * (t.seconds + n) := by
      rw [landing, if_neg (Int.ne_of_gt hpos), if_pos hpos, rank_div_two]
    rw [exists_plusSeconds?_of_landing hlanding]
    exact and_iff_right (Int.le_trans t.seconds_ge (by omega))

/-- A limit on the length of spans would not be felt: a shift past it leads out of the range from
everywhere. -/
theorem plusSeconds?_eq_none_of_longestSpan_lt (t : Timestamp) (h : longestSpan < n.natAbs) :
    t.plusSeconds? n = none := by
  have hstart := t.rank_div_two
  have hge := t.seconds_ge
  have hle := t.seconds_le
  unfold longestSpan at h
  rw [Option.eq_none_iff_forall_ne_some]
  intro u hu
  have huge := u.seconds_ge
  have hule := u.seconds_le
  have hrank := plusSeconds?_eq_some.1 hu
  have hend := u.rank_div_two
  unfold landing at hrank
  split_ifs at hrank <;> omega

end

/-! ## The laws of shifts -/

/-- The timestamp is one of those of a record that was read from a document. -/
def FromDocument (t : Timestamp) : Prop :=
  ∃ (k : RecordKind) (d : Document) (r : k.Carrier),
    Record.ofDocument k.Carrier d = .ok r ∧ t ∈ k.timestamps r

/-- What was read from a document has a successor. -/
theorem FromDocument.exists_lt {t : Timestamp} (h : t.FromDocument) :
    ∃ u, t.plusSeconds? 1 = some u ∧ t < u := by
  obtain ⟨k, d, r, hread, ht⟩ := h
  obtain ⟨u, hu⟩ := exists_plusSeconds?_one (k.legible_of_ofDocument hread t ht)
  exact ⟨u, hu, lt_of_plusSeconds? (by decide) hu⟩

/-- **Shifts by seconds keep order.** Where a shift leads anywhere, it leads later if it is forward,
earlier if it is backward, and nowhere else if it is by nothing. Shifts by the same number of
seconds keep the order of timestamps, leap seconds among them, and of two shifts of one timestamp
the greater does not lead to the earlier. A shift from a whole second leads anywhere if its end is
in the range, and another shift after it makes one by the sum of both; shifts by more than the
longest span lead nowhere. A timestamp that was read from a document can be shifted by one second,
which leads to a later one. -/
theorem shift_laws (t : Timestamp) (n : Int) :
    (∀ u ∈ t.plusSeconds? n, (0 < n → t < u) ∧ (n = 0 → u = t) ∧ (n < 0 → u < t)) ∧
    (∀ t', t ≤ t' → ∀ u ∈ t.plusSeconds? n, ∀ u' ∈ t'.plusSeconds? n, u ≤ u') ∧
    (∀ m, m ≤ n → ∀ u ∈ t.plusSeconds? m, ∀ v ∈ t.plusSeconds? n, u ≤ v) ∧
    (t.leap = false →
      ((∃ u, t.plusSeconds? n = some u) ↔
        first.seconds ≤ t.seconds + n ∧ t.seconds + n ≤ last.seconds) ∧
      ∀ u ∈ t.plusSeconds? n, ∀ m, u.plusSeconds? m = t.plusSeconds? (n + m)) ∧
    (longestSpan < n.natAbs → t.plusSeconds? n = none) ∧
    (t.FromDocument → ∃ u, t.plusSeconds? 1 = some u ∧ t < u) := by
  have hstrict : ∀ u ∈ t.plusSeconds? n,
      (0 < n → t < u) ∧ (n = 0 → u = t) ∧ (n < 0 → u < t) := by
    intro u hu
    refine ⟨fun hn => lt_of_plusSeconds? hn hu, ?_, fun hn => plusSeconds?_lt hn hu⟩
    rintro rfl
    exact (Option.some.inj hu).symm
  have hordered : ∀ t', t ≤ t' → ∀ u ∈ t.plusSeconds? n, ∀ u' ∈ t'.plusSeconds? n, u ≤ u' :=
    fun _ ht _ hu _ hu' => plusSeconds?_le_plusSeconds? ht hu hu'
  have hfurther : ∀ m, m ≤ n → ∀ u ∈ t.plusSeconds? m, ∀ v ∈ t.plusSeconds? n, u ≤ v :=
    fun _ hm _ hu _ hv => plusSeconds?_le_of_le hm hu hv
  exact ⟨hstrict, hordered, hfurther,
    fun ht => ⟨exists_plusSeconds?_iff ht n, fun _ hu m => plusSeconds?_plusSeconds? ht hu m⟩,
    plusSeconds?_eq_none_of_longestSpan_lt t, FromDocument.exists_lt⟩

/-- The leap second at the end of the year 2016, the seconds around it, and an input that was made
in it. -/
theorem shift_laws_leapSecond :
    let before : Timestamp := ⟨1483228799, false, by decide, by decide, by decide⟩
    let after : Timestamp := ⟨1483228800, false, by decide, by decide, by decide⟩
    (leapSecond.FromDocument ∧ ∃ u, leapSecond.plusSeconds? 1 = some u ∧ leapSecond < u) ∧
    (leapSecond.plusSeconds? (-1) = some before ∧ before < leapSecond) ∧
    (before ≤ leapSecond ∧ ∃ u, before.plusSeconds? (-1) = some u ∧ u ≤ before) ∧
    (before.plusSeconds? 1 = some after ∧ leapSecond.plusSeconds? 1 = some after ∧
      leapSecond ≤ after) ∧
    (before.leap = false ∧ after.plusSeconds? (-1) = before.plusSeconds? 0) ∧
    after.plusSeconds? 9223372036854775807 = none := by
  intro before after
  have hread : leapSecond.FromDocument := by
    obtain ⟨d, hd⟩ := Record.exists_toDocument (R := RecordKind.input.Carrier)
      (Input.specimen leapSecond)
    have hlegible := (Record.legible_iff .input (Input.specimen leapSecond)).2 (by decide)
    exact ⟨.input, d, _, (Record.ofDocument_answers hd).eq_ok hlegible, List.mem_cons_self⟩
  have hback : leapSecond.plusSeconds? (-1) = some before := rfl
  have hnext : before.plusSeconds? 1 = some after := rfl
  have hforth : leapSecond.plusSeconds? 1 = some after := rfl
  have hstay : leapSecond.plusSeconds? 0 = some leapSecond := rfl
  have hearlier := ((shift_laws leapSecond (-1)).1 before hback).2.2 (by decide)
  have hle : before ≤ leapSecond := by decide
  have hordered := (shift_laws before (-1)).2.1 leapSecond hle _ rfl before hback
  have hfurther := (shift_laws leapSecond 1).2.2.1 0 (by decide) _ hstay _ hforth
  have hsum := ((shift_laws before 1).2.2.2.1 rfl).2 after hnext (-1)
  have hfar := (shift_laws after 9223372036854775807).2.2.2.2.1 (by decide)
  have hlater := (shift_laws leapSecond 1).2.2.2.2.2 hread
  exact ⟨⟨hread, hlater⟩, ⟨hback, hearlier⟩, ⟨hle, _, rfl, hordered⟩, ⟨hnext, hforth, hfurther⟩,
    ⟨rfl, hsum⟩, hfar⟩

/-- From a leap second, one second forward and one back do not lead to where they started. -/
example : (leapSecond.plusSeconds? 1).bind (·.plusSeconds? (-1)) ≠ leapSecond.plusSeconds? 0 := by
  decide

end JobRegistry.Timestamp
