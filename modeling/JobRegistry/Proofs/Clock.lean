import JobRegistry.Clock
import JobRegistry.Proofs.Timestamp.Shift

/-!
# Advancing a clock

A clock that is advanced by a number of seconds reads the time that many seconds after its start,
if there is one (`advance_of_le`), and else keeps reading its start (`advance_of_lt`). So a longer
advance leads at least as far as a shorter one as long as it ends in the range of timestamps, and
past that it leads less far than one that ends there (`advance_forward`): the clock does not come to
rest at the last second (`advance_past_the_end`).
-/

namespace JobRegistry.Clock

open Timestamp (last longestSpan)

section

variable {c : Clock} {n : Int}

theorem now_advance {t : Timestamp} (h : c.now.plusSeconds? n = some t) :
    (c.advance n).now = t := by
  rw [advance, h]
  rfl

theorem advance_of_eq_none (h : c.now.plusSeconds? n = none) : c.advance n = c := by
  rw [advance, h]
  rfl

/-- Within the range of timestamps a clock is moved as far as it is told to. -/
theorem advance_of_le (hn : 0 ≤ n) (h : c.now.seconds + n ≤ last.seconds) :
    c.now.plusSeconds? n = some (c.advance n).now := by
  obtain ⟨t, ht⟩ := (c.now.exists_plusSeconds?_iff_of_nonneg hn).2 h
  rw [now_advance ht, ht]

/-- A clock that would be moved past the last second is not moved. -/
theorem advance_of_lt (hn : 0 ≤ n) (h : last.seconds < c.now.seconds + n) : c.advance n = c := by
  apply advance_of_eq_none
  rw [Option.eq_none_iff_forall_ne_some]
  intro t ht
  have hle := (c.now.exists_plusSeconds?_iff_of_nonneg hn).1 ⟨t, ht⟩
  omega

/-- A clock that is told to move forward does so unless this is by nothing or past the end. -/
theorem now_advance_le_iff (hn : 0 ≤ n) :
    (c.advance n).now ≤ c.now ↔ n = 0 ∨ last.seconds < c.now.seconds + n := by
  constructor
  · intro hle
    by_contra hmoves
    obtain ⟨hne, hend⟩ := not_or.1 hmoves
    have hlt : c.now < (c.advance n).now :=
      Timestamp.lt_of_plusSeconds? (by omega) (advance_of_le hn (Int.not_lt.1 hend))
    exact Timestamp.not_le_of_lt hlt hle
  · rintro (rfl | hend)
    · exact Timestamp.le_refl _
    · rw [advance_of_lt hn hend]
      exact Timestamp.le_refl _

end

/-- **How far a clock is advanced.** Advanced to a second that there is, a clock reads that second.
Advanced past the last second, or by more than the longest span, it stays, so that it reads the last
second only if it did before. A longer advance leads at least as far as a shorter one exactly if it
ends in the range, or the shorter one does not move the clock either. -/
theorem advance_forward (c : Clock) {a b : Int} (ha : 0 ≤ a) (hab : a ≤ b) :
    (c.now.seconds + b ≤ last.seconds → c.now.plusSeconds? b = some (c.advance b).now) ∧
    (last.seconds < c.now.seconds + b ∨ longestSpan < b →
      c.advance b = c ∧ ((c.advance b).now = last ↔ c.now = last)) ∧
    ((c.advance a).now ≤ (c.advance b).now ↔
      c.now.seconds + b ≤ last.seconds ∨ a = 0 ∨ last.seconds < c.now.seconds + a) := by
  have hb : 0 ≤ b := Int.le_trans ha hab
  have hstay (h : last.seconds < c.now.seconds + b ∨ longestSpan < b) : c.advance b = c := by
    rcases h with hend | hspan
    · exact advance_of_lt hb hend
    · exact advance_of_eq_none (c.now.plusSeconds?_eq_none_of_longestSpan_lt (by omega))
  refine ⟨advance_of_le hb, fun h => ⟨hstay h, by rw [hstay h]⟩, ?_⟩
  by_cases hin : c.now.seconds + b ≤ last.seconds
  · have hle : (c.advance a).now ≤ (c.advance b).now :=
      Timestamp.plusSeconds?_le_of_le hab (advance_of_le ha (by omega)) (advance_of_le hb hin)
    exact iff_of_true hle (.inl hin)
  · -- past the end, what the longer advance reads is the start
    rw [hstay (.inl (Int.not_le.1 hin)), or_iff_right hin]
    exact now_advance_le_iff ha

/-- The clock of the first of May 2024, at noon. -/
def noon : Clock := ⟨⟨1714564800, false, by decide, by decide, by decide⟩⟩

/-- A clock that is advanced by a day, by all that is left, and past the end. -/
theorem advance_forward_noon :
    let rest : Int := 8208552311999
    noon.now.plusSeconds? rest = some (noon.advance rest).now ∧
    (noon.advance 86400).now ≤ (noon.advance rest).now ∧
    noon.advance (rest + 1) = noon ∧ noon.advance 9223372036854775807 = noon := by
  intro rest
  obtain ⟨hmoves, -, horder⟩ :=
    advance_forward noon (a := 86400) (b := rest) (by decide) (by decide)
  have hin : noon.now.seconds + rest ≤ last.seconds := by decide
  have hpast := (advance_forward noon (a := 0) (b := rest + 1) (by decide) (by decide)).2.1
  have hspan := (advance_forward noon (a := 0) (b := 9223372036854775807) (by decide)
    (by decide)).2.1
  exact ⟨hmoves hin, horder.2 (.inl hin), (hpast (.inl (by decide))).1,
    (hspan (.inr (by decide))).1⟩

/-- An advance past the last second, or by a span that is too long, does not lead to the last
second, nor as far as an advance by one second. -/
theorem advance_past_the_end :
    (last.seconds < noon.now.seconds + 8208552312000 ∧
      ¬ (noon.advance 1).now ≤ (noon.advance 8208552312000).now ∧
      (noon.advance 8208552312000).now ≠ last) ∧
    (longestSpan < 9223372036854775807 ∧
      ¬ (noon.advance 1).now ≤ (noon.advance 9223372036854775807).now ∧
      (noon.advance 9223372036854775807).now ≠ last) := by
  decide

end JobRegistry.Clock
