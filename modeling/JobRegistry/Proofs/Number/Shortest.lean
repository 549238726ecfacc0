import Mathlib.Data.Int.Log
import Mathlib.Data.Rat.Floor
import JobRegistry.Proofs.Number.Interval

/-!
# Shortest digits read back

The shortest digits of a double spell a number that rounds to it (`roundsTo_shortest`), so different
doubles have different shortest digits. What the search needs is that it ends with a hit: the grid
of numerals with seventeen digits is finer than the numbers that round to one magnitude are wide
(`onGrid?_isSome`), provided that the decimal exponent is right, which the guess from the binary one
misses by less than the search for it mends (`decimalExponent_eq`, `guess_near`).
-/

namespace JobRegistry.Number

/-- The number that digits with an exponent spell. -/
def Decimal.value (d : Decimal) : ℚ :=
  d.digits * 10 ^ d.exponent

/-! ## The decimal exponent -/

theorem lt_tenPow_iff {num den : Nat} (hden : 0 < den) (k : ℤ) :
    num * tenPow (-k).toNat < den * tenPow k.toNat ↔ (num / den : ℚ) < 10 ^ k := by
  have hden' : (0 : ℚ) < den := by exact_mod_cast hden
  have hdown : (0 : ℚ) < tenPow (-k).toNat := by exact_mod_cast tenPow_pos _
  rw [ten_zpow, div_lt_div_iff₀ hden' hdown, mul_comm (tenPow k.toNat : ℚ)]
  exact_mod_cast Iff.rfl

/-- The search for a decimal exponent ends with it if it starts near enough. -/
theorem decimalExponent_eq {num den : Nat} (hden : 0 < den) {k : ℤ}
    (hlow : (10 : ℚ) ^ (k - 1) ≤ num / den) (hhigh : (num / den : ℚ) < 10 ^ k) {fuel : Nat}
    {guess : ℤ} (hguess : |guess - k| ≤ fuel) : decimalExponent num den fuel guess = k := by
  have hten : (1 : ℚ) < 10 := by norm_num
  have hle {j : ℤ} (h : (num / den : ℚ) < 10 ^ j) : k ≤ j := by
    have := (zpow_lt_zpow_iff_right₀ hten).1 (hlow.trans_lt h)
    omega
  have hlt {j : ℤ} (h : ¬ (num / den : ℚ) < 10 ^ j) : j < k :=
    (zpow_lt_zpow_iff_right₀ hten).1 ((not_lt.1 h).trans_lt hhigh)
  induction fuel generalizing guess with
  | zero =>
    rw [decimalExponent]
    rw [Nat.cast_zero, abs_nonpos_iff] at hguess
    omega
  | succ fuel ih =>
    rw [abs_le] at hguess
    push_cast at hguess
    rw [decimalExponent, show 1 - guess = -(guess - 1) by ring]
    split
    · next hk =>
      have hge := hle ((lt_tenPow_iff hden guess).1 hk)
      split
      · next hk' =>
        have hge' := hle ((lt_tenPow_iff hden (guess - 1)).1 hk')
        exact ih (abs_le.2 (by omega))
      · next hk' =>
        have hlt' := hlt (mt (lt_tenPow_iff hden (guess - 1)).2 hk')
        omega
    · next hk =>
      have hlt' := hlt (mt (lt_tenPow_iff hden guess).2 hk)
      exact ih (abs_le.2 (by omega))

/-- Every positive number has a decimal exponent. -/
theorem exists_decimalExponent {q : ℚ} (hq : 0 < q) :
    ∃ k : ℤ, (10 : ℚ) ^ (k - 1) ≤ q ∧ q < 10 ^ k := by
  refine ⟨Int.log 10 q + 1, ?_, ?_⟩
  · rw [add_sub_cancel_right]
    exact_mod_cast Int.zpow_log_le_self (by norm_num) hq
  · exact_mod_cast Int.lt_zpow_succ_log_self (b := 10) (by norm_num) q

/-! ## One grid -/

namespace Interval

/-- A hit on a grid lies in the interval. -/
theorem onGrid?_some {i : Interval} {k : ℤ} {n : Nat} {d : Decimal} (h : i.onGrid? k n = some d) :
    ∃ num den, 0 < den ∧ i.contains num den = true ∧ (num / den : ℚ) = d.value ∧ 0 < d.digits := by
  have hdown : 0 < tenPow (-(k - n)).toNat := tenPow_pos _
  have hvalue (m : Nat) : ((m * tenPow (k - n).toNat : ℕ) : ℚ) / tenPow (-(k - n)).toNat =
      Decimal.value ⟨m, k - n⟩ := by
    rw [Decimal.value, ten_zpow]
    push_cast
    rw [mul_div_assoc]
  unfold onGrid? at h
  dsimp only at h
  split at h
  · next hin =>
    rw [Bool.and_eq_true, Bool.and_eq_true, decide_eq_true_iff] at hin
    obtain rfl := Option.some.inj h
    exact ⟨_, _, hdown, hin.1.2, hvalue _, hin.1.1⟩
  · split at h
    · next hin =>
      obtain rfl := Option.some.inj h
      exact ⟨_, _, hdown, hin, hvalue _, Nat.succ_pos _⟩
    · cases h

/-- Without a hit neither neighbour of the value on the grid lies in the interval. -/
theorem onGrid?_none {i : Interval} {k : ℤ} {n : Nat} (h : i.onGrid? k n = none) :
    let s := k - n
    let below := i.value * tenPow (-s).toNat / (i.den * tenPow s.toNat)
    (0 < below → i.contains (below * tenPow s.toNat) (tenPow (-s).toNat) = false) ∧
      i.contains ((below + 1) * tenPow s.toNat) (tenPow (-s).toNat) = false := by
  unfold onGrid? at h
  dsimp only at h ⊢
  split at h
  · cases h
  · next hbelow =>
    split at h
    · cases h
    · next habove =>
      rw [Bool.not_eq_true] at habove
      refine ⟨fun hpos => ?_, habove⟩
      rw [habove, decide_eq_true hpos] at hbelow
      simpa using hbelow

/-- The search ends with a hit if one of its grids has one. -/
theorem search_hit {i : Interval} {k : ℤ} {fuel n j : Nat} (hn : n ≤ j) (hj : j < n + fuel)
    (h : (i.onGrid? k j).isSome) : ∃ m, i.onGrid? k m = some (i.search k fuel n) := by
  induction fuel generalizing n with
  | zero => omega
  | succ fuel ih =>
    rw [search]
    cases hd : i.onGrid? k n with
    | some d => exact ⟨n, hd⟩
    | none =>
      have hne : n ≠ j := by
        rintro rfl
        rw [hd] at h
        cases h
      exact ih (by omega) (by omega)

end Interval

/-- Trailing zeros do not matter. -/
theorem Decimal.trim_spec (fuel : Nat) {d : Decimal} (hd : 0 < d.digits) :
    (d.trim fuel).value = d.value ∧ 0 < (d.trim fuel).digits := by
  induction fuel generalizing d with
  | zero => exact ⟨rfl, hd⟩
  | succ fuel ih =>
    rw [trim]
    split
    · next hzero =>
      obtain ⟨m, hm⟩ := Nat.dvd_of_mod_eq_zero hzero
      have hdiv : d.digits / 10 = m := by omega
      have hpos : 0 < d.digits / 10 := by omega
      obtain ⟨hvalue, hpos⟩ := ih (d := ⟨d.digits / 10, d.exponent + 1⟩) hpos
      refine ⟨hvalue.trans ?_, hpos⟩
      rw [value, value, hdiv, hm, zpow_add_one₀ (by norm_num)]
      push_cast
      ring
    · exact ⟨rfl, hd⟩

/-! ## Doubles -/

theorem hidden_binary64 : binary64.hidden = 2 ^ 52 := rfl

theorem minExponent_binary64 : binary64.minExponent = -1074 := rfl

theorem infinity_binary64 : binary64.infinity = 2047 * 2 ^ 52 := rfl

section

variable {a m : Nat} {e : ℤ}

/-- The binary exponent of a finite double. -/
theorem binaryExponent_spec (h : binary64.Unpacked a m e) (ha : 0 < a)
    (hfin : a < binary64.infinity) :
    -1074 ≤ e + m.log2 ∧ e + m.log2 ≤ 1023 ∧ (2 : ℚ) ^ (e + m.log2) ≤ m * 2 ^ e ∧
      (m * 2 ^ e : ℚ) < 2 ^ (e + m.log2 + 1) := by
  have hm := h.significand_pos ha
  have hmag := h.magnitude
  have hleast := h.least
  have hlt := h.lt
  have hnormal := h.normal
  rw [hidden_binary64, minExponent_binary64] at *
  rw [infinity_binary64] at hfin
  have hpow : (0 : ℚ) < 2 ^ e := by positivity
  have hlow : (2 : ℚ) ^ m.log2 ≤ m := by exact_mod_cast Nat.log2_self_le hm.ne'
  have hhigh : (m : ℚ) < 2 ^ (m.log2 + 1) := by exact_mod_cast Nat.lt_log2_self
  have hlog : m.log2 < 53 := (Nat.log2_lt hm.ne').2 (by omega)
  refine ⟨by omega, ?_, ?_, ?_⟩
  · by_cases he : -1074 < e
    · have := hnormal he
      omega
    · omega
  · rw [add_comm, zpow_add₀ two_ne_zero, zpow_natCast]
    gcongr
  · rw [add_assoc, add_comm, zpow_add₀ two_ne_zero, ← Nat.cast_succ, zpow_natCast]
    gcongr

/-- A thousandth above `log₁₀ 2` times a binary exponent is at most four off the decimal one. -/
theorem guess_near_nat : ∀ n : ℕ, n < 2098 →
    10 ^ (((n : ℤ) - 1074) * 30103 / 100000 + 396).toNat * 2 ^ 1074 ≤ 2 ^ n * 10 ^ 400 ∧
      2 ^ (n + 1) * 10 ^ 400 ≤ 10 ^ (((n : ℤ) - 1074) * 30103 / 100000 + 405).toNat * 2 ^ 1074 := by
  decide +kernel

theorem guess_near {l : ℤ} (hl : -1074 ≤ l) (hl' : l ≤ 1023) :
    (10 : ℚ) ^ (l * 30103 / 100000 - 4) ≤ 2 ^ l ∧
      (2 : ℚ) ^ (l + 1) ≤ 10 ^ (l * 30103 / 100000 + 5) := by
  obtain ⟨n, hn⟩ := Int.eq_ofNat_of_zero_le (show 0 ≤ l + 1074 by omega)
  obtain ⟨hlow, hhigh⟩ := guess_near_nat n (by omega)
  rw [show (n : ℤ) - 1074 = l by omega] at hlow hhigh
  generalize hg : l * 30103 / 100000 = g at *
  obtain ⟨j, hj⟩ := Int.eq_ofNat_of_zero_le (show 0 ≤ g + 396 by omega)
  obtain ⟨k, hk⟩ := Int.eq_ofNat_of_zero_le (show 0 ≤ g + 405 by omega)
  rw [hj, Int.toNat_natCast] at hlow
  rw [hk, Int.toNat_natCast] at hhigh
  constructor
  · rw [show g - 4 = j - (400 : ℕ) by omega, show l = n - (1074 : ℕ) by omega,
      zpow_sub₀ (by norm_num), zpow_sub₀ two_ne_zero, div_le_div_iff₀ (by positivity)
      (by positivity)]
    simp only [zpow_natCast]
    exact_mod_cast hlow
  · rw [show g + 5 = k - (400 : ℕ) by omega, show l + 1 = (n + 1 : ℕ) - (1074 : ℕ) by omega,
      zpow_sub₀ two_ne_zero, zpow_sub₀ (by norm_num), div_le_div_iff₀ (by positivity)
      (by positivity)]
    simp only [zpow_natCast]
    exact_mod_cast hhigh

/-- The value lies between two neighbours on every grid. -/
theorem Interval.below_spec {i : Interval} (hden : 0 < i.den) (s : ℤ) :
    let below := i.value * tenPow (-s).toNat / (i.den * tenPow s.toNat)
    (below * 10 ^ s : ℚ) ≤ i.value / i.den ∧ (i.value / i.den : ℚ) < (below + 1) * 10 ^ s := by
  have hup : 0 < tenPow s.toNat := tenPow_pos _
  have hdown : (0 : ℚ) < tenPow (-s).toNat := by exact_mod_cast tenPow_pos _
  have hden' : (0 : ℚ) < i.den := by exact_mod_cast hden
  intro below
  have hle : below * (i.den * tenPow s.toNat) ≤ i.value * tenPow (-s).toNat :=
    Nat.div_mul_le_self _ _
  have hlt : i.value * tenPow (-s).toNat < i.den * tenPow s.toNat * (below + 1) :=
    Nat.lt_mul_div_succ _ (Nat.mul_pos hden hup)
  rw [ten_zpow, ← mul_div_assoc, ← mul_div_assoc, div_le_div_iff₀ hdown hden',
    div_lt_div_iff₀ hden' hdown]
  constructor
  · calc (below * tenPow s.toNat * i.den : ℚ) = (below * (i.den * tenPow s.toNat) : ℕ) := by
          push_cast
          ring
      _ ≤ _ := by exact_mod_cast hle
  · calc (i.value * tenPow (-s).toNat : ℚ) < (i.den * tenPow s.toNat * (below + 1) : ℕ) := by
          exact_mod_cast hlt
      _ = _ := by
          push_cast
          ring

/-- The numbers that round to a double lie farther apart than a grid whose step is the double
divided by `10 ^ 16`. -/
theorem lt_width {u : ℚ} (hu : 10 ^ 16 * u ≤ binary64.value a) :
    u < binary64.high a - binary64.low a := by
  have hpow : (0 : ℚ) < 2 ^ (binary64.unpack a).2 := by positivity
  have hlt : ((binary64.unpack a).1 : ℚ) < 2 ^ 53 := by exact_mod_cast (binary64.unpacked a).lt
  -- a significand that reaches down a quarter only is the least normal one
  have hreach : ((binary64.unpack a).1 : ℚ) < 10 ^ 16 * (1 / 2 + binary64.reach a) := by
    unfold Format.reach
    split
    · next hr =>
      rw [hr.1, hidden_binary64]
      norm_num
    · linarith
  have hwidth : binary64.high a - binary64.low a =
      (1 / 2 + binary64.reach a) * 2 ^ (binary64.unpack a).2 := by
    unfold Format.high Format.low
    ring
  have hvalue : binary64.value a <
      10 ^ 16 * ((1 / 2 + binary64.reach a) * 2 ^ (binary64.unpack a).2) := by
    rw [← mul_assoc]
    exact mul_lt_mul_of_pos_right hreach hpow
  rw [hwidth]
  linarith

/-- The grid of numerals with seventeen digits has one that reads back. -/
theorem onGrid?_isSome (ha : 0 < a) {k : ℤ} (hk : (10 : ℚ) ^ (k - 1) ≤ binary64.value a) :
    ((binary64.interval a).onGrid? k 17).isSome := by
  obtain ⟨hden, -, hvalue, -, -⟩ := binary64.interval_spec ha
  rw [Option.isSome_iff_ne_none]
  intro hnone
  obtain ⟨hbelow, habove⟩ := Interval.onGrid?_none hnone
  obtain ⟨hle, hlt⟩ := Interval.below_spec hden (k - (17 : ℕ))
  have hup : 0 < tenPow (-(k - (17 : ℕ))).toNat := tenPow_pos _
  have hpoint (n : ℕ) : ((n * tenPow (k - (17 : ℕ)).toNat : ℕ) : ℚ) /
      tenPow (-(k - (17 : ℕ))).toNat = n * 10 ^ (k - (17 : ℕ)) := by
    rw [ten_zpow]
    push_cast
    rw [mul_div_assoc]
  generalize hb : (binary64.interval a).value * tenPow (-(k - (17 : ℕ))).toNat /
    ((binary64.interval a).den * tenPow (k - (17 : ℕ)).toNat) = below at *
  rw [hvalue] at hle hlt
  have hstep : 10 ^ 16 * 10 ^ (k - (17 : ℕ)) ≤ binary64.value a := by
    refine le_trans (le_of_eq ?_) hk
    rw [← zpow_natCast, ← zpow_add₀ (by norm_num)]
    congr 1
    push_cast
    ring
  have hunit : (0 : ℚ) < 10 ^ (k - (17 : ℕ)) := by positivity
  have hpos : 0 < below := by
    by_contra hzero
    obtain rfl : below = 0 := by omega
    rw [Nat.cast_zero, zero_add, one_mul] at hlt
    linarith
  -- both neighbours miss, so they are on or past the ends
  have hlow : below * 10 ^ (k - (17 : ℕ)) ≤ binary64.low a := by
    by_contra hin
    have hround : binary64.RoundsTo (below * 10 ^ (k - (17 : ℕ))) a :=
      Format.RoundsTo.of_lt (not_le.1 hin) (hle.trans_lt (binary64.value_lt_high a))
    rw [← hpoint below, ← Format.contains_iff ha hup, hbelow hpos] at hround
    cases hround
  have hhigh : binary64.high a ≤ (below + 1) * 10 ^ (k - (17 : ℕ)) := by
    by_contra hin
    have hround : binary64.RoundsTo ((below + 1 : ℕ) * 10 ^ (k - (17 : ℕ))) a := by
      apply Format.RoundsTo.of_lt
      · push_cast
        exact (binary64.low_lt_value a).trans hlt
      · push_cast
        exact not_le.1 hin
    rw [← hpoint (below + 1), ← Format.contains_iff ha hup, habove] at hround
    cases hround
  have hwidth := lt_width hstep
  linarith

end

/-- **The shortest digits of a double spell a number that rounds to it.** -/
theorem roundsTo_shortest {a : Nat} (ha : 0 < a) (hfin : a < binary64.infinity) :
    binary64.RoundsTo (binary64.shortest a).value a ∧ 0 < (binary64.shortest a).digits := by
  obtain ⟨hden, -, hvalue, -, -⟩ := binary64.interval_spec ha
  have hpos : 0 < binary64.value a := (Format.low_pos ha).trans (binary64.low_lt_value a)
  obtain ⟨k, hlow, hhigh⟩ := exists_decimalExponent hpos
  obtain ⟨hmin, hmax, hbelow, habove⟩ := binaryExponent_spec (binary64.unpacked a) ha hfin
  obtain ⟨hg, hg'⟩ := guess_near hmin hmax
  unfold Format.shortest
  dsimp only
  generalize (binary64.unpack a).2 + (binary64.unpack a).1.log2 = l at *
  generalize l * 30103 / 100000 = g at *
  have hten : (1 : ℚ) < 10 := by norm_num
  have hk : g - 4 < k := by
    apply (zpow_lt_zpow_iff_right₀ hten).1
    exact (hg.trans hbelow).trans_lt hhigh
  have hk' : k - 1 < g + 5 := by
    apply (zpow_lt_zpow_iff_right₀ hten).1
    exact hlow.trans_lt (habove.trans_le hg')
  have hexp : decimalExponent (binary64.interval a).value (binary64.interval a).den 4 (g + 1) =
      k := by
    apply decimalExponent_eq hden (by rwa [hvalue]) (by rwa [hvalue])
    rw [abs_le]
    push_cast
    omega
  rw [hexp]
  have h17 := onGrid?_isSome ha hlow
  obtain ⟨n, hn⟩ := Interval.search_hit (show 1 ≤ 17 by decide) (show 17 < 1 + 20 by decide) h17
  obtain ⟨num, den, hden', hin, hnum, hdigits⟩ := Interval.onGrid?_some hn
  obtain ⟨htrim, htrim'⟩ := Decimal.trim_spec 20 hdigits
  rw [htrim, ← hnum]
  exact ⟨(Format.contains_iff ha hden').1 hin, htrim'⟩

end JobRegistry.Number
