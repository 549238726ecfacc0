import JobRegistry.Proofs.Number.Interval

/-!
# Bounds of rounding

Rounding to a double does not lead past a power of two (`nearest_le`). So a quotient of a double
that is at most a power of two and a double that is at least one stays at most that power
(`quotient_le`), and in particular finite.
-/

namespace JobRegistry.Number

namespace Format

/-! ## Values -/

/-- Greater magnitudes stand for greater numbers. -/
theorem value_le_value {f : Format} (hf : f.hidden % 2 = 0) {a b : Nat} (h : a ≤ b) :
    f.value a ≤ f.value b := by
  rcases h.eq_or_lt with rfl | h
  · exact le_rfl
  · have hends := (high_le_low hf h).1
    have ha := f.value_lt_high a
    have hb := f.low_lt_value b
    linarith

/-- The binary exponent of a quotient. -/
theorem quotientLog_spec {num den : Nat} (hn : 0 < num) (hd : 0 < den) :
    (2 : ℚ) ^ quotientLog num den ≤ num / den ∧
      (num / den : ℚ) < 2 ^ (quotientLog num den + 1) := by
  have hnlow : (2 : ℚ) ^ num.log2 ≤ num := by exact_mod_cast Nat.log2_self_le hn.ne'
  have hnhigh : (num : ℚ) < 2 ^ (num.log2 + 1) := by exact_mod_cast Nat.lt_log2_self
  have hdlow : (2 : ℚ) ^ den.log2 ≤ den := by exact_mod_cast Nat.log2_self_le hd.ne'
  have hdhigh : (den : ℚ) < 2 ^ (den.log2 + 1) := by exact_mod_cast Nat.lt_log2_self
  have hd' : (0 : ℚ) < den := by exact_mod_cast hd
  unfold quotientLog
  dsimp only
  generalize he : (num.log2 : ℤ) - den.log2 = e
  have htest : num * twoPow (-e).toNat < den * twoPow e.toNat ↔ (num / den : ℚ) < 2 ^ e := by
    have hdown : (0 : ℚ) < twoPow (-e).toNat := by exact_mod_cast twoPow_pos _
    rw [two_zpow, div_lt_div_iff₀ hd' hdown, mul_comm (twoPow e.toNat : ℚ)]
    exact_mod_cast Iff.rfl
  have hscale (k : ℤ) : (2 : ℚ) ^ (k + den.log2) = 2 ^ k * 2 ^ den.log2 := by
    rw [zpow_add₀ two_ne_zero, zpow_natCast]
  split
  · next h =>
    refine ⟨?_, by rw [sub_add_cancel]; exact htest.1 h⟩
    rw [le_div_iff₀ hd']
    calc (2 : ℚ) ^ (e - 1) * den ≤ 2 ^ (e - 1) * 2 ^ (den.log2 + 1) := by gcongr
      _ = 2 ^ num.log2 := by
          rw [← zpow_natCast, ← zpow_natCast, ← zpow_add₀ two_ne_zero]
          congr 1
          push_cast
          omega
      _ ≤ num := hnlow
  · next h =>
    refine ⟨not_lt.1 (mt htest.2 h), ?_⟩
    rw [div_lt_iff₀ hd']
    calc (num : ℚ) < 2 ^ (num.log2 + 1) := hnhigh
      _ = 2 ^ (e + 1) * 2 ^ den.log2 := by
          rw [← hscale, ← zpow_natCast]
          congr 1
          push_cast
          omega
      _ ≤ 2 ^ (e + 1) * den := by gcongr

/-- A quotient that is at most an integer is rounded to at most that integer. -/
theorem roundQuotient_le {num den n : Nat} (hd : 0 < den) (h : num ≤ n * den) :
    roundQuotient num den ≤ n := by
  have hdiv : num / den ≤ n := by
    rw [Nat.div_le_iff_le_mul_add_pred hd]
    rw [Nat.mul_comm]
    omega
  unfold roundQuotient
  dsimp only
  split
  · exact hdiv
  · next hround =>
    rcases hdiv.lt_or_eq with hlt | heq
    · exact hlt
    · -- nothing is left over where the quotient is the integer itself
      exfalso
      have hmod := Nat.div_add_mod num den
      rw [heq, Nat.mul_comm] at hmod
      apply hround
      left
      omega

/-- A quotient that is at most an integer of steps is rounded to at most that many. -/
theorem roundQuotient_scaled_le {num den n : Nat} (hd : 0 < den) {e : ℤ}
    (h : (num / den : ℚ) ≤ n * 2 ^ e) :
    roundQuotient (num * twoPow (-e).toNat) (den * twoPow e.toNat) ≤ n := by
  have hd' : (0 : ℚ) < den := by exact_mod_cast hd
  have hdown : (0 : ℚ) < twoPow (-e).toNat := by exact_mod_cast twoPow_pos _
  apply roundQuotient_le (Nat.mul_pos hd (twoPow_pos _))
  rw [two_zpow, ← mul_div_assoc, div_le_div_iff₀ hd' hdown] at h
  calc num * twoPow (-e).toNat ≤ n * twoPow e.toNat * den := by exact_mod_cast h
    _ = n * (den * twoPow e.toNat) := by ring

end Format

/-! ## Doubles -/

/-- A number that is at most a power of two is rounded to a double that is at most that power. -/
theorem nearest_le {num den k : Nat} (h : (num / den : ℚ) ≤ 2 ^ k) :
    binary64.nearest num den ≤ (k + 1023) * 2 ^ 52 := by
  unfold Format.nearest
  split
  · exact Nat.zero_le _
  · next hpos =>
    rw [not_or] at hpos
    have hd := Nat.pos_of_ne_zero hpos.2
    obtain ⟨hlow, hhigh⟩ := Format.quotientLog_spec (Nat.pos_of_ne_zero hpos.1) hd
    dsimp only
    rw [show binary64.minExponent = -1074 from rfl, show binary64.hidden = 2 ^ 52 from rfl,
      show (binary64.precision : ℤ) - 1 = 52 from rfl]
    generalize Format.quotientLog num den = q at *
    have hq : q ≤ k := by
      apply (zpow_le_zpow_iff_right₀ (one_lt_two (α := ℚ))).1
      rw [zpow_natCast]
      exact hlow.trans h
    obtain ⟨j, hj⟩ : ∃ j : ℕ, max (q - 52) (-1074) + j = k - 52 :=
      ⟨(k - 52 - max (q - 52) (-1074)).toNat, by omega⟩
    generalize he : max (q - 52) (-1074) = e at *
    have hpow : Format.roundQuotient (num * twoPow (-e).toNat) (den * twoPow e.toNat) ≤
        2 ^ (52 + j) := by
      apply Format.roundQuotient_scaled_le hd
      refine h.trans (le_of_eq ?_)
      push_cast
      rw [← zpow_natCast, ← zpow_natCast, ← zpow_add₀ two_ne_zero]
      congr 1
      push_cast
      omega
    have hnormal : Format.roundQuotient (num * twoPow (-e).toNat) (den * twoPow e.toNat) ≤
        2 ^ 53 := by
      apply Format.roundQuotient_scaled_le hd
      refine hhigh.le.trans ?_
      rw [Nat.cast_pow, Nat.cast_ofNat, ← zpow_natCast, ← zpow_add₀ two_ne_zero]
      apply zpow_le_zpow_right₀ one_le_two
      push_cast
      omega
    generalize Format.roundQuotient (num * twoPow (-e).toNat) (den * twoPow e.toNat) = m at *
    apply (min_le_left _ _).trans
    cases j with
    | zero => omega
    | succ j => omega

/-- The double that is a power of two. -/
theorem value_power (k : Nat) : binary64.value ((k + 1023) * 2 ^ 52) = 2 ^ k := by
  have hunpack : binary64.unpack ((k + 1023) * 2 ^ 52) = (2 ^ 52, (k : ℤ) - 52) := by
    unfold Format.unpack
    rw [show binary64.minExponent = -1074 from rfl, show binary64.hidden = 2 ^ 52 from rfl,
      if_neg (by omega), Nat.mul_mod_left, Nat.mul_div_cancel _ (by decide)]
    simp only [Prod.mk.injEq]
    omega
  rw [Format.value, hunpack, zpow_sub₀ two_ne_zero, zpow_natCast]
  push_cast
  field_simp

namespace Floating

/-- The number of a double as a quotient. -/
theorem ratio_eq {f : Format} (x : Floating f) :
    0 < x.ratio.2 ∧ (x.ratio.1 / x.ratio.2 : ℚ) = f.value x.magnitude := by
  refine ⟨twoPow_pos _, ?_⟩
  rw [Format.value, two_zpow]
  unfold ratio
  push_cast
  rw [mul_div_assoc]

/-- The double is at most a power of two. -/
def AtMost (x : Double) (k : Nat) : Prop :=
  x.magnitude ≤ (k + 1023) * 2 ^ 52

theorem AtMost.isFinite {x : Double} {k : Nat} (h : x.AtMost k) (hk : k ≤ 1023) :
    x.isFinite = true := by
  apply decide_eq_true
  have hlt : (k + 1023) * 2 ^ 52 < 2047 * 2 ^ 52 := by omega
  exact h.trans_lt hlt

theorem AtMost.ratio_le {x : Double} {k : Nat} (h : x.AtMost k) :
    (x.ratio.1 / x.ratio.2 : ℚ) ≤ 2 ^ k := by
  rw [x.ratio_eq.2, ← value_power k]
  exact Format.value_le_value rfl h

theorem atMost_ofQuotient {negative : Bool} {num den k : Nat} (h : (num / den : ℚ) ≤ 2 ^ k) :
    (ofQuotient binary64 negative num den).AtMost k := by
  have hnearest := nearest_le h
  have hlimit : binary64.nearest num den < binary64.limit := by
    have hle : binary64.nearest num den ≤ binary64.infinity := by
      unfold Format.nearest
      split
      · exact Nat.zero_le _
      · exact min_le_right _ _
    exact hle.trans_lt (by decide)
  unfold ofQuotient make
  rw [dif_pos hlimit]
  exact hnearest

/-- A quotient by a number that is at least one is at most what is divided. -/
theorem AtMost.quotient {x y : Double} {k : Nat} (hx : x.AtMost k) (hy : y.ratio.2 ≤ y.ratio.1) :
    (x.quotient y).AtMost k := by
  apply atMost_ofQuotient
  have hxpos : (0 : ℚ) < x.ratio.2 := by exact_mod_cast x.ratio_eq.1
  have hypos : (0 : ℚ) < y.ratio.2 := by exact_mod_cast y.ratio_eq.1
  have hy' : (y.ratio.2 : ℚ) ≤ y.ratio.1 := by exact_mod_cast hy
  refine le_trans ?_ hx.ratio_le
  push_cast
  rw [div_le_div_iff₀ (mul_pos hxpos (hypos.trans_le hy')) hxpos]
  calc (x.ratio.1 * y.ratio.2 * x.ratio.2 : ℚ) ≤ x.ratio.1 * y.ratio.1 * x.ratio.2 := by gcongr
    _ = x.ratio.1 * (x.ratio.2 * y.ratio.1) := by ring

end Floating

end JobRegistry.Number
