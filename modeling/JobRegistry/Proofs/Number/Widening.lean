import JobRegistry.Proofs.Number.Binary

/-!
# Double precision holds single precision

A quotient that is the value of a finite magnitude is rounded to that magnitude (`nearest_eq`).
Every finite single has the value of a finite double (`exists_value_eq`): doubles have more bits in
their significands and reach further in either direction. So a single that is converted to a double
and back is as it was (`convert_convert`).
-/

namespace JobRegistry.Number

namespace Format

variable {f : Format} {a m n : Nat} {d e : ℤ}

/-! ## Significands and exponents are unique -/

theorem Unpacked.exponent_le (h : f.Unpacked a m e) (h' : f.Unpacked a n d) : e ≤ d := by
  by_contra hlt
  rw [not_le] at hlt
  have hm := h.normal (h'.least.trans_lt hlt)
  have hn := h'.lt
  have hstep : (f.hidden : ℤ) * (d - f.minExponent) + f.hidden ≤
      f.hidden * (e - f.minExponent) := by
    calc (f.hidden : ℤ) * (d - f.minExponent) + f.hidden = f.hidden * (d - f.minExponent + 1) := by
          ring
      _ ≤ f.hidden * (e - f.minExponent) := mul_le_mul_of_nonneg_left (by omega) (by omega)
  have := h.magnitude.symm.trans h'.magnitude
  omega

theorem Unpacked.unpack_eq (h : f.Unpacked a m e) : f.unpack a = (m, e) := by
  have h' := f.unpacked a
  have he : (f.unpack a).2 = e := le_antisymm (h'.exponent_le h) (h.exponent_le h')
  have hm := h'.magnitude.symm.trans h.magnitude
  rw [he] at hm
  exact Prod.ext (by omega) he

theorem Unpacked.value_eq (h : f.Unpacked a m e) : f.value a = m * 2 ^ e := by
  rw [value, h.unpack_eq]

/-- A number with few enough bits and an exponent that is not too small is the value of a
magnitude. -/
theorem exists_value_eq (hm : m < 2 * f.hidden) (he : f.minExponent ≤ e) :
    ∃ a : Nat, f.value a = m * 2 ^ e ∧ (a : ℤ) < f.hidden * (e - f.minExponent + 2) := by
  obtain ⟨k, rfl⟩ : ∃ k : ℕ, e = f.minExponent + k := ⟨(e - f.minExponent).toNat, by omega⟩
  induction k generalizing m with
  | zero =>
    have h : f.Unpacked m m f.minExponent :=
      ⟨by ring, le_rfl, hm, fun h => absurd h (lt_irrefl _)⟩
    refine ⟨m, by rw [h.value_eq]; norm_num, ?_⟩
    push_cast
    linarith
  | succ k ih =>
    by_cases hnormal : f.hidden ≤ m
    · have h : f.Unpacked (f.hidden * (k + 1) + m) m (f.minExponent + (k + 1 : ℕ)) :=
        ⟨by push_cast; ring, he, hm, fun _ => hnormal⟩
      refine ⟨_, h.value_eq, ?_⟩
      push_cast
      linarith
    · -- the significand has room for one more bit
      obtain ⟨a, ha, hlt⟩ := ih (m := 2 * m) (by omega) (by omega)
      refine ⟨a, ?_, ?_⟩
      · rw [ha, Nat.cast_succ, ← add_assoc, zpow_add_one₀ two_ne_zero]
        push_cast
        ring
      · have hpos : (0 : ℤ) < f.hidden := by exact_mod_cast f.hidden_pos
        push_cast at hlt ⊢
        linarith

/-! ## Rounding what needs no rounding -/

theorem hidden_eq (hf : 1 ≤ f.precision) : (f.hidden : ℚ) = 2 ^ ((f.precision : ℤ) - 1) := by
  have hcast : (f.precision : ℤ) - 1 = ((f.precision - 1 : ℕ) : ℤ) := by omega
  rw [hcast, zpow_natCast, hidden, twoPow]
  exact Nat.cast_pow 2 _

theorem roundQuotient_mul (hd : 0 < n) : roundQuotient (m * n) n = m := by
  unfold roundQuotient
  dsimp only
  rw [Nat.mul_mod_left, Nat.mul_div_cancel _ hd, if_pos (.inl hd)]

/-- The exponent of the magnitude with a given value. -/
theorem exponent_eq (hf : 1 ≤ f.precision) (h : f.Unpacked a m e) {num den : Nat} (hnum : 0 < num)
    (hden : 0 < den) (hvalue : (num / den : ℚ) = m * 2 ^ e) :
    max (quotientLog num den - (f.precision - 1)) f.minExponent = e := by
  obtain ⟨hlow, hhigh⟩ := quotientLog_spec hnum hden
  rw [hvalue] at hlow hhigh
  have hpow : (0 : ℚ) < 2 ^ e := by positivity
  have hupper : quotientLog num den < f.precision + e := by
    apply (zpow_lt_zpow_iff_right₀ (one_lt_two (α := ℚ))).1
    have hm : (m : ℚ) < 2 * f.hidden := by exact_mod_cast h.lt
    calc (2 : ℚ) ^ quotientLog num den ≤ m * 2 ^ e := hlow
      _ < 2 * f.hidden * 2 ^ e := by gcongr
      _ = 2 ^ ((f.precision : ℤ) + e) := by
          rw [hidden_eq hf, zpow_add₀ two_ne_zero, zpow_sub_one₀ two_ne_zero]
          ring
  rcases h.least.eq_or_lt with heq | hlt
  · omega
  · have hlower : (f.precision : ℤ) - 1 + e < quotientLog num den + 1 := by
      apply (zpow_lt_zpow_iff_right₀ (one_lt_two (α := ℚ))).1
      have hm : (f.hidden : ℚ) ≤ m := by exact_mod_cast h.normal hlt
      calc (2 : ℚ) ^ ((f.precision : ℤ) - 1 + e) = f.hidden * 2 ^ e := by
            rw [hidden_eq hf, zpow_add₀ two_ne_zero]
        _ ≤ m * 2 ^ e := by gcongr
        _ < 2 ^ (quotientLog num den + 1) := hhigh
    omega

/-- **The value of a finite magnitude is rounded to that magnitude.** -/
theorem nearest_eq (hf : 1 ≤ f.precision) (ha : a < f.infinity) {num den : Nat} (hden : 0 < den)
    (hvalue : (num / den : ℚ) = f.value a) : f.nearest num den = a := by
  have h := f.unpacked a
  rw [h.value_eq] at hvalue
  generalize (f.unpack a).1 = m at *
  generalize (f.unpack a).2 = e at *
  have hden' : (0 : ℚ) < den := by exact_mod_cast hden
  unfold nearest
  split
  · next hzero =>
    obtain rfl := hzero.resolve_right hden.ne'
    by_contra hne
    have hm : (0 : ℚ) < m := by exact_mod_cast h.significand_pos (Nat.pos_of_ne_zero (Ne.symm hne))
    have hpos : (0 : ℚ) < m * 2 ^ e := by positivity
    rw [← hvalue, Nat.cast_zero, zero_div] at hpos
    exact lt_irrefl _ hpos
  · next hne =>
    rw [not_or] at hne
    dsimp only
    rw [exponent_eq hf h (Nat.pos_of_ne_zero hne.1) hden hvalue]
    have hround : num * twoPow (-e).toNat = m * (den * twoPow e.toNat) := by
      have hdown : (0 : ℚ) < twoPow (-e).toNat := by exact_mod_cast twoPow_pos _
      rw [two_zpow, ← mul_div_assoc, div_eq_div_iff hden'.ne' hdown.ne'] at hvalue
      have : num * twoPow (-e).toNat = m * twoPow e.toNat * den := by exact_mod_cast hvalue
      rw [this, Nat.mul_assoc, Nat.mul_comm (twoPow e.toNat)]
    rw [hround, roundQuotient_mul (Nat.mul_pos hden (twoPow_pos _))]
    have hmag : (e - f.minExponent).toNat * f.hidden + m = a := by
      have hcast : ((e - f.minExponent).toNat : ℤ) = e - f.minExponent :=
        Int.toNat_of_nonneg (by have := h.least; omega)
      zify
      rw [hcast, h.magnitude, mul_comm]
    rw [hmag, min_eq_left ha.le]

end Format

/-! ## Converting -/

namespace Floating

variable {f g : Format}

/-- A finite number is converted to the number of another format that has its value. -/
theorem convert_eq (hg : 1 ≤ g.precision) {x : Floating f} {y : Floating g} (hx : x.isFinite = true)
    (hy : y.isFinite = true) (hsign : x.negative = y.negative)
    (hvalue : f.value x.magnitude = g.value y.magnitude) : x.convert g = y := by
  have hnan : ¬ x.isNaN = true := by
    unfold isNaN
    unfold isFinite at hx
    rw [decide_eq_true_iff] at hx ⊢
    omega
  have hnearest : g.nearest x.ratio.1 x.ratio.2 = y.magnitude :=
    Format.nearest_eq hg (of_decide_eq_true hy) x.ratio_eq.1 (x.ratio_eq.2.trans hvalue)
  rw [convert, if_neg hnan, if_pos hx, ofQuotient, hnearest, make, dif_pos y.magnitude_lt, hsign]

/-- Every finite single has the value of a finite double. -/
theorem exists_double {x : Single} (hx : x.isFinite = true) : ∃ y : Double, y.isFinite = true ∧
    y.negative = x.negative ∧ binary64.value y.magnitude = binary32.value x.magnitude := by
  have hlt : x.magnitude < 255 * 2 ^ 23 := of_decide_eq_true hx
  have h := binary32.unpacked x.magnitude
  rw [h.value_eq]
  generalize (binary32.unpack x.magnitude).1 = m at *
  generalize (binary32.unpack x.magnitude).2 = e at *
  have hm : m < 2 * 2 ^ 23 := h.lt
  have hleast : -149 ≤ e := h.least
  have hmag : (x.magnitude : ℤ) = 2 ^ 23 * (e - -149) + m := h.magnitude
  have hm' : m < 2 * binary64.hidden := hm.trans (by decide)
  have hleast' : binary64.minExponent ≤ e := le_trans (by decide) hleast
  obtain ⟨b, hvalue, hb⟩ := Format.exists_value_eq hm' hleast'
  have hb : (b : ℤ) < 2 ^ 52 * (e - -1074 + 2) := hb
  have hfinite : b < 2047 * 2 ^ 52 := by omega
  exact ⟨⟨x.negative, b, hfinite.trans (by decide)⟩, decide_eq_true hfinite, rfl, hvalue⟩

theorem convert_infinite (negative : Bool) :
    (infinite binary32 negative).convert binary64 = infinite binary64 negative ∧
      (infinite binary64 negative).convert binary32 = infinite binary32 negative := by
  cases negative <;> decide +kernel

/-- **A single that is converted to a double and back is as it was**, unless it is not a number. -/
theorem convert_convert (x : Single) (hx : x.isNaN = false) :
    (x.convert binary64).convert binary32 = x := by
  by_cases hfinite : x.isFinite = true
  · obtain ⟨y, hy, hsign, hvalue⟩ := exists_double hfinite
    rw [convert_eq (by decide) hfinite hy hsign.symm hvalue.symm,
      convert_eq (by decide) hy hfinite hsign hvalue]
  · have hmag : x.magnitude = binary32.infinity := by
      have hle : ¬ binary32.infinity < x.magnitude := of_decide_eq_false hx
      have hge : ¬ x.magnitude < binary32.infinity := mt decide_eq_true hfinite
      omega
    have heq : x = infinite binary32 x.negative := by
      obtain ⟨negative, magnitude, hlt⟩ := x
      dsimp only at hmag
      subst hmag
      unfold infinite make
      rw [dif_pos hlt]
    rw [heq, (convert_infinite _).1, (convert_infinite _).2]

end Floating

end JobRegistry.Number
