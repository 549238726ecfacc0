import Mathlib.Algebra.Order.Field.Power
import Mathlib.Algebra.Order.Field.Rat
import Mathlib.Tactic.FieldSimp
import Mathlib.Tactic.Linarith
import Mathlib.Tactic.Positivity
import Mathlib.Tactic.Ring
import JobRegistry.Number.Shortest

/-!
# The numbers that round to a magnitude

A finite magnitude stands for `m * 2 ^ e`, its significand and its exponent (`Format.value`). The
numbers that round to it reach half way to its neighbours on either side, the ends included when its
significand is even (`Format.RoundsTo`). No number rounds to two magnitudes (`RoundsTo.unique`): the
upper end of one is at most the lower end of any greater one (`high_le_low`), and where the two meet
only one of the significands is even.
-/

namespace JobRegistry.Number

/-! ## Powers -/

theorem two_zpow (e : ℤ) : (2 : ℚ) ^ e = twoPow e.toNat / twoPow (-e).toNat := by
  rcases le_total 0 e with h | h
  · obtain ⟨n, rfl⟩ := Int.eq_ofNat_of_zero_le h
    simp [twoPow]
  · obtain ⟨n, hn⟩ := Int.eq_ofNat_of_zero_le (Int.neg_nonneg_of_nonpos h)
    obtain rfl : e = -n := by omega
    simp [twoPow]

theorem ten_zpow (e : ℤ) : (10 : ℚ) ^ e = tenPow e.toNat / tenPow (-e).toNat := by
  rcases le_total 0 e with h | h
  · obtain ⟨n, rfl⟩ := Int.eq_ofNat_of_zero_le h
    simp [tenPow]
  · obtain ⟨n, hn⟩ := Int.eq_ofNat_of_zero_le (Int.neg_nonneg_of_nonpos h)
    obtain rfl : e = -n := by omega
    simp [tenPow]

namespace Format

variable {f : Format} {a b : Nat}

/-! ## Significands and exponents -/

theorem hidden_pos (f : Format) : 0 < f.hidden :=
  twoPow_pos _

/-- What the parts of a magnitude are. -/
structure Unpacked (f : Format) (a m : Nat) (e : ℤ) : Prop where
  magnitude : (a : ℤ) = f.hidden * (e - f.minExponent) + m
  least : f.minExponent ≤ e
  lt : m < 2 * f.hidden
  /-- Only at the least exponent may the leading bit be missing. -/
  normal : f.minExponent < e → f.hidden ≤ m

theorem unpacked (f : Format) (a : Nat) : f.Unpacked a (f.unpack a).1 (f.unpack a).2 := by
  have hpos := f.hidden_pos
  unfold unpack
  split
  · next h =>
    dsimp only
    exact ⟨by simp, le_rfl, by omega, fun h => absurd h (lt_irrefl _)⟩
  · next h =>
    dsimp only
    have hdiv : 1 ≤ a / f.hidden := (Nat.one_le_div_iff hpos).2 (by omega)
    have hmod : a % f.hidden < f.hidden := Nat.mod_lt a hpos
    have hcast : ((a / f.hidden - 1 : ℕ) : ℤ) = a / f.hidden - 1 := by omega
    refine ⟨?_, by omega, by omega, fun _ => by omega⟩
    have hsplit : (f.hidden : ℤ) * (a / f.hidden) + a % f.hidden = a :=
      Int.mul_ediv_add_emod a f.hidden
    rw [hcast]
    push_cast
    linarith

theorem Unpacked.significand_pos {m : Nat} {e : ℤ} (h : f.Unpacked a m e) (ha : 0 < a) : 0 < m := by
  by_contra hm
  have hpos := f.hidden_pos
  have hm : m = 0 := by omega
  have he : ¬ f.minExponent < e := fun he => by have := h.normal he; omega
  have heq : e = f.minExponent := le_antisymm (not_lt.1 he) h.least
  have hmag := h.magnitude
  rw [hm, heq, sub_self, mul_zero] at hmag
  omega

/-! ## Values and ends -/

/-- The number that a finite magnitude stands for. -/
def value (f : Format) (a : Nat) : ℚ :=
  (f.unpack a).1 * 2 ^ (f.unpack a).2

/-- How far the numbers that round to a magnitude reach down, in steps of its significand: the
neighbour below is nearer where the exponent changes. -/
def reach (f : Format) (a : Nat) : ℚ :=
  if (f.unpack a).1 = f.hidden ∧ f.minExponent < (f.unpack a).2 then 1 / 4 else 1 / 2

/-- The lower end of the numbers that round to a magnitude. -/
def low (f : Format) (a : Nat) : ℚ :=
  ((f.unpack a).1 - f.reach a) * 2 ^ (f.unpack a).2

/-- The upper end of the numbers that round to a magnitude. -/
def high (f : Format) (a : Nat) : ℚ :=
  ((f.unpack a).1 + 1 / 2) * 2 ^ (f.unpack a).2

/-- The number rounds to a magnitude, of two equally near ones to the even one. -/
structure RoundsTo (f : Format) (q : ℚ) (a : Nat) : Prop where
  low_le : f.low a ≤ q
  le_high : q ≤ f.high a
  even : q = f.low a ∨ q = f.high a → (f.unpack a).1 % 2 = 0

theorem reach_pos (f : Format) (a : Nat) : 0 < f.reach a := by
  unfold reach
  split <;> norm_num

theorem low_lt_value (f : Format) (a : Nat) : f.low a < f.value a := by
  have hpow : (0 : ℚ) < 2 ^ (f.unpack a).2 := by positivity
  have hreach := f.reach_pos a
  unfold low value
  gcongr
  linarith

theorem value_lt_high (f : Format) (a : Nat) : f.value a < f.high a := by
  have hpow : (0 : ℚ) < 2 ^ (f.unpack a).2 := by positivity
  unfold value high
  gcongr
  linarith

theorem low_pos (ha : 0 < a) : 0 < f.low a := by
  have hm : 1 ≤ (f.unpack a).1 := (f.unpacked a).significand_pos ha
  have hcast : (1 : ℚ) ≤ (f.unpack a).1 := by exact_mod_cast hm
  have hreach : f.reach a ≤ 1 / 2 := by
    unfold reach
    split <;> norm_num
  have hpow : (0 : ℚ) < 2 ^ (f.unpack a).2 := by positivity
  exact mul_pos (by linarith) hpow

theorem RoundsTo.pos {q : ℚ} (h : f.RoundsTo q a) (ha : 0 < a) : 0 < q :=
  (low_pos ha).trans_le h.low_le

theorem RoundsTo.of_lt {q : ℚ} (hlow : f.low a < q) (hhigh : q < f.high a) : f.RoundsTo q a where
  low_le := hlow.le
  le_high := hhigh.le
  even h := by
    rcases h with h | h
    · exact absurd h hlow.ne'
    · exact absurd h hhigh.ne

/-! ## Neighbours -/

/-- Two significands of which exactly one is even. -/
def Alternate (m n : Nat) : Prop :=
  (m + n) % 2 = 1

/-- The ends of magnitudes with the same exponent. -/
theorem high_le_low_of_eq {m n : Nat} {e : ℤ} (ha : f.Unpacked a m e) (hb : f.Unpacked b n e)
    (h : a < b) {r : ℚ} (hr : r = if n = f.hidden ∧ f.minExponent < e then 1 / 4 else 1 / 2) :
    (m + 1 / 2 : ℚ) * 2 ^ e ≤ (n - r) * 2 ^ e ∧
      ((m + 1 / 2 : ℚ) * 2 ^ e = (n - r) * 2 ^ e → Alternate m n) := by
  have hlt : m < n := by
    have hma := ha.magnitude
    have hmb := hb.magnitude
    omega
  have hnot : ¬ (n = f.hidden ∧ f.minExponent < e) := by
    rintro ⟨rfl, he⟩
    have := ha.normal he
    omega
  rw [if_neg hnot] at hr
  subst hr
  have hpow : (0 : ℚ) < 2 ^ e := by positivity
  have hstep : (m : ℚ) + 1 ≤ n := by exact_mod_cast hlt
  refine ⟨by gcongr; linarith, fun heq => ?_⟩
  have hn : (n : ℚ) = (m + 1 : ℕ) := by
    have := mul_right_cancel₀ hpow.ne' heq
    push_cast
    linarith
  have hn : n = m + 1 := by exact_mod_cast hn
  unfold Alternate
  omega

/-- The ends of magnitudes with different exponents. -/
theorem high_le_low_of_lt (hf : f.hidden % 2 = 0) {m n : Nat} {d e : ℤ} (ha : f.Unpacked a m d)
    (hb : f.Unpacked b n e) (h : d < e) {r : ℚ}
    (hr : r = if n = f.hidden ∧ f.minExponent < e then 1 / 4 else 1 / 2) :
    (m + 1 / 2 : ℚ) * 2 ^ d ≤ (n - r) * 2 ^ e ∧
      ((m + 1 / 2 : ℚ) * 2 ^ d = (n - r) * 2 ^ e → Alternate m n) := by
  have hmin : f.minExponent < e := ha.least.trans_lt h
  have hn := hb.normal hmin
  have hm := ha.lt
  have hpos := f.hidden_pos
  obtain ⟨k, hk⟩ : ∃ k : ℕ, e = d + 1 + k := ⟨(e - d - 1).toNat, by omega⟩
  have hpow : (0 : ℚ) < 2 ^ d := by positivity
  have hscale : (2 : ℚ) ^ e = 2 * 2 ^ k * 2 ^ d := by
    rw [hk, zpow_add₀ two_ne_zero, zpow_add₀ two_ne_zero, zpow_natCast]
    ring
  have hone : (1 : ℚ) ≤ 2 ^ k := one_le_pow₀ one_le_two
  have hmq : (m : ℚ) + 1 ≤ 2 * f.hidden := by exact_mod_cast hm
  -- only the least normal significand reaches down a quarter
  have hlow : (2 * f.hidden - 1 / 2 : ℚ) ≤ 2 * (n - r) ∧
      (2 * f.hidden - 1 / 2 = 2 * (n - r) → n = f.hidden) := by
    by_cases hn' : n = f.hidden
    · rw [if_pos ⟨hn', hmin⟩] at hr
      subst hr hn'
      exact ⟨by linarith, fun _ => rfl⟩
    · rw [if_neg fun h => hn' h.1] at hr
      have hnq : (f.hidden : ℚ) + 1 ≤ n := by exact_mod_cast (show f.hidden + 1 ≤ n by omega)
      subst hr
      exact ⟨by linarith, fun heq => by linarith⟩
  have hfirst : (2 * (n - r)) * 2 ^ d ≤ (n - r) * 2 ^ e := by
    have hnr : (0 : ℚ) ≤ 2 * (n - r) := by
      have : (1 : ℚ) ≤ f.hidden := by exact_mod_cast hpos
      linarith [hlow.1]
    calc (2 * (n - r)) * 2 ^ d ≤ (2 * (n - r)) * 2 ^ k * 2 ^ d :=
          mul_le_mul_of_nonneg_right (le_mul_of_one_le_right hnr hone) hpow.le
      _ = (n - r) * 2 ^ e := by rw [hscale]; ring
  have hsecond : (m + 1 / 2 : ℚ) ≤ 2 * (n - r) := by linarith [hlow.1]
  refine ⟨(mul_le_mul_of_nonneg_right hsecond hpow.le).trans hfirst, fun heq => ?_⟩
  have hmeet : (m + 1 / 2 : ℚ) = 2 * (n - r) := by
    refine le_antisymm hsecond (le_of_mul_le_mul_right ?_ hpow)
    rw [heq]
    exact hfirst
  have hn' : n = f.hidden := hlow.2 (by linarith [hlow.1])
  have hm' : (m : ℚ) + 1 = (2 * f.hidden : ℕ) := by
    push_cast
    linarith [hlow.1]
  have hm' : m + 1 = 2 * f.hidden := by exact_mod_cast hm'
  unfold Alternate
  omega

/-- **The numbers that round to a magnitude end where those of a greater one begin**, or before. -/
theorem high_le_low (hf : f.hidden % 2 = 0) (h : a < b) : f.high a ≤ f.low b ∧
    (f.high a = f.low b → Alternate (f.unpack a).1 (f.unpack b).1) := by
  have ha := f.unpacked a
  have hb := f.unpacked b
  unfold high low
  rcases lt_trichotomy (f.unpack a).2 (f.unpack b).2 with he | he | he
  · exact high_le_low_of_lt hf ha hb he rfl
  · rw [he] at ha ⊢
    exact high_le_low_of_eq ha hb h rfl
  · -- a greater exponent makes a greater magnitude
    exfalso
    have hn := ha.normal (hb.least.trans_lt he)
    have hlt := hb.lt
    have hma := ha.magnitude
    have hmb := hb.magnitude
    have hstep : (f.hidden : ℤ) * ((f.unpack b).2 - f.minExponent) + f.hidden ≤
        f.hidden * ((f.unpack a).2 - f.minExponent) := by
      have : (f.hidden : ℤ) * ((f.unpack b).2 - f.minExponent + 1) ≤
          f.hidden * ((f.unpack a).2 - f.minExponent) :=
        mul_le_mul_of_nonneg_left (by omega) (by omega)
      linarith
    omega

/-- **No number rounds to two magnitudes.** -/
theorem RoundsTo.unique (hf : f.hidden % 2 = 0) {q : ℚ} (ha : f.RoundsTo q a)
    (hb : f.RoundsTo q b) : a = b := by
  wlog h : a < b generalizing a b
  · rcases lt_or_eq_of_le (not_lt.1 h) with h | h
    · exact (this hb ha h).symm
    · exact h.symm
  exfalso
  obtain ⟨hle, hmeet⟩ := high_le_low hf h
  have hhigh : q = f.high a := le_antisymm ha.le_high (hle.trans hb.low_le)
  have hlow : q = f.low b := le_antisymm (ha.le_high.trans hle) hb.low_le
  have hea := ha.even (.inr hhigh)
  have heb := hb.even (.inl hlow)
  have halt := hmeet (hhigh.symm.trans hlow)
  unfold Alternate at halt
  omega

/-! ## Intervals -/

/-- The interval of a magnitude is the numbers that round to it. -/
theorem interval_spec (ha : 0 < a) : 0 < (f.interval a).den ∧
    ((f.interval a).low : ℚ) / (f.interval a).den = f.low a ∧
    ((f.interval a).value : ℚ) / (f.interval a).den = f.value a ∧
    ((f.interval a).high : ℚ) / (f.interval a).den = f.high a ∧
    ((f.interval a).closed = true ↔ (f.unpack a).1 % 2 = 0) := by
  have hm : 0 < (f.unpack a).1 := (f.unpacked a).significand_pos ha
  have hup : (twoPow (f.unpack a).2.toNat : ℚ) ≠ 0 := by exact_mod_cast (twoPow_pos _).ne'
  have hdown : (twoPow (-(f.unpack a).2).toNat : ℚ) ≠ 0 := by exact_mod_cast (twoPow_pos _).ne'
  refine ⟨Nat.mul_pos (by decide) (twoPow_pos _), ?_, ?_, ?_, decide_eq_true_iff⟩
  · unfold low reach interval
    dsimp only
    rw [two_zpow]
    split
    · rw [Nat.cast_mul, Nat.cast_sub (by omega)]
      push_cast
      field_simp
    · rw [Nat.cast_mul, Nat.cast_sub (by omega)]
      push_cast
      field_simp
      ring
  · unfold value interval
    dsimp only
    rw [two_zpow]
    push_cast
    field_simp
  · unfold high interval
    dsimp only
    rw [two_zpow]
    push_cast
    field_simp
    ring

theorem contains_iff (ha : 0 < a) {num den : Nat} (hden : 0 < den) :
    (f.interval a).contains num den = true ↔ f.RoundsTo (num / den) a := by
  obtain ⟨hpos, hlow, -, hhigh, hclosed⟩ := f.interval_spec ha
  have hpos' : (0 : ℚ) < (f.interval a).den := by exact_mod_cast hpos
  have hden' : (0 : ℚ) < den := by exact_mod_cast hden
  have hlt : f.low a < f.high a := (f.low_lt_value a).trans (f.value_lt_high a)
  have hle₁ : (f.interval a).low * den ≤ num * (f.interval a).den ↔ f.low a ≤ num / den := by
    rw [← hlow, div_le_div_iff₀ hpos' hden']
    exact_mod_cast Iff.rfl
  have hle₂ : num * (f.interval a).den ≤ (f.interval a).high * den ↔
      (num / den : ℚ) ≤ f.high a := by
    rw [← hhigh, div_le_div_iff₀ hden' hpos']
    exact_mod_cast Iff.rfl
  have hlt₁ : (f.interval a).low * den < num * (f.interval a).den ↔ f.low a < num / den := by
    rw [← hlow, div_lt_div_iff₀ hpos' hden']
    exact_mod_cast Iff.rfl
  have hlt₂ : num * (f.interval a).den < (f.interval a).high * den ↔
      (num / den : ℚ) < f.high a := by
    rw [← hhigh, div_lt_div_iff₀ hden' hpos']
    exact_mod_cast Iff.rfl
  unfold Interval.contains
  split
  · next hc =>
    rw [Bool.and_eq_true, decide_eq_true_iff, decide_eq_true_iff, hle₁, hle₂]
    exact ⟨fun ⟨h₁, h₂⟩ => ⟨h₁, h₂, fun _ => hclosed.1 hc⟩, fun h => ⟨h.low_le, h.le_high⟩⟩
  · next hc =>
    rw [Bool.and_eq_true, decide_eq_true_iff, decide_eq_true_iff, hlt₁, hlt₂]
    constructor
    · rintro ⟨h₁, h₂⟩
      exact .of_lt h₁ h₂
    · intro h
      have hodd (hend : (num / den : ℚ) = f.low a ∨ (num / den : ℚ) = f.high a) : False :=
        hc (hclosed.2 (h.even hend))
      exact ⟨lt_of_le_of_ne h.low_le fun he => hodd (.inl he.symm),
        lt_of_le_of_ne h.le_high fun he => hodd (.inr he)⟩

end Format

end JobRegistry.Number
