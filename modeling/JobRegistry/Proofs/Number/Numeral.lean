import JobRegistry.Number.Numeral
import JobRegistry.Proofs.Number.Shortest
import JobRegistry.Proofs.Text.Digits

/-!
# Numerals of doubles

The numeral of a finite double, positional or with a power of ten, spells what its shortest digits
spell (`spelled_positional`, `spelled_scientific`). So it spells a number that rounds to the double,
and different finite doubles have different numerals (`numeral_inj`). All of these numerals have a
point or an exponent, so none is that of an integer (`numeral_ne_ofInt`).
-/

namespace JobRegistry.Number

open JobRegistry.Text
open Digits (NoDigit toNat)

/-! ## What a numeral spells -/

/-- The number that an unsigned decimal numeral spells. -/
def spelled (cs : List Char) : ℚ :=
  let (whole, rest) := spanDigits cs
  let (fraction, rest) := match rest with
    | '.' :: r => spanDigits r
    | r => ([], r)
  toNat (whole ++ fraction) * 10 ^ ((exponent? rest).getD 0 - fraction.length)

theorem spanDigits_append {ds cs : List Char} (hd : ∀ c ∈ ds, Digits.isDigit c = true)
    (h : NoDigit cs) : spanDigits (ds ++ cs) = (ds, cs) := by
  rw [spanDigits, takeWhile_append_of_head hd h, dropWhile_append_of_head hd h]

theorem spelled_point {whole fraction rest : List Char} {e : ℤ}
    (hw : ∀ c ∈ whole, Digits.isDigit c = true) (hf : ∀ c ∈ fraction, Digits.isDigit c = true)
    (hrest : NoDigit rest) (he : exponent? rest = some e) :
    spelled (whole ++ '.' :: (fraction ++ rest)) =
      toNat (whole ++ fraction) * 10 ^ (e - fraction.length) := by
  have hpoint : NoDigit ('.' :: (fraction ++ rest)) := Digits.noDigit_cons.2 (by decide)
  simp only [spelled, spanDigits_append hw hpoint, spanDigits_append hf hrest, he, Option.getD_some]

theorem spelled_whole {whole rest : List Char} {c : Char} {e : ℤ}
    (hw : ∀ c ∈ whole, Digits.isDigit c = true) (hc : Digits.isDigit c = false) (hpoint : c ≠ '.')
    (he : exponent? (c :: rest) = some e) :
    spelled (whole ++ c :: rest) = toNat whole * 10 ^ e := by
  have hrest : NoDigit (c :: rest) := Digits.noDigit_cons.2 hc
  simp only [spelled, spanDigits_append hw hrest]
  split
  · next h =>
    exact absurd (List.cons.inj h).1 hpoint
  · simp [he]

/-! ## The two notations -/

theorem exponent?_nil : exponent? [] = some 0 := rfl

section

variable {ds : List Char} (hd : ∀ c ∈ ds, Digits.isDigit c = true) (hne : ds ≠ [])
include hd

/-- Digits with zeros after them. -/
theorem spelled_zeros_after (n : ℕ) :
    spelled (ds ++ List.replicate n '0' ++ ['.', '0']) = toNat ds * 10 ^ n := by
  have hwhole : ∀ c ∈ ds ++ List.replicate n '0', Digits.isDigit c = true :=
    List.forall_mem_append.2 ⟨hd, Digits.isDigit_replicate_zero n⟩
  have h := spelled_point hwhole (Digits.isDigit_replicate_zero 1) Digits.noDigit_nil exponent?_nil
  rw [List.append_nil] at h
  apply h.trans
  rw [Digits.toNat_append, Digits.toNat_append, Digits.toNat_replicate_zero,
    Digits.toNat_replicate_zero, List.length_replicate, List.length_replicate]
  push_cast
  rw [add_zero, add_zero, zpow_neg_one, mul_inv_cancel_right₀ (by norm_num)]

/-- Digits with a point between them. -/
theorem spelled_point_inside (n : ℕ) :
    spelled (ds.take n ++ '.' :: ds.drop n) = toNat ds * 10 ^ (-((ds.length - n : ℕ) : ℤ)) := by
  have htake : ∀ c ∈ ds.take n, Digits.isDigit c = true := fun c hc =>
    hd c (List.mem_of_mem_take hc)
  have hdrop : ∀ c ∈ ds.drop n, Digits.isDigit c = true := fun c hc =>
    hd c (List.mem_of_mem_drop hc)
  have h := spelled_point htake hdrop Digits.noDigit_nil exponent?_nil
  rwa [List.append_nil, List.take_append_drop, List.length_drop, zero_sub] at h

/-- Digits with zeros before them. -/
theorem spelled_zeros_before (n : ℕ) :
    spelled ('0' :: '.' :: (List.replicate n '0' ++ ds)) =
      toNat ds * 10 ^ (-((n + ds.length : ℕ) : ℤ)) := by
  have hfraction : ∀ c ∈ List.replicate n '0' ++ ds, Digits.isDigit c = true :=
    List.forall_mem_append.2 ⟨Digits.isDigit_replicate_zero n, hd⟩
  have h := spelled_point (Digits.isDigit_replicate_zero 1) hfraction Digits.noDigit_nil
    exponent?_nil
  rw [List.append_nil] at h
  apply h.trans
  rw [Digits.toNat_append, Digits.toNat_append, Digits.toNat_replicate_zero,
    Digits.toNat_replicate_zero, Nat.zero_mul, Nat.zero_mul, Nat.zero_add, Nat.zero_add,
    List.length_append, List.length_replicate, zero_sub]

theorem spelled_positional (e : ℤ) : spelled (positional ds e) = toNat ds * 10 ^ e := by
  unfold positional
  dsimp only
  split
  · next he =>
    obtain ⟨n, rfl⟩ := Int.eq_ofNat_of_zero_le he
    rw [Int.toNat_natCast, spelled_zeros_after hd, zpow_natCast]
  · split
    · next he hwhole =>
      obtain ⟨n, hn⟩ := Int.eq_ofNat_of_zero_le hwhole.le
      rw [hn, Int.toNat_natCast, spelled_point_inside hd]
      congr 2
      omega
    · next he hwhole =>
      obtain ⟨n, hn⟩ := Int.eq_ofNat_of_zero_le (Int.neg_nonneg_of_nonpos (not_lt.1 hwhole))
      rw [hn, Int.toNat_natCast, spelled_zeros_before hd]
      congr 2
      omega

omit hd in
theorem exponent?_signed (e : ℤ) :
    exponent? ('e' :: (if e < 0 then '-' else '+') :: Digits.ofNat e.natAbs) = some e := by
  have hne : (Digits.ofNat e.natAbs).isEmpty = false := by
    rw [List.isEmpty_eq_false_iff]
    exact Digits.ofNat_ne_nil _
  have hall : (Digits.ofNat e.natAbs).all Digits.isDigit = true :=
    List.all_eq_true.2 fun c hc => Digits.isDigit_ofNat hc
  split
  · next he =>
    simp only [exponent?, true_or, if_true, hne, hall, Digits.toNat_ofNat]
    show some (-(e.natAbs : ℤ)) = some e
    rw [Int.ofNat_natAbs_of_nonpos he.le, neg_neg]
  · next he =>
    simp only [exponent?, true_or, if_true, hne, hall, Digits.toNat_ofNat]
    show some (e.natAbs : ℤ) = some e
    rw [Int.natAbs_of_nonneg (not_lt.1 he)]

include hne

theorem spelled_scientific (e : ℤ) : spelled (scientific ds e) = toNat ds * 10 ^ e := by
  unfold scientific
  dsimp only
  have hlen : 0 < ds.length := List.length_pos_iff.2 hne
  generalize hp : (ds.length : ℤ) - 1 + e = p
  have hexp := exponent?_signed p
  have hrest : NoDigit ('e' :: (if p < 0 then '-' else '+') :: Digits.ofNat p.natAbs) :=
    Digits.noDigit_cons.2 (by decide)
  have htake : ∀ c ∈ ds.take 1, Digits.isDigit c = true := fun c hc =>
    hd c (List.mem_of_mem_take hc)
  have hdrop : ∀ c ∈ ds.drop 1, Digits.isDigit c = true := fun c hc =>
    hd c (List.mem_of_mem_drop hc)
  split
  · next hone =>
    rw [List.append_nil, List.take_of_length_le (by omega),
      spelled_whole hd (by decide) (by decide) hexp]
    congr 2
    omega
  · rw [List.append_assoc, List.cons_append, spelled_point htake hdrop hrest hexp,
      List.take_append_drop, List.length_drop]
    congr 2
    omega

/-! ## How the notations look -/

/-- An unsigned numeral with a point or an exponent. -/
structure Marked (cs : List Char) : Prop where
  digit : ∃ c rest, cs = c :: rest ∧ Digits.isDigit c = true
  mark : '.' ∈ cs ∨ 'e' ∈ cs

theorem marked_positional (e : ℤ) : Marked (positional ds e) := by
  obtain ⟨c, rest, rfl⟩ := List.exists_cons_of_ne_nil hne
  have hc := hd c List.mem_cons_self
  unfold positional
  dsimp only
  split
  · exact ⟨⟨c, _, rfl, hc⟩, .inl (by simp)⟩
  · split
    · next hwhole =>
      obtain ⟨n, hn⟩ := Int.eq_succ_of_zero_lt hwhole
      rw [hn]
      exact ⟨⟨c, _, rfl, hc⟩, .inl (by simp)⟩
    · exact ⟨⟨'0', _, rfl, Digits.isDigit_zero⟩, .inl (by simp)⟩

theorem marked_scientific (e : ℤ) : Marked (scientific ds e) := by
  obtain ⟨c, rest, rfl⟩ := List.exists_cons_of_ne_nil hne
  exact ⟨⟨c, _, rfl, hd c List.mem_cons_self⟩, .inr (by simp [scientific])⟩

end

/-! ## Numerals of doubles -/

namespace Floating

/-- The numeral of a finite double without its sign. -/
theorem numeral_spec (rule : NumeralStyle) (x : Double) (hfin : x.isFinite = true) :
    ∃ body, x.numeral rule = (if x.negative then '-' :: body else body) ∧ Marked body ∧
      (x.magnitude = 0 → spelled body = 0) ∧
      (0 < x.magnitude → binary64.RoundsTo (spelled body) x.magnitude) := by
  unfold numeral
  dsimp only
  refine ⟨_, rfl, ?_⟩
  split
  · next hzero =>
    refine ⟨⟨⟨'0', _, rfl, Digits.isDigit_zero⟩, .inl (by simp)⟩, fun _ => ?_, fun h => by omega⟩
    have h := spelled_zeros_after (Digits.isDigit_replicate_zero 1) 0
    rw [Digits.toNat_replicate_zero, Nat.cast_zero, zero_mul] at h
    exact h
  · next hzero =>
    obtain ⟨hround, -⟩ := roundsTo_shortest (Nat.pos_of_ne_zero hzero) (of_decide_eq_true hfin)
    have hd : ∀ c ∈ Digits.ofNat (binary64.shortest x.magnitude).digits, Digits.isDigit c = true :=
      fun c hc => Digits.isDigit_ofNat hc
    have hne := Digits.ofNat_ne_nil (binary64.shortest x.magnitude).digits
    split
    · refine ⟨marked_positional hd hne _, fun h => absurd h hzero, fun _ => ?_⟩
      rwa [spelled_positional hd, Digits.toNat_ofNat]
    · refine ⟨marked_scientific hd hne _, fun h => absurd h hzero, fun _ => ?_⟩
      rwa [spelled_scientific hd hne, Digits.toNat_ofNat]

/-- **Different finite doubles have different numerals.** -/
theorem numeral_inj {rule : NumeralStyle} {x y : Double} (hx : x.isFinite = true)
    (hy : y.isFinite = true) (h : x.numeral rule = y.numeral rule) : x = y := by
  obtain ⟨b, hb, hbm, hbzero, hbpos⟩ := numeral_spec rule x hx
  obtain ⟨c, hc, hcm, hczero, hcpos⟩ := numeral_spec rule y hy
  have hminus {b c : List Char} (hm : Marked b) : b ≠ '-' :: c := by
    obtain ⟨⟨d, rest, rfl, hd⟩, -⟩ := hm
    intro heq
    rw [(List.cons.inj heq).1] at hd
    exact absurd hd (by decide)
  rw [hb, hc] at h
  have hsign : x.negative = y.negative ∧ b = c := by
    cases hxn : x.negative <;> cases hyn : y.negative <;> rw [hxn, hyn] at h
    · exact ⟨rfl, h⟩
    · exact absurd h (hminus hbm)
    · exact absurd h.symm (hminus hcm)
    · exact ⟨rfl, (List.cons.inj h).2⟩
  obtain ⟨hnegative, rfl⟩ := hsign
  have hmagnitude : x.magnitude = y.magnitude := by
    rcases Nat.eq_zero_or_pos x.magnitude with hx0 | hx0 <;>
      rcases Nat.eq_zero_or_pos y.magnitude with hy0 | hy0
    · rw [hx0, hy0]
    · exact absurd (hbzero hx0) ((hcpos hy0).pos hy0).ne'
    · exact absurd (hczero hy0) ((hbpos hx0).pos hx0).ne'
    · exact (hbpos hx0).unique rfl (hcpos hy0)
  obtain ⟨xn, xm, xlt⟩ := x
  obtain ⟨yn, ym, ylt⟩ := y
  obtain rfl : xn = yn := hnegative
  obtain rfl : xm = ym := hmagnitude
  rfl

/-- The numeral of a finite double has a point or an exponent. -/
theorem mark_mem_numeral (rule : NumeralStyle) {x : Double} (hx : x.isFinite = true) :
    '.' ∈ x.numeral rule ∨ 'e' ∈ x.numeral rule := by
  obtain ⟨b, hb, hm, -, -⟩ := numeral_spec rule x hx
  rw [hb]
  split
  · exact hm.mark.imp (List.mem_cons_of_mem _) (List.mem_cons_of_mem _)
  · exact hm.mark

/-- What has a mark does not consist of digits and a sign. -/
theorem numeral_ne_of_digits {rule : NumeralStyle} {x : Double} (hx : x.isFinite = true)
    {cs : List Char} (hcs : ∀ c ∈ cs, c = '-' ∨ Digits.isDigit c = true) :
    x.numeral rule ≠ cs := by
  rintro rfl
  rcases mark_mem_numeral rule hx with h | h
  · exact absurd (hcs _ h) (by decide)
  · exact absurd (hcs _ h) (by decide)

/-- The numeral of a double is not that of an integer. -/
theorem numeral_ne_ofInt {rule : NumeralStyle} {x : Double} (hx : x.isFinite = true) (n : ℤ) :
    x.numeral rule ≠ Digits.ofInt n := by
  apply numeral_ne_of_digits hx
  intro c hc
  unfold Digits.ofInt at hc
  split at hc
  · rcases List.mem_cons.1 hc with hc | hc
    · exact .inl hc
    · exact .inr (Digits.isDigit_ofNat hc)
  · exact .inr (Digits.isDigit_ofNat hc)

end Floating

end JobRegistry.Number
