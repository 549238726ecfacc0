import Mathlib.Algebra.Group.Nat.Defs
import JobRegistry.Number.Power
import JobRegistry.Text.Digits

/-!
# Numerals read back

Decimal numerals determine their numbers. `toNat_ofNat` and `toNat_padded` say that the digits of a
number spell it; `ofNat_append_inj` and `ofInt_append_inj` say where a numeral ends, which is at the
first character that is no digit: a text that starts with a numeral and goes on with something else
has one reading only.

Numerals of one width are in the order of their numbers (`padded_lt_padded_iff`), and every list of
digits is the numeral of that width for the number that it spells (`padded_toNat`).
-/

namespace JobRegistry.Text

/-! ## Where a span ends -/

section Span

variable {p : Char → Bool} {as cs : List Char} (ha : ∀ c ∈ as, p c = true)
  (hc : ∀ c ∈ cs.head?, p c = false)
include ha hc

theorem takeWhile_append_of_head : (as ++ cs).takeWhile p = as := by
  rw [List.takeWhile_append_of_pos ha]
  cases cs with
  | nil => simp
  | cons c cs => simp [hc c rfl]

theorem dropWhile_append_of_head : (as ++ cs).dropWhile p = cs := by
  rw [List.dropWhile_append_of_pos ha]
  cases cs with
  | nil => rfl
  | cons c cs => rw [List.dropWhile_cons_of_neg (by rw [hc c rfl]; exact Bool.false_ne_true)]

end Span

namespace Digits

open Number

/-! ## Single digits -/

theorem isDigit_iff {c : Char} : isDigit c = true ↔ c.isDigit = true := by
  simp only [isDigit, value?, Char.isDigit, Char.le_def]
  split <;> simp_all [UInt32.le_iff_toNat_le]

theorem value?_of_isDigit {c : Char} (h : isDigit c = true) : value? c = some (c.toNat - 48) := by
  unfold isDigit value? at *
  split <;> simp_all

theorem isDigit_zero : isDigit '0' = true := by decide

theorem ne_of_isDigit {c d : Char} (hc : isDigit c = true) (hd : isDigit d = false) : c ≠ d := by
  rintro rfl
  rw [hc] at hd
  cases hd

/-! ## The number of a numeral -/

theorem toNat_eq_ofDigitChars {cs : List Char} (h : ∀ c ∈ cs, isDigit c = true) :
    toNat cs = Nat.ofDigitChars 10 cs 0 := by
  have go : ∀ n, cs.foldl (fun n c => 10 * n + (value? c).getD 0) n = Nat.ofDigitChars 10 cs n := by
    induction cs with
    | nil => exact fun _ => rfl
    | cons c cs ih =>
      intro n
      simp only [List.mem_cons, forall_eq_or_imp] at h
      rw [List.foldl_cons, ih h.2, Nat.ofDigitChars_cons, value?_of_isDigit h.1]
      rfl
  exact go 0

theorem isDigit_ofNat {n : Nat} {c : Char} (h : c ∈ ofNat n) : isDigit c = true :=
  isDigit_iff.2 (Nat.isDigit_of_mem_toDigits (by decide) (by decide) h)

theorem ofNat_ne_nil (n : Nat) : ofNat n ≠ [] := Nat.toDigits_ne_nil

theorem exists_ofNat (n : Nat) : ∃ d ds, ofNat n = d :: ds ∧ isDigit d = true := by
  obtain ⟨d, ds, h⟩ := List.exists_cons_of_ne_nil (ofNat_ne_nil n)
  exact ⟨d, ds, h, isDigit_ofNat (h ▸ List.mem_cons_self)⟩

theorem toNat_ofNat (n : Nat) : toNat (ofNat n) = n := by
  rw [toNat_eq_ofDigitChars fun _ => isDigit_ofNat]
  exact Nat.ofDigitChars_ten_toDigits

theorem ofNat_inj {m n : Nat} : ofNat m = ofNat n ↔ m = n :=
  ⟨fun h => by rw [← toNat_ofNat m, h, toNat_ofNat], congrArg ofNat⟩

theorem length_ofNat_le {n width : Nat} (hw : 0 < width) :
    (ofNat n).length ≤ width ↔ n < tenPow width :=
  Nat.length_toDigits_le_iff (by decide) hw

/-- A numeral whose digits stand before those of another is scaled by their number. -/
theorem toNat_append (as bs : List Char) :
    toNat (as ++ bs) = toNat as * 10 ^ bs.length + toNat bs := by
  have go : ∀ n, bs.foldl (fun n c => 10 * n + (value? c).getD 0) n =
      n * 10 ^ bs.length + toNat bs := by
    induction bs with
    | nil => exact fun n => by simp [toNat]
    | cons b bs ih =>
      intro n
      have htail := ih ((value? b).getD 0)
      rw [toNat, List.foldl_cons, List.foldl_cons, Nat.mul_zero, Nat.zero_add, ih, htail,
        List.length_cons, Nat.pow_succ', Nat.add_mul, Nat.add_assoc, Nat.mul_comm 10 n,
        Nat.mul_assoc]
  rw [toNat, List.foldl_append, go]
  rfl

theorem getD_value?_lt (c : Char) : (value? c).getD 0 < 10 := by
  unfold value?
  split
  · next h =>
    have hnine : c.toNat ≤ 57 := h.2
    show c.toNat - 48 < 10
    omega
  · decide

/-- The number of a numeral has no more digits than the numeral. -/
theorem toNat_lt (cs : List Char) : toNat cs < 10 ^ cs.length := by
  induction cs with
  | nil => decide
  | cons c rest ih =>
    have hfirst : toNat [c] ≤ 9 := Nat.le_of_lt_succ (by simpa [toNat] using getD_value?_lt c)
    rw [← List.singleton_append, toNat_append, List.singleton_append, List.length_cons,
      Nat.pow_succ]
    have := Nat.mul_le_mul_right (10 ^ rest.length) hfirst
    omega

/-- A numeral has no leading zero, for behind it the number would have a shorter numeral. -/
theorem head_ofNat {n : Nat} (h : 1 < (ofNat n).length) : (ofNat n).head? ≠ some '0' := by
  intro hhead
  obtain ⟨cs, hcs⟩ := List.head?_eq_some_iff.1 hhead
  have hn : n = toNat cs := by
    rw [← toNat_ofNat n, hcs, ← List.singleton_append, toNat_append,
      show toNat ['0'] = 0 by decide, Nat.zero_mul, Nat.zero_add]
  have hlt : n < tenPow cs.length := hn ▸ toNat_lt cs
  rw [hcs, List.length_cons] at h
  have hle := (length_ofNat_le (by omega)).2 hlt
  rw [hcs, List.length_cons] at hle
  omega

theorem isDigit_replicate_zero (n : Nat) : ∀ c ∈ List.replicate n '0', isDigit c = true := by
  intro c hc
  rw [List.eq_of_mem_replicate hc]
  exact isDigit_zero

theorem toNat_replicate_zero (n : Nat) : toNat (List.replicate n '0') = 0 := by
  induction n with
  | zero => rfl
  | succ n ih =>
    rw [List.replicate_succ, ← List.singleton_append, toNat_append, ih,
      show toNat ['0'] = 0 by decide, Nat.zero_mul]

/-! ## Numerals of a fixed width -/

theorem isDigit_padded {width n : Nat} {c : Char} (h : c ∈ padded width n) : isDigit c = true := by
  rcases List.mem_append.1 h with h | h
  · exact isDigit_replicate_zero _ c h
  · exact isDigit_ofNat h

theorem toNat_padded (width n : Nat) : toNat (padded width n) = n := by
  rw [toNat_eq_ofDigitChars fun _ => isDigit_padded, padded, Nat.ofDigitChars_append,
    Nat.ofDigitChars_replicate_zero, Nat.mul_zero]
  exact Nat.ofDigitChars_ten_toDigits

theorem length_padded (width : Nat) {n : Nat} (hw : 0 < width) (h : n < tenPow width) :
    (padded width n).length = width := by
  have := (length_ofNat_le hw).2 h
  simp only [padded, List.length_append, List.length_replicate]
  omega

/-! ## The order of numerals of one width -/

/-- Of numbers that are written with one more digit, that with the smaller first
digit is smaller. -/
theorem mul_add_lt_mul_add_iff {a b m n p : Nat} (hm : m < p) (hn : n < p) :
    a * p + m < b * p + n ↔ a < b ∨ a = b ∧ m < n := by
  rcases Nat.lt_trichotomy a b with h | rfl | h
  · have := Nat.mul_le_mul_right p (show a + 1 ≤ b from h)
    rw [Nat.add_mul] at this
    omega
  · omega
  · have := Nat.mul_le_mul_right p (show b + 1 ≤ a from h)
    rw [Nat.add_mul] at this
    omega

theorem toNat_cons (c : Char) (cs : List Char) :
    toNat (c :: cs) = (value? c).getD 0 * 10 ^ cs.length + toNat cs := by
  rw [← List.singleton_append, toNat_append, toNat, List.foldl_cons, List.foldl_nil, Nat.mul_zero,
    Nat.zero_add]

theorem isDigit_iff_toNat {c : Char} : isDigit c = true ↔ 48 ≤ c.toNat ∧ c.toNat ≤ 57 := by
  rw [isDigit_iff, Char.isDigit, Bool.and_eq_true, decide_eq_true_iff, decide_eq_true_iff,
    ge_iff_le, UInt32.le_iff_toNat_le, UInt32.le_iff_toNat_le]
  rfl

/-- Numerals of one length are in the order of their numbers. -/
theorem toNat_lt_toNat_iff {as bs : List Char} (ha : ∀ c ∈ as, isDigit c = true)
    (hb : ∀ c ∈ bs, isDigit c = true) (h : as.length = bs.length) :
    toNat as < toNat bs ↔ as < bs := by
  induction as generalizing bs with
  | nil =>
    obtain rfl := List.length_eq_zero_iff.1 h.symm
    simp
  | cons a as ih =>
    cases bs with
    | nil => cases h
    | cons b bs =>
      simp only [List.mem_cons, forall_eq_or_imp] at ha hb
      have hlength : as.length = bs.length := Nat.succ.inj h
      have hfirst := isDigit_iff_toNat.1 ha.1
      have hfirst' := isDigit_iff_toNat.1 hb.1
      have hlt : a.toNat - 48 < b.toNat - 48 ↔ a < b := by
        rw [Char.lt_def, UInt32.lt_iff_toNat_lt]
        show _ ↔ a.toNat < b.toNat
        omega
      have heq : a.toNat - 48 = b.toNat - 48 ↔ a = b := by
        rw [← Char.toNat_inj]
        omega
      rw [toNat_cons, toNat_cons, value?_of_isDigit ha.1, value?_of_isDigit hb.1, hlength,
        mul_add_lt_mul_add_iff (hlength ▸ toNat_lt as) (toNat_lt bs), ih ha.2 hb.2 hlength,
        List.cons_lt_cons_iff, Option.getD_some, Option.getD_some, hlt, heq]

theorem padded_lt_padded_iff (width : Nat) {m n : Nat} (hw : 0 < width) (hm : m < tenPow width)
    (hn : n < tenPow width) : padded width m < padded width n ↔ m < n := by
  have hlength : (padded width m).length = (padded width n).length := by
    rw [length_padded width hw hm, length_padded width hw hn]
  rw [← toNat_lt_toNat_iff (fun _ => isDigit_padded) (fun _ => isDigit_padded) hlength,
    toNat_padded, toNat_padded]

theorem padded_inj {width m n : Nat} : padded width m = padded width n ↔ m = n :=
  ⟨fun h => by rw [← toNat_padded width m, h, toNat_padded], congrArg (padded width)⟩

/-- Digits are the numeral of their width for the number that they spell. -/
theorem padded_toNat {cs : List Char} (hne : cs ≠ []) (h : ∀ c ∈ cs, isDigit c = true) :
    padded cs.length (toNat cs) = cs := by
  have hlength : (padded cs.length (toNat cs)).length = cs.length :=
    length_padded _ (List.length_pos_iff.2 hne) (toNat_lt cs)
  have hnot := toNat_lt_toNat_iff (fun _ => isDigit_padded) h hlength
  have hnot' := toNat_lt_toNat_iff h (fun _ => isDigit_padded) hlength.symm
  rw [toNat_padded] at hnot hnot'
  exact List.le_antisymm (List.not_lt.1 fun hlt => Nat.lt_irrefl _ (hnot'.2 hlt))
    (List.not_lt.1 fun hlt => Nat.lt_irrefl _ (hnot.2 hlt))

/-! ## Where a numeral ends -/

/-- A text that does not go on with a digit. -/
def NoDigit (cs : List Char) : Prop := ∀ c ∈ cs.head?, isDigit c = false

theorem noDigit_nil : NoDigit [] := by simp [NoDigit]

theorem noDigit_cons {c : Char} {cs : List Char} : NoDigit (c :: cs) ↔ isDigit c = false := by
  simp [NoDigit]

/-- **A numeral ends at the first character that is no digit.** -/
theorem ofNat_append_inj {m n : Nat} {cs cs' : List Char} (h : NoDigit cs) (h' : NoDigit cs')
    (e : ofNat m ++ cs = ofNat n ++ cs') : m = n ∧ cs = cs' := by
  have hd : ofNat m = ofNat n := by
    rw [← takeWhile_append_of_head (fun _ => isDigit_ofNat) h, e,
      takeWhile_append_of_head (fun _ => isDigit_ofNat) h']
  rw [hd] at e
  exact ⟨ofNat_inj.1 hd, List.append_cancel_left e⟩

theorem minus_ne_ofNat {n : Nat} {cs cs' : List Char} : '-' :: cs ≠ ofNat n ++ cs' := by
  intro e
  obtain ⟨d, ds, hds, hd⟩ := exists_ofNat n
  rw [hds] at e
  exact ne_of_isDigit hd (by decide) (List.cons.inj e).1.symm

/-- The same for numerals with a sign. -/
theorem ofInt_append_inj {m n : Int} {cs cs' : List Char} (h : NoDigit cs) (h' : NoDigit cs')
    (e : ofInt m ++ cs = ofInt n ++ cs') : m = n ∧ cs = cs' := by
  unfold ofInt at e
  split at e <;> split at e
  · obtain ⟨hn, hc⟩ := ofNat_append_inj h h' (List.cons.inj e).2
    exact ⟨by omega, hc⟩
  · exact absurd e minus_ne_ofNat
  · exact absurd e.symm minus_ne_ofNat
  · obtain ⟨hn, hc⟩ := ofNat_append_inj h h' e
    exact ⟨by omega, hc⟩

end Digits

end JobRegistry.Text
