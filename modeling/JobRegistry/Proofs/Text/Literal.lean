import JobRegistry.Json.Reader
import JobRegistry.Text.Literal
import Mathlib.Tactic.SplitIfs

/-!
# Literals read back

`literal?_literal` says that the reader takes the literal of a text back to the text and leaves
what follows it, whatever that is. So a literal shows its own end (`literal_append_inj`), and no
separator inside a text can be taken for one outside.
-/

namespace JobRegistry.Json

open Text

/-! ## Single escapes -/

theorem literalTail?_short {c e : Char} (hu : c ≠ 'u') (h : shortEscape? c = some e)
    (cs : List Char) : literalTail? ('\\' :: c :: cs) = (literalTail? cs).map (consText e) := by
  rw [literalTail?]
  · simp only [h]
  · intro a b c' d rest hc
    exact absurd hc hu

theorem literalTail?_control {c : Char} (h : c.toNat < 0x20) (cs : List Char) :
    literalTail? ('\\' :: 'u' :: '0' :: '0' :: Digits.hexDigit (c.toNat / 16) ::
      Digits.hexDigit c.toNat :: cs) = (literalTail? cs).map (consText c) := by
  have unit : ∀ n < 0x20,
      unit? '0' '0' (Digits.hexDigit (n / 16)) (Digits.hexDigit n) = some n := by
    decide
  have high : isHighHalf c.toNat = false := by
    simp only [isHighHalf, Bool.and_eq_false_imp, decide_eq_true_eq]
    omega
  have low : isLowHalf c.toNat = false := by
    simp only [isLowHalf, Bool.and_eq_false_imp, decide_eq_true_eq]
    omega
  rw [literalTail?]
  simp [unit _ h, high, low]

theorem literalTail?_plain {c : Char} (h : ¬ c.toNat < 0x20) (hm : c ≠ '"') (hb : c ≠ '\\')
    (cs : List Char) : literalTail? (c :: cs) = (literalTail? cs).map (consText c) := by
  rw [literalTail?]
  · exact if_neg (by simp only [h, hb, or_self, not_false_eq_true])
  all_goals simp_all

/-- The reader undoes the escape of one character. -/
theorem literalTail?_escaped (c : Char) (cs : List Char) :
    literalTail? (escaped c ++ cs) = (literalTail? cs).map (consText c) := by
  unfold escaped
  split_ifs with hm hb
  any_goals (subst_vars; exact literalTail?_short (by decide) (by decide) cs)
  · next h => exact literalTail?_control h cs
  · next h => exact literalTail?_plain h hm hb cs

/-! ## Whole literals -/

theorem literalTail?_flatMap_escaped (s cs : List Char) :
    literalTail? (s.flatMap escaped ++ '"' :: cs) = some (s, cs) := by
  induction s with
  | nil => rw [List.flatMap_nil, List.nil_append, literalTail?]
  | cons c s ih =>
    rw [List.flatMap_cons, List.append_assoc, literalTail?_escaped, ih]
    rfl

/-- **The reader takes a literal back to its text** and leaves what follows. -/
theorem literal?_literal (s : String) (cs : List Char) :
    literal? (literal s ++ cs) = some (s, cs) := by
  simp [literal, literal?, literalTail?_flatMap_escaped]

/-- A literal shows where it ends. -/
theorem literal_append_inj {s t : String} {cs cs' : List Char}
    (e : literal s ++ cs = literal t ++ cs') : s = t ∧ cs = cs' := by
  have h := literal?_literal s cs
  rw [e, literal?_literal] at h
  simpa [eq_comm] using h

end JobRegistry.Json
