import JobRegistry.Proofs.Text.Digits
import JobRegistry.Proofs.Text.Literal

/-!
# Tokens of JSON texts

What a scanner reads off the front of a text it reads off any text that goes on in a suitable way:
`Scans scan follow t a` says that after the token `t` the scanner answers `a` and leaves what
follows. Every scalar and every literal that is read is such a token (`exists_scalar`,
`exists_literal`). A literal shows its own end; a scalar, being possibly a numeral, ends where a
blank, a comma or a closing bracket follows, or nothing (`Ends`).
-/

namespace JobRegistry.Json

open Text
open Digits (NoDigit)

/-- After the token the scanner answers a value and leaves what follows, if that is suitable. -/
def Scans {α : Type} (scan : List Char → Option (α × List Char)) (follow : List Char → Prop)
    (t : List Char) (a : α) : Prop :=
  ∀ rest, follow rest → scan (t ++ rest) = some (a, rest)

/-- Where a scalar may end. -/
def Ends (cs : List Char) : Prop :=
  ∀ c ∈ cs.head?, isBlankChar c = true ∨ c = ',' ∨ c = ']' ∨ c = '\x7d'

theorem Ends.head_ne {cs : List Char} (h : Ends cs) {d : Char} (hb : isBlankChar d = false)
    (hd : d ≠ ',' ∧ d ≠ ']' ∧ d ≠ '\x7d') : ∀ c ∈ cs.head?, c ≠ d := by
  rintro c hc rfl
  rcases h c hc with h | h | h | h
  · rw [hb] at h
    cases h
  · exact hd.1 h
  · exact hd.2.1 h
  · exact hd.2.2 h

theorem Ends.noDigit {cs : List Char} (h : Ends cs) : NoDigit cs := by
  intro c hc
  rcases h c hc with h | rfl | rfl | rfl
  · simp only [isBlankChar, Bool.or_eq_true, beq_iff_eq] at h
    rcases h with ((rfl | rfl) | rfl) | rfl <;> decide
  · decide
  · decide
  · decide

/-! ## Literals -/

/-- One character of a literal, in any of its spellings, before the rest of the literal. -/
theorem scans_consText (front : List Char) {cs s r : List Char} {c : Char}
    (hfront : ∀ rest, literalTail? (front ++ rest) = (literalTail? rest).map (consText c))
    (ih : ∀ {s r : List Char}, literalTail? cs = some (s, r) →
      ∃ t, cs = t ++ r ∧ Scans literalTail? (fun _ => True) t s)
    (h : (literalTail? cs).map (consText c) = some (s, r)) :
    ∃ t, front ++ cs = t ++ r ∧ Scans literalTail? (fun _ => True) t s := by
  obtain ⟨⟨s', r'⟩, hcs, h⟩ := Option.map_eq_some_iff.1 h
  obtain ⟨rfl, rfl⟩ := Prod.mk.inj h
  obtain ⟨t, rfl, ht⟩ := ih hcs
  refine ⟨front ++ t, (List.append_assoc ..).symm, fun rest hrest => ?_⟩
  rw [List.append_assoc, hfront, ht rest hrest]
  rfl

theorem exists_literalTail {cs s r : List Char} (h : literalTail? cs = some (s, r)) :
    ∃ t, cs = t ++ r ∧ Scans literalTail? (fun _ => True) t s := by
  fun_induction literalTail? cs generalizing s r with
  | case2 rest =>
    obtain ⟨rfl, rfl⟩ := Prod.mk.inj (Option.some.inj h)
    refine ⟨['"'], rfl, fun rest _ => ?_⟩
    rw [List.singleton_append, literalTail?]
  | case5 a b c d unit hunit hhigh a' b' c' d' rest low hlow hlow' ih =>
    apply scans_consText ['\\', 'u', a, b, c, d, '\\', 'u', a', b', c', d'] _ ih h
    intro rest
    simp only [List.cons_append, List.nil_append]
    rw [literalTail?]
    simp [hunit, hhigh, hlow, hlow']
  | case9 a b c d rest unit hunit hhigh hlow ih =>
    apply scans_consText ['\\', 'u', a, b, c, d] _ ih h
    intro rest
    simp only [List.cons_append, List.nil_append]
    rw [literalTail?]
    simp [hunit, hhigh, hlow]
  | case11 c rest _ e he ih =>
    have hu : c ≠ 'u' := by
      rintro rfl
      rw [show shortEscape? 'u' = none by decide] at he
      cases he
    exact scans_consText ['\\', c] (literalTail?_short hu he) ih h
  | case13 c rest hm _ _ hplain ih =>
    rw [not_or] at hplain
    exact scans_consText [c] (literalTail?_plain hplain.1 hm hplain.2) ih h
  | _ => cases h

theorem exists_literal {cs r : List Char} {s : String} (h : literal? cs = some (s, r)) :
    ∃ t, cs = '"' :: t ++ r ∧ Scans literal? (fun _ => True) ('"' :: t) s := by
  unfold literal? at h
  split at h
  · obtain ⟨⟨s', r'⟩, htail, h⟩ := Option.map_eq_some_iff.1 h
    obtain ⟨rfl, rfl⟩ := Prod.mk.inj h
    obtain ⟨t, rfl, ht⟩ := exists_literalTail htail
    refine ⟨t, rfl, fun rest hrest => ?_⟩
    rw [List.cons_append, literal?, ht rest hrest]
    rfl
  · cases h

/-! ## Numerals -/

theorem digitSpan_append {ds cs : List Char} (hd : ∀ c ∈ ds, Digits.isDigit c = true)
    (h : NoDigit cs) : digitSpan (ds ++ cs) = (ds, cs) := by
  rw [digitSpan, takeWhile_append_of_head hd h, dropWhile_append_of_head hd h]

/-- Digits at the front end where they are read to end. -/
theorem digitSpan_spec {cs ds r : List Char} (h : digitSpan cs = (ds, r)) :
    cs = ds ++ r ∧ (∀ c ∈ ds, Digits.isDigit c = true) ∧ NoDigit r := by
  obtain ⟨rfl, rfl⟩ := Prod.mk.inj h
  refine ⟨(List.takeWhile_append_dropWhile ..).symm, List.all_eq_true.1 List.all_takeWhile, ?_⟩
  intro c hc
  have hnot := List.head?_dropWhile_not Digits.isDigit cs
  rw [hc] at hnot
  exact hnot

theorem exists_wholeDigits {cs ds r : List Char} (h : wholeDigits? cs = some (ds, r)) :
    cs = ds ++ r ∧ Scans wholeDigits? NoDigit ds ds ∧
      ∃ c rest, ds = c :: rest ∧ Digits.isDigit c = true := by
  unfold wholeDigits? at h
  generalize hspan : digitSpan cs = span at h
  obtain ⟨ds', r'⟩ := span
  obtain ⟨rfl, hd, -⟩ := digitSpan_spec hspan
  dsimp only at h
  split at h
  · cases h
  · next hok =>
    obtain ⟨rfl, rfl⟩ := Prod.mk.inj (Option.some.inj h)
    refine ⟨rfl, fun rest hrest => ?_, ?_⟩
    · simp only [wholeDigits?, digitSpan_append hd hrest]
      exact if_neg hok
    · cases ds' with
      | nil => exact absurd rfl hok
      | cons c rest => exact ⟨c, rest, rfl, hd c List.mem_cons_self⟩

/-- What may follow a fraction. -/
def AfterFraction (cs : List Char) : Prop :=
  NoDigit cs ∧ ∀ c ∈ cs.head?, c ≠ '.'

theorem exists_fraction {cs r : List Char} {f : Option (List Char)}
    (h : fraction? cs = some (f, r)) :
    ∃ t, cs = t ++ r ∧ Scans fraction? AfterFraction t f ∧ ∀ c ∈ t.head?, c = '.' := by
  unfold fraction? at h
  split at h
  · next cs =>
    generalize hspan : digitSpan cs = span at h
    obtain ⟨ds, r'⟩ := span
    obtain ⟨rfl, hd, -⟩ := digitSpan_spec hspan
    dsimp only at h
    split at h
    · cases h
    · next hok =>
      obtain ⟨rfl, rfl⟩ := Prod.mk.inj (Option.some.inj h)
      refine ⟨'.' :: ds, rfl, fun rest hrest => ?_, by simp⟩
      simp only [List.cons_append, fraction?, digitSpan_append hd hrest.1]
      exact if_neg hok
  · next hpoint =>
    obtain ⟨rfl, rfl⟩ := Prod.mk.inj (Option.some.inj h)
    refine ⟨[], rfl, fun rest hrest => ?_, by simp⟩
    rw [List.nil_append]
    unfold fraction?
    split
    · exact absurd rfl (hrest.2 '.' rfl)
    · rfl

/-- What may follow an exponent. -/
def AfterExponent (cs : List Char) : Prop :=
  NoDigit cs ∧ ∀ c ∈ cs.head?, ¬ (c = 'e' ∨ c = 'E')

theorem exponentSign_digit {c : Char} {cs : List Char} (h : Digits.isDigit c = true) :
    exponentSign (c :: cs) = (false, c :: cs) := by
  unfold exponentSign
  split
  · next heq =>
    rw [(List.cons.inj heq).1] at h
    exact absurd h (by decide)
  · next heq =>
    rw [(List.cons.inj heq).1] at h
    exact absurd h (by decide)
  · rfl

/-- The sign of an exponent before its digits. -/
theorem exists_exponentSign {cs r : List Char} {negative : Bool}
    (h : exponentSign cs = (negative, r)) :
    ∃ t, cs = t ++ r ∧ ∀ c rest, Digits.isDigit c = true →
      exponentSign (t ++ c :: rest) = (negative, c :: rest) := by
  unfold exponentSign at h
  split at h
  · obtain ⟨rfl, rfl⟩ := Prod.mk.inj h
    exact ⟨['-'], rfl, fun c rest _ => rfl⟩
  · obtain ⟨rfl, rfl⟩ := Prod.mk.inj h
    exact ⟨['+'], rfl, fun c rest _ => rfl⟩
  · obtain ⟨rfl, rfl⟩ := Prod.mk.inj h
    exact ⟨[], rfl, fun c rest hc => exponentSign_digit hc⟩

theorem scans_no_exponent : Scans exponent? AfterExponent [] none := by
  intro rest hrest
  cases rest with
  | nil => rfl
  | cons c rest =>
    rw [List.nil_append, exponent?]
    exact if_neg (hrest.2 c rfl)

theorem exists_exponent {cs r : List Char} {e : Option Int} (h : exponent? cs = some (e, r)) :
    ∃ t, cs = t ++ r ∧ Scans exponent? AfterExponent t e ∧ ∀ c ∈ t.head?, c = 'e' ∨ c = 'E' := by
  unfold exponent? at h
  split at h
  · next c cs =>
    split at h
    · next hmark =>
      generalize hsign : exponentSign cs = sign at h
      obtain ⟨negative, cs'⟩ := sign
      obtain ⟨t, rfl, ht⟩ := exists_exponentSign hsign
      dsimp only at h
      generalize hspan : digitSpan cs' = span at h
      obtain ⟨ds, r'⟩ := span
      obtain ⟨rfl, hd, -⟩ := digitSpan_spec hspan
      dsimp only at h
      split at h
      · cases h
      · next hok =>
        obtain ⟨rfl, rfl⟩ := Prod.mk.inj (Option.some.inj h)
        refine ⟨c :: (t ++ ds), by simp, fun rest hrest => ?_, by simpa using hmark⟩
        cases ds with
        | nil => exact absurd rfl hok
        | cons d ds =>
          have hread := ht d (ds ++ rest) (hd d List.mem_cons_self)
          have hdigits := digitSpan_append hd hrest.1
          rw [List.cons_append] at hdigits
          simp only [List.cons_append, List.append_assoc, exponent?, if_pos hmark, hread, hdigits]
          rfl
    · next hmark =>
      obtain ⟨rfl, rfl⟩ := Prod.mk.inj (Option.some.inj h)
      exact ⟨[], rfl, scans_no_exponent, by simp⟩
  · obtain ⟨rfl, rfl⟩ := Prod.mk.inj (Option.some.inj h)
    exact ⟨[], rfl, scans_no_exponent, by simp⟩

theorem noDigit_of_head {cs : List Char} {p : Char → Prop}
    (hp : ∀ c, p c → Digits.isDigit c = false) {rest : List Char} (hcs : ∀ c ∈ cs.head?, p c)
    (hrest : NoDigit rest) : NoDigit (cs ++ rest) := by
  cases cs with
  | nil => exact hrest
  | cons c cs => exact Digits.noDigit_cons.2 (hp c (hcs c rfl))

theorem isDigit_mark {c : Char} (h : c = 'e' ∨ c = 'E') : Digits.isDigit c = false := by
  rcases h with rfl | rfl <;> decide

/-- Where a numeral may end its exponent may. -/
theorem Ends.afterExponent {cs : List Char} (h : Ends cs) : AfterExponent cs := by
  refine ⟨h.noDigit, fun c hc => ?_⟩
  rw [not_or]
  exact ⟨h.head_ne (by decide) (by decide) c hc, h.head_ne (by decide) (by decide) c hc⟩

/-- Before its exponent, if there is one, its fraction may end. -/
theorem Ends.afterFraction {cs : List Char} (h : Ends cs) {t : List Char}
    (ht : ∀ c ∈ t.head?, c = 'e' ∨ c = 'E') : AfterFraction (t ++ cs) := by
  refine ⟨noDigit_of_head (fun _ => isDigit_mark) ht h.noDigit, ?_⟩
  cases t with
  | nil => exact h.head_ne (by decide) (by decide)
  | cons d t =>
    rintro c hc rfl
    obtain rfl := Option.some.inj hc
    exact absurd (ht _ rfl) (by decide)

/-- A numeral without its sign starts with a digit. -/
theorem exists_unsigned {cs r : List Char} {negative : Bool} {j : Json}
    (h : unsigned? negative cs = some (j, r)) :
    ∃ t, cs = t ++ r ∧ Scans (unsigned? negative) Ends t j ∧
      ∃ c rest, t = c :: rest ∧ Digits.isDigit c = true := by
  unfold unsigned? at h
  obtain ⟨⟨ds, cs₁⟩, hds, h⟩ := Option.bind_eq_some_iff.1 h
  obtain ⟨⟨f, cs₂⟩, hf, h⟩ := Option.bind_eq_some_iff.1 h
  obtain ⟨⟨e, cs₃⟩, he, h⟩ := Option.bind_eq_some_iff.1 h
  obtain ⟨value, hvalue, h⟩ := Option.bind_eq_some_iff.1 h
  obtain ⟨rfl, rfl⟩ := Prod.mk.inj (Option.some.inj h)
  obtain ⟨rfl, hwhole, c, rest, hc, hdigit⟩ := exists_wholeDigits hds
  obtain ⟨tf, rfl, hfraction, hpoint⟩ := exists_fraction hf
  obtain ⟨te, rfl, hexponent, hmark⟩ := exists_exponent he
  refine ⟨ds ++ (tf ++ te), by simp, fun rest hrest => ?_, c, rest ++ (tf ++ te), ?_, hdigit⟩
  · have hafter : AfterFraction (te ++ rest) := hrest.afterFraction hmark
    have hafter' : NoDigit (tf ++ (te ++ rest)) := by
      apply noDigit_of_head (p := (· = '.')) _ hpoint hafter.1
      rintro c rfl
      decide
    simp only [unsigned?, List.append_assoc, hwhole _ hafter', hfraction _ hafter,
      hexponent _ hrest.afterExponent, hvalue, Option.bind_eq_bind, Option.bind_some]
    rfl
  · rw [hc]
    rfl

theorem number?_of_ne {c : Char} (hc : c ≠ '-') (cs : List Char) :
    number? (c :: cs) = unsigned? false (c :: cs) := by
  unfold number?
  split
  · next heq => exact absurd (List.cons.inj heq).1 hc
  · rfl

/-- A numeral starts with its sign or with a digit. -/
theorem exists_number {cs r : List Char} {j : Json} (h : number? cs = some (j, r)) :
    ∃ t, cs = t ++ r ∧ Scans number? Ends t j ∧
      ∃ c rest, t = c :: rest ∧ (c = '-' ∨ Digits.isDigit c = true) := by
  unfold number? at h
  split at h
  · obtain ⟨t, rfl, ht, -⟩ := exists_unsigned h
    exact ⟨'-' :: t, rfl, fun rest hrest => ht rest hrest, '-', t, rfl, .inl rfl⟩
  · obtain ⟨t, rfl, ht, c, rest, rfl, hc⟩ := exists_unsigned h
    refine ⟨c :: rest, rfl, fun rest' hrest => ?_, c, rest, rfl, .inr hc⟩
    have hne : c ≠ '-' := Digits.ne_of_isDigit hc (by decide)
    have hread := ht rest' hrest
    rw [List.cons_append] at hread
    rw [List.cons_append, number?_of_ne hne, hread]

/-! ## Scalars -/

theorem word?_eq_some {w cs r : List Char} (h : word? w cs = some r) : cs = w ++ r := by
  induction w generalizing cs with
  | nil => exact Option.some.inj h
  | cons c w ih =>
    cases cs with
    | nil => cases h
    | cons d cs =>
      rw [word?] at h
      split at h
      · next hc => rw [ih h, hc, List.cons_append]
      · cases h

theorem word?_append (w r : List Char) : word? w (w ++ r) = some r := by
  induction w with
  | nil => rfl
  | cons c w ih => rw [List.cons_append, word?, if_pos rfl, ih]

/-- The characters with which a scalar may start. -/
def StartsScalar (c : Char) : Prop :=
  c = 'n' ∨ c = 't' ∨ c = 'f' ∨ c = '"' ∨ c = '-' ∨ Digits.isDigit c = true

theorem scalar?_of_number {c : Char} (hc : c = '-' ∨ Digits.isDigit c = true) (cs : List Char) :
    scalar? (c :: cs) = number? (c :: cs) := by
  have hne (d : Char) (hd : d ≠ '-' ∧ Digits.isDigit d = false) : c ≠ d := by
    rintro rfl
    rcases hc with hc | hc
    · exact hd.1 hc
    · rw [hd.2] at hc
      cases hc
  unfold scalar?
  split
  · next heq => exact absurd (List.cons.inj heq).1 (hne _ (by decide))
  · next heq => exact absurd (List.cons.inj heq).1 (hne _ (by decide))
  · next heq => exact absurd (List.cons.inj heq).1 (hne _ (by decide))
  · next heq => exact absurd (List.cons.inj heq).1 (hne _ (by decide))
  · rfl

theorem exists_scalar {cs r : List Char} {j : Json} (h : scalar? cs = some (j, r)) :
    ∃ t, cs = t ++ r ∧ Scans scalar? Ends t j ∧ ∃ c rest, t = c :: rest ∧ StartsScalar c := by
  unfold scalar? at h
  split at h
  · obtain ⟨r', hr, h⟩ := Option.map_eq_some_iff.1 h
    obtain ⟨rfl, rfl⟩ := Prod.mk.inj h
    refine ⟨_, word?_eq_some hr, fun rest _ => ?_, 'n', _, rfl, .inl rfl⟩
    show (word? "null".toList ("null".toList ++ rest)).map (fun r => (Json.null, r)) = _
    rw [word?_append]
    rfl
  · obtain ⟨r', hr, h⟩ := Option.map_eq_some_iff.1 h
    obtain ⟨rfl, rfl⟩ := Prod.mk.inj h
    refine ⟨_, word?_eq_some hr, fun rest _ => ?_, 't', _, rfl, .inr (.inl rfl)⟩
    show (word? "true".toList ("true".toList ++ rest)).map (fun r => (Json.bool true, r)) = _
    rw [word?_append]
    rfl
  · obtain ⟨r', hr, h⟩ := Option.map_eq_some_iff.1 h
    obtain ⟨rfl, rfl⟩ := Prod.mk.inj h
    refine ⟨_, word?_eq_some hr, fun rest _ => ?_, 'f', _, rfl, .inr (.inr (.inl rfl))⟩
    show (word? "false".toList ("false".toList ++ rest)).map (fun r => (Json.bool false, r)) = _
    rw [word?_append]
    rfl
  · obtain ⟨⟨s, r'⟩, hr, h⟩ := Option.map_eq_some_iff.1 h
    obtain ⟨rfl, rfl⟩ := Prod.mk.inj h
    obtain ⟨t, ht, hread⟩ := exists_literal hr
    refine ⟨'"' :: t, ht, fun rest _ => ?_, '"', t, rfl, .inr (.inr (.inr (.inl rfl)))⟩
    show (literal? ('"' :: t ++ rest)).map (fun read => (Json.text read.1, read.2)) = _
    rw [hread rest trivial]
    rfl
  · obtain ⟨t, rfl, ht, c, rest, rfl, hc⟩ := exists_number h
    refine ⟨c :: rest, rfl, fun rest' hrest => ?_, c, rest, rfl, ?_⟩
    · have hread := ht rest' hrest
      rw [List.cons_append] at hread
      rw [List.cons_append, scalar?_of_number hc, hread]
    · rcases hc with hc | hc
      · exact .inr (.inr (.inr (.inr (.inl hc))))
      · exact .inr (.inr (.inr (.inr (.inr hc))))

end JobRegistry.Json
