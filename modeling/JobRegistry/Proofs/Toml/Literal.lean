import JobRegistry.Toml.Literal
import Mathlib.Tactic.SplitIfs

/-!
# Texts of documents read back

Each form of a text is read back to the text by the scanner for its marks (`string?_writeAs`), as
long as the text suits the form (`Form.Suits`): between apostrophes, where nothing can be escaped,
every character has to stand for itself and no run of apostrophes may be taken for the closing
marks. The form that is chosen for a text suits it (`suits_choose`), so that every text is read back
from the form in which it is written (`string?_write`).

In the forms that go over lines a mark of the text is not taken for a closing one unless two more
marks follow. What stands behind a run of at most two marks is no mark, or the end of the text;
there the scanner meets the three closing marks after the run, and gives the run back to the text
(`close`).
-/

namespace JobRegistry.Toml

open Text

/-- The text does not go on with a mark. -/
def NoMark (cs : List Char) : Prop := ∀ c ∈ cs.head?, c ≠ '"' ∧ c ≠ '\''

theorem noMark_cons {c : Char} {cs : List Char} : NoMark (c :: cs) ↔ c ≠ '"' ∧ c ≠ '\'' := by
  simp [NoMark]

/-! ## Single escapes -/

section Basic

variable {lines : Bool}

/-- The characters after a backslash that are an escape on their own. -/
theorem eq_of_shortEscape? {c e : Char} (h : shortEscape? c = some e) :
    c = '"' ∨ c = '\\' ∨ c = 'b' ∨ c = 't' ∨ c = 'n' ∨ c = 'f' ∨ c = 'r' := by
  unfold shortEscape? at h
  split_ifs at h with hself
  · exact hself.elim .inl fun hc => .inr (.inl hc)
  all_goals simp_all

theorem basicTail?_short {c e : Char} (h : shortEscape? c = some e) (cs : List Char) :
    basicTail? lines false ('\\' :: c :: cs) = (basicTail? lines false cs).map (consText e) := by
  have hletter : c ≠ 'u' ∧ c ≠ 'U' ∧ isBlank c = false ∧ c ≠ '\n' ∧ c ≠ '\r' := by
    rcases eq_of_shortEscape? h with rfl | rfl | rfl | rfl | rfl | rfl | rfl <;> decide
  obtain ⟨hu, hU, hblank, hn, hr⟩ := hletter
  have hline : startsLineEnd ((c :: cs).dropWhile isBlank) = false := by
    rw [List.dropWhile_cons_of_neg (by simp [hblank]), startsLineEnd] <;> simp_all
  rw [basicTail?]
  · simp [hline, h]
  all_goals simp_all

/-- Four digits of a control character stand for it. -/
theorem scalar?_fourDigits {n : Nat} (h : n < 128) :
    scalar? (fourDigits n) = some (Char.ofNat n) := by
  have hall : ∀ n < 128, scalar? (fourDigits n) = some (Char.ofNat n) := by decide
  exact hall n h

theorem basicTail?_control {c : Char} (h : isControl c = true) (cs : List Char) :
    basicTail? lines false ('\\' :: 'u' :: (fourDigits c.toNat ++ cs)) =
      (basicTail? lines false cs).map (consText c) := by
  have hcode : c.toNat < 128 := by
    simp only [isControl, Bool.or_eq_true, beq_iff_eq, Bool.and_eq_true, decide_eq_true_eq] at h
    omega
  have hscalar := scalar?_fourDigits hcode
  rw [Char.ofNat_toNat, fourDigits] at hscalar
  simp only [fourDigits, List.cons_append, List.nil_append]
  rw [basicTail?, hscalar]

theorem ne_return_of_not_isControl {c : Char} (h : isControl c = false) : c ≠ '\r' := by
  rintro rfl
  exact absurd h (by decide)

theorem isVisible_of_not_isControl {c : Char} (h : isControl c = false) (hn : c ≠ '\n') :
    isVisible c = true := by
  by_cases ht : c = '\t'
  · subst ht; rfl
  · simp_all [isControl, isVisible]

theorem basicTail?_plain {c : Char} (h : isControl c = false) (hn : c = '\n' → lines = true)
    (hm : c ≠ '"') (hb : c ≠ '\\') (cs : List Char) :
    basicTail? lines false (c :: cs) = (basicTail? lines false cs).map (consText c) := by
  have hr : c ≠ '\r' := ne_return_of_not_isControl h
  have hself : ((c == '\n' && lines) || (isVisible c && decide (c ≠ '\\'))) = true := by
    by_cases hline : c = '\n'
    · simp [hline, hn hline]
    · simp [isVisible_of_not_isControl h hline, hb]
  rw [basicTail?]
  · simp only [Bool.false_and, Bool.false_eq_true, if_false]
    exact if_pos hself
  all_goals simp_all

/-- The scanner undoes the escape of one character. -/
theorem basicTail?_escaped {c : Char} (hm : c ≠ '"') (cs : List Char) :
    basicTail? lines false (escaped lines c ++ cs) =
      (basicTail? lines false cs).map (consText c) := by
  unfold escaped
  split_ifs with h₁ h₂ h₃ h₄ h₅ h₆ h₇ h₈
  any_goals (subst_vars; exact basicTail?_short (by decide) cs)
  · subst h₃
    exact basicTail?_plain (by decide) (fun _ => h₄) (by decide) (by decide) cs
  · exact basicTail?_control h₈ cs
  · exact basicTail?_plain (eq_false_of_ne_true h₈) (fun h => absurd h h₃) hm h₇ cs

end Basic

/-! ## Closing marks -/

theorem close_of_noMark {mark : Char} {cs : List Char} (h : ∀ c ∈ cs.head?, c ≠ mark) :
    close mark cs = ([], cs) := by
  match cs with
  | [] => rfl
  | [a] => rw [close, if_neg (h a rfl)]
  | a :: b :: rest => rw [close, if_neg fun hab => h a rfl hab.1, if_neg (h a rfl)]

theorem close_mark {mark : Char} {cs : List Char} (h : ∀ c ∈ cs.head?, c ≠ mark) :
    close mark (mark :: cs) = ([mark], cs) := by
  match cs with
  | [] => rw [close, if_pos rfl]
  | b :: rest => rw [close, if_neg fun hab => h b rfl hab.2, if_pos rfl]

theorem close_marks {mark : Char} {cs : List Char} :
    close mark (mark :: mark :: cs) = ([mark, mark], cs) := by
  rw [close, if_pos ⟨rfl, rfl⟩]

/-! ## Quotation marks -/

theorem basicTail?_line (cs : List Char) : basicTail? false false ('"' :: cs) = some ([], cs) := by
  rw [basicTail?.eq_def]
  rfl

theorem basicTail?_close (cs : List Char) :
    basicTail? true false ('"' :: '"' :: '"' :: cs) = some (close '"' cs) := by
  rw [basicTail?.eq_def]
  rfl

/-- A mark that no two others follow belongs to the text. -/
theorem basicTail?_mark {cs : List Char} (h : ∀ rest, cs ≠ '"' :: '"' :: rest) :
    basicTail? true false ('"' :: cs) = (basicTail? true false cs).map (consText '"') := by
  rw [basicTail?]
  · rfl
  · exact h

theorem escaped_head {lines : Bool} {c : Char} (hc : c ≠ '"') (cs : List Char) :
    ∀ d ∈ (escaped lines c ++ cs).head?, d ≠ '"' := by
  unfold escaped
  split_ifs <;> simp_all

theorem escapeFrom_mark {run : Nat} (h : run < 2) (s : List Char) :
    escapeFrom true run ('"' :: s) = '"' :: escapeFrom true (run + 1) s := by
  rw [escapeFrom, if_pos (by simp [h])]

/-- On one line every mark is escaped, over lines every third. -/
theorem escapeFrom_escaped_mark {lines : Bool} {run : Nat} (h : lines = true → 2 ≤ run)
    (s : List Char) : escapeFrom lines run ('"' :: s) = '\\' :: '"' :: escapeFrom lines 0 s := by
  rw [escapeFrom, if_neg]
  simp only [Bool.and_eq_true, decide_eq_true_eq]
  exact fun hshort => Nat.not_lt.2 (h hshort.1) hshort.2

/-- What is written for a character does not begin with a mark, unless the mark may stand. -/
theorem escapeFrom_head {lines : Bool} {run : Nat} {c : Char}
    (h : c = '"' → lines = true → 2 ≤ run) (s cs : List Char) :
    ∀ d ∈ (escapeFrom lines run (c :: s) ++ cs).head?, d ≠ '"' := by
  by_cases hc : c = '"'
  · subst hc
    rw [escapeFrom_escaped_mark (h rfl)]
    simp
  · rw [escapeFrom, List.append_assoc]
    · exact escaped_head hc _
    · exact hc

theorem basicTail?_escapeFrom (run : Nat) (s cs : List Char) :
    basicTail? false false (escapeFrom false run s ++ '"' :: cs) = some (s, cs) := by
  induction s generalizing run with
  | nil => rw [escapeFrom, List.nil_append, basicTail?_line]
  | cons c s ih =>
    by_cases hc : c = '"'
    · subst hc
      rw [escapeFrom_escaped_mark (absurd · Bool.false_ne_true), List.cons_append, List.cons_append,
        basicTail?_short (e := '"') (by decide), ih]
      rfl
    · rw [escapeFrom, List.append_assoc, basicTail?_escaped hc, ih]
      · rfl
      · exact hc

/-- Behind a mark no two more are written, unless the text ends with the run. -/
theorem escapeFrom_ne_marks {run : Nat} {s : List Char} (hs : s ≠ [])
    (hmark : run = 0 → s ≠ ['"']) (cs rest : List Char) :
    escapeFrom true (run + 1) s ++ cs ≠ '"' :: '"' :: rest := by
  intro e
  obtain ⟨c, t, rfl⟩ := List.exists_cons_of_ne_nil hs
  by_cases hc : c = '"' ∧ run = 0
  · obtain ⟨rfl, rfl⟩ := hc
    cases t with
    | nil => exact hmark rfl rfl
    | cons d t =>
      rw [escapeFrom_mark (by decide), List.cons_append] at e
      have hthird : d = '"' → true = true → 2 ≤ 2 := fun _ _ => Nat.le_refl 2
      have hhead := escapeFrom_head hthird t cs '"'
      rw [(List.cons.inj e).2] at hhead
      exact hhead rfl rfl
  · have hlong : c = '"' → true = true → 2 ≤ run + 1 := fun h _ => by
      have := not_and.1 hc h
      omega
    have hhead := escapeFrom_head hlong t cs '"'
    rw [e] at hhead
    exact hhead rfl rfl

theorem basicTail?_escapeFrom_lines {cs : List Char} (hcs : ∀ c ∈ cs.head?, c ≠ '"') (run : Nat)
    (s : List Char) :
    basicTail? true false (escapeFrom true run s ++ '"' :: '"' :: '"' :: cs) = some (s, cs) := by
  induction s generalizing run with
  | nil => rw [escapeFrom, List.nil_append, basicTail?_close, close_of_noMark hcs]
  | cons c s ih =>
    by_cases hc : c = '"'
    · subst hc
      by_cases hrun : run < 2
      · rw [escapeFrom_mark hrun, List.cons_append]
        by_cases hnil : s = []
        · rw [hnil, escapeFrom, List.nil_append, basicTail?_close, close_mark hcs]
        by_cases hmark : run = 0 ∧ s = ['"']
        · obtain ⟨rfl, rfl⟩ := hmark
          rw [escapeFrom_mark (by decide), escapeFrom, List.singleton_append, basicTail?_close,
            close_marks]
        · rw [basicTail?_mark (escapeFrom_ne_marks hnil (not_and.1 hmark) _), ih]
          rfl
      · rw [escapeFrom_escaped_mark fun _ => Nat.le_of_not_lt hrun, List.cons_append,
          List.cons_append, basicTail?_short (e := '"') (by decide), ih]
        rfl
    · rw [escapeFrom, List.append_assoc, basicTail?_escaped hc, ih]
      · rfl
      · exact hc

/-! ## Apostrophes -/

theorem literalTail?_line (cs : List Char) : literalTail? false ('\'' :: cs) = some ([], cs) := by
  rw [literalTail?.eq_def]
  rfl

theorem literalTail?_close (cs : List Char) :
    literalTail? true ('\'' :: '\'' :: '\'' :: cs) = some (close '\'' cs) := by
  rw [literalTail?.eq_def]
  rfl

/-- A mark that no two others follow belongs to the text. -/
theorem literalTail?_mark {cs : List Char} (h : ∀ rest, cs ≠ '\'' :: '\'' :: rest) :
    literalTail? true ('\'' :: cs) = (literalTail? true cs).map (consText '\'') := by
  rw [literalTail?]
  · rfl
  · exact h

theorem literalTail?_plain {lines : Bool} {c : Char} (h : isControl c = false)
    (hn : c = '\n' → lines = true) (hm : c ≠ '\'') (cs : List Char) :
    literalTail? lines (c :: cs) = (literalTail? lines cs).map (consText c) := by
  have hr : c ≠ '\r' := ne_return_of_not_isControl h
  have hself : ((c == '\n' && lines) || isVisible c) = true := by
    by_cases hline : c = '\n'
    · simp [hline, hn hline]
    · simp [isVisible_of_not_isControl h hline]
  rw [literalTail?]
  · exact if_pos hself
  all_goals simp_all

theorem literalTail?_append {s : List Char} (hcontrol : ∀ c ∈ s, isControl c = false)
    (hn : '\n' ∉ s) (hm : '\'' ∉ s) (cs : List Char) :
    literalTail? false (s ++ '\'' :: cs) = some (s, cs) := by
  induction s with
  | nil => rw [List.nil_append, literalTail?_line]
  | cons c s ih =>
    rw [List.forall_mem_cons] at hcontrol
    rw [List.mem_cons, not_or] at hn hm
    rw [List.cons_append, literalTail?_plain hcontrol.1 (fun h => absurd h.symm hn.1)
      (Ne.symm hm.1), ih hcontrol.2 hn.2 hm.2]
    rfl

theorem le_longestRun (mark : Char) (run : Nat) (cs : List Char) :
    run ≤ longestRun mark run cs := by
  induction cs generalizing run with
  | nil => exact Nat.le_refl run
  | cons c cs ih =>
    rw [longestRun]
    split
    · exact Nat.le_trans (Nat.le_succ run) (ih (run + 1))
    · exact Nat.le_max_left _ _

/-- Behind a mark no two more stand in the text, unless it ends with the run. -/
theorem append_ne_marks {run : Nat} {s : List Char} (hrun : longestRun '\'' (run + 1) s ≤ 2)
    (hs : s ≠ []) (hmark : s ≠ ['\'']) (cs rest : List Char) :
    s ++ cs ≠ '\'' :: '\'' :: rest := by
  intro e
  obtain ⟨c, t, rfl⟩ := List.exists_cons_of_ne_nil hs
  obtain ⟨rfl, htail⟩ := List.cons.inj e
  cases t with
  | nil => exact hmark rfl
  | cons d t =>
    obtain ⟨rfl, -⟩ := List.cons.inj htail
    rw [longestRun, if_pos rfl, longestRun, if_pos rfl] at hrun
    have := le_longestRun '\'' (run + 1 + 1 + 1) t
    omega

theorem literalTail?_append_lines {cs : List Char} (hcs : ∀ c ∈ cs.head?, c ≠ '\'') {run : Nat}
    {s : List Char} (hcontrol : ∀ c ∈ s, isControl c = false) (hrun : longestRun '\'' run s ≤ 2) :
    literalTail? true (s ++ '\'' :: '\'' :: '\'' :: cs) = some (s, cs) := by
  induction s generalizing run with
  | nil => rw [List.nil_append, literalTail?_close, close_of_noMark hcs]
  | cons c s ih =>
    rw [List.forall_mem_cons] at hcontrol
    rw [longestRun] at hrun
    rw [List.cons_append]
    by_cases hc : c = '\''
    · subst hc
      rw [if_pos rfl] at hrun
      by_cases hnil : s = []
      · rw [hnil, List.nil_append, literalTail?_close, close_mark hcs]
      by_cases hmark : s = ['\'']
      · rw [hmark, List.singleton_append, literalTail?_close, close_marks]
      · rw [literalTail?_mark (append_ne_marks hrun hnil hmark _), ih hcontrol.2 hrun]
        rfl
    · rw [if_neg hc] at hrun
      rw [literalTail?_plain hcontrol.1 (fun _ => rfl) hc,
        ih hcontrol.2 (Nat.le_trans (Nat.le_max_right _ _) hrun)]
      rfl

/-! ## All forms -/

/-- What a form asks of a text: between apostrophes nothing can be escaped. -/
def Form.Suits : Form → List Char → Prop
  | basic, _ => True
  | basicLines, _ => True
  | literal, cs => (∀ c ∈ cs, isControl c = false) ∧ '\n' ∉ cs ∧ '\'' ∉ cs
  | literalLines, cs => (∀ c ∈ cs, isControl c = false) ∧ longestRun '\'' 0 cs ≤ 2

/-- **The form that is chosen for a text suits it.** -/
theorem Form.suits_choose (cs : List Char) : (choose cs).Suits cs := by
  unfold choose
  dsimp only
  split_ifs <;> simp_all [Suits]

theorem dropLineEnd_of_head {cs : List Char} (h : ∀ c ∈ cs.head?, c ≠ '\n' ∧ c ≠ '\r') :
    dropLineEnd cs = cs := by
  rw [dropLineEnd]
  · rintro rest rfl
    exact (h '\n' rfl).1 rfl
  · rintro rest rfl
    exact (h '\r' rfl).2 rfl

/-- The line on which a text begins is not read as part of it. -/
theorem dropLineEnd_opening {s cs : List Char}
    (h : '\n' ∉ s → ∀ c ∈ cs.head?, c ≠ '\n' ∧ c ≠ '\r') :
    dropLineEnd ((if s.contains '\n' then ['\n'] else []) ++ cs) = cs := by
  split
  · rfl
  · next hn => exact dropLineEnd_of_head (h (by simpa using hn))

theorem string?_quote {cs : List Char} (h : ∀ rest, cs ≠ '"' :: '"' :: rest) :
    string? ('"' :: cs) = basicTail? false false cs := by
  rw [string?]
  · rfl
  · exact fun rest e => h rest (List.cons.inj e).2
  · exact nofun

theorem string?_apostrophe {cs : List Char} (h : ∀ rest, cs ≠ '\'' :: '\'' :: rest) :
    string? ('\'' :: cs) = literalTail? false cs := by
  rw [string?]
  · rfl
  · exact nofun
  · exact fun rest e => h rest (List.cons.inj e).2

section Forms

variable {s cs : List Char}

theorem string?_basic (hcs : NoMark cs) : string? (writeAs .basic s ++ cs) = some (s, cs) := by
  have hwritten : writeAs .basic s ++ cs = '"' :: (escapeFrom false 0 s ++ '"' :: cs) := by
    simp [writeAs, Form.marks, Form.isLines, inside]
  have hopen : ∀ rest, escapeFrom false 0 s ++ '"' :: cs ≠ '"' :: '"' :: rest := by
    intro rest e
    cases s with
    | nil =>
      have hhead : NoMark ('"' :: rest) := (List.cons.inj e).2 ▸ hcs
      exact (noMark_cons.1 hhead).1 rfl
    | cons c s =>
      have hescaped : c = '"' → false = true → 2 ≤ 0 := nofun
      have hhead := escapeFrom_head hescaped s ('"' :: cs) '"'
      rw [e] at hhead
      exact hhead rfl rfl
  rw [hwritten, string?_quote hopen, basicTail?_escapeFrom]

theorem string?_literal (h : Form.literal.Suits s) (hcs : NoMark cs) :
    string? (writeAs .literal s ++ cs) = some (s, cs) := by
  obtain ⟨hcontrol, hn, hm⟩ := h
  have hopen : ∀ rest, s ++ '\'' :: cs ≠ '\'' :: '\'' :: rest := by
    intro rest e
    cases s with
    | nil =>
      have hhead : NoMark ('\'' :: rest) := (List.cons.inj e).2 ▸ hcs
      exact (noMark_cons.1 hhead).2 rfl
    | cons c s => exact hm ((List.cons.inj e).1 ▸ List.mem_cons_self)
  have hwritten : writeAs .literal s ++ cs = '\'' :: (s ++ '\'' :: cs) := by
    simp [writeAs, Form.marks, Form.isLines, inside]
  rw [hwritten, string?_apostrophe hopen, literalTail?_append hcontrol hn hm]

theorem escaped_first {c : Char} (hn : c ≠ '\n') (cs : List Char) :
    ∀ d ∈ (escaped true c ++ cs).head?, d ≠ '\n' ∧ d ≠ '\r' := by
  unfold escaped
  split_ifs <;> simp_all

theorem string?_basicLines (hcs : NoMark cs) :
    string? (writeAs .basicLines s ++ cs) = some (s, cs) := by
  have hwritten : writeAs .basicLines s ++ cs = '"' :: '"' :: '"' ::
      ((if s.contains '\n' then ['\n'] else []) ++
        (escapeFrom true 0 s ++ '"' :: '"' :: '"' :: cs)) := by
    simp [writeAs, Form.marks, Form.isLines, inside]
  have hfirst : '\n' ∉ s → ∀ c ∈ (escapeFrom true 0 s ++ '"' :: '"' :: '"' :: cs).head?,
      c ≠ '\n' ∧ c ≠ '\r' := by
    intro hn
    cases s with
    | nil => simp [escapeFrom]
    | cons c s =>
      by_cases hc : c = '"'
      · subst hc
        simp [escapeFrom_mark]
      · rw [escapeFrom, List.append_assoc]
        · exact escaped_first (Ne.symm (not_or.1 (mt List.mem_cons.2 hn)).1) _
        · exact hc
  rw [hwritten, string?, dropLineEnd_opening hfirst,
    basicTail?_escapeFrom_lines fun c hc => (hcs c hc).1]

theorem string?_literalLines (h : Form.literalLines.Suits s) (hcs : NoMark cs) :
    string? (writeAs .literalLines s ++ cs) = some (s, cs) := by
  obtain ⟨hcontrol, hrun⟩ := h
  have hwritten : writeAs .literalLines s ++ cs = '\'' :: '\'' :: '\'' ::
      ((if s.contains '\n' then ['\n'] else []) ++ (s ++ '\'' :: '\'' :: '\'' :: cs)) := by
    simp [writeAs, Form.marks, Form.isLines, inside]
  have hfirst : '\n' ∉ s → ∀ c ∈ (s ++ '\'' :: '\'' :: '\'' :: cs).head?,
      c ≠ '\n' ∧ c ≠ '\r' := by
    intro hn
    cases s with
    | nil => simp
    | cons c s =>
      rw [List.forall_mem_cons] at hcontrol
      have hc : c ≠ '\n' := Ne.symm (not_or.1 (mt List.mem_cons.2 hn)).1
      simpa using ⟨hc, ne_return_of_not_isControl hcontrol.1⟩
  rw [hwritten, string?, dropLineEnd_opening hfirst,
    literalTail?_append_lines (fun c hc => (hcs c hc).2) hcontrol hrun]

end Forms

/-- **A text is read back from every form that suits it**, and what follows it is left. -/
theorem string?_writeAs {form : Form} {s cs : List Char} (h : form.Suits s) (hcs : NoMark cs) :
    string? (writeAs form s ++ cs) = some (s, cs) := by
  cases form with
  | basic => exact string?_basic hcs
  | literal => exact string?_literal h hcs
  | basicLines => exact string?_basicLines hcs
  | literalLines => exact string?_literalLines h hcs

/-- **Every text is read back from the form in which it is written.** -/
theorem string?_write (s : String) {cs : List Char} (hcs : NoMark cs) :
    string? (write s ++ cs) = some (s.toList, cs) :=
  string?_writeAs (Form.suits_choose s.toList) hcs

end JobRegistry.Toml
