import JobRegistry.Proofs.Text.Digits
import JobRegistry.Proofs.Toml.Literal
import JobRegistry.Toml.Reader
import Mathlib.Tactic.SplitIfs

/-!
# Documents read back

A document that is written statement by statement is read back statement by statement. `Writes` says
that characters are a statement with the end of its line; blanks, empty lines and comments may stand
before it. A document whose parts are written in this way consists of these statements
(`read?_ofList`): the reader takes one of them with each unit of its fuel, and no part is empty.

Of the values, texts are written in the forms that suit them (`string?_write`), and integers as
numerals (`value?_ofNat`): these are no words for truth values and no dates, and have no leading
zeros.
-/

namespace JobRegistry.Toml

open Number Text

/-! ## Numerals -/

section Digits

variable {ds : List Char} (hd : ∀ c ∈ ds, Digits.isDigit c = true)
include hd

theorem ungroup?_digits (hne : ds ≠ []) : ungroup? Digits.isDigit ds = some ds := by
  induction ds with
  | nil => exact absurd rfl hne
  | cons c ds ih =>
    rw [List.forall_mem_cons] at hd
    cases ds with
    | nil => rw [ungroup?, if_pos hd.1]
    | cons d ds =>
      have hgroup : d ≠ '_' := by
        rintro rfl
        exact absurd (hd.2 '_' List.mem_cons_self) (by decide)
      rw [ungroup?, if_pos hd.1, ih hd.2 (List.cons_ne_nil d ds)]
      · rfl
      · simp
      · simpa using hgroup

theorem not_mem_of_digits {c : Char} (hc : Digits.isDigit c = false) : c ∉ ds := fun h => by
  rw [hd c h] at hc
  cases hc

theorem isDate_digits : isDate ds = false := by
  unfold isDate
  split
  · exact absurd (by simp) (not_mem_of_digits hd (c := '-') (by decide))
  · rfl

theorem isTime_digits : isTime ds = false := by
  unfold isTime
  split
  · exact absurd (by simp) (not_mem_of_digits hd (c := ':') (by decide))
  · rfl

theorem isMoment_digits : isMoment ds = false := by
  have hjoin : ∀ t ∈ ds.drop 10, (t == 'T' || t == 't') = false := fun t ht => by
    have hdigit := hd t (List.mem_of_mem_drop ht)
    have hT : t ≠ 'T' := Digits.ne_of_isDigit hdigit (by decide)
    have ht : t ≠ 't' := Digits.ne_of_isDigit hdigit (by decide)
    simp [hT, ht]
  unfold isMoment
  rw [isDate_digits hd, isTime_digits hd]
  split
  · next t time hdrop => simp [hjoin t (hdrop ▸ List.mem_cons_self)]
  · rfl

theorem isWordChar_digits : ∀ c ∈ ds, isWordChar c = true := fun c hc => by
  have hdigit := Digits.isDigit_iff.1 (hd c hc)
  simp [isWordChar, Char.isAlphanum, hdigit]

end Digits

theorem decimal?_ofNat (n : Nat) : decimal? (Digits.ofNat n) = some (Digits.ofNat n) := by
  have hdigits := ungroup?_digits (fun c (hc : c ∈ Digits.ofNat n) => Digits.isDigit_ofNat hc)
    (Digits.ofNat_ne_nil n)
  unfold decimal?
  rw [hdigits]
  split
  · next h => exact h.symm
  · next t hzero h =>
    have hlength : 1 < (Digits.ofNat n).length := by
      have := List.length_pos_iff.2 hzero
      rw [Option.some.inj h, List.length_cons]
      omega
    exact absurd (by rw [Option.some.inj h]; rfl) (Digits.head_ofNat hlength)
  · rfl

theorem integer?_ofNat (n : Nat) : integer? (Digits.ofNat n) = some (n : Int) := by
  have hnot {c : Char} (hc : Digits.isDigit c = false) : c ∉ Digits.ofNat n :=
    not_mem_of_digits (fun c hc => Digits.isDigit_ofNat hc) hc
  unfold integer?
  split
  · next h => exact absurd (h ▸ by simp) (hnot (c := 'x') (by decide))
  · next h => exact absurd (h ▸ by simp) (hnot (c := 'o') (by decide))
  · next h => exact absurd (h ▸ by simp) (hnot (c := 'b') (by decide))
  · next h => exact absurd (h ▸ by simp) (hnot (c := '-') (by decide))
  · next h => exact absurd (h ▸ by simp) (hnot (c := '+') (by decide))
  · rw [decimal?_ofNat, Option.map_some, Digits.toNat_ofNat]

theorem ofWord?_ofNat {n : Nat} {whole : Signed64} (h : whole.1 = n) :
    ofWord? (Digits.ofNat n) = some (.whole whole) := by
  have hdigits : ∀ c ∈ Digits.ofNat n, Digits.isDigit c = true := fun c => Digits.isDigit_ofNat
  have htrue : Digits.ofNat n ≠ "true".toList := fun e =>
    not_mem_of_digits hdigits (c := 't') (by decide) (e ▸ by decide)
  have hfalse : Digits.ofNat n ≠ "false".toList := fun e =>
    not_mem_of_digits hdigits (c := 'f') (by decide) (e ▸ by decide)
  rw [ofWord?, if_neg htrue, if_neg hfalse, isMoment_digits hdigits, integer?_ofNat]
  simp only [Bool.false_eq_true, if_false, Ranged.ofInt?_eq_some.2 h.symm, Option.map_some]

/-! ## Values -/

/-- A word is read up to the end of the line. -/
theorem word?_append {word : List Char} (h : ∀ c ∈ word, isWordChar c = true) (cs : List Char) :
    word? (word ++ '\n' :: cs) = (ofWord? word).map fun v => (v, '\n' :: cs) := by
  have hend : ∀ c ∈ ('\n' :: cs).head?, isWordChar c = false := by
    rintro c ⟨⟩
    decide
  rw [word?, takeWhile_append_of_head h hend, dropWhile_append_of_head h hend]
  rfl

theorem leaf?_word {c : Char} (hm : c ≠ '"' ∧ c ≠ '\'') (cs : List Char) :
    leaf? (c :: cs) = word? (c :: cs) := by
  rw [leaf?] <;> simp_all

theorem leaf?_text {c : Char} (hm : c = '"' ∨ c = '\'') (cs : List Char) : leaf? (c :: cs) =
    (string? (c :: cs)).map fun read => (.text (String.ofList read.1), read.2) := by
  rcases hm with rfl | rfl <;> rfl

theorem value?_leaf (depth : Nat) {c : Char} (h : c ≠ '[' ∧ c ≠ '\x7b') (cs : List Char) :
    value? depth (c :: cs) = leaf? (c :: cs) := by
  cases depth with
  | zero => rfl
  | succ depth => rw [value?] <;> simp_all

theorem value?_ofNat (depth : Nat) {n : Nat} {whole : Signed64} (h : whole.1 = n) (cs : List Char) :
    value? depth (Digits.ofNat n ++ '\n' :: cs) = some (.whole whole, '\n' :: cs) := by
  have hdigits : ∀ c ∈ Digits.ofNat n, Digits.isDigit c = true := fun c => Digits.isDigit_ofNat
  obtain ⟨d, ds, hds, hd⟩ := Digits.exists_ofNat n
  have hopen : d ≠ '[' ∧ d ≠ '\x7b' :=
    ⟨Digits.ne_of_isDigit hd (by decide), Digits.ne_of_isDigit hd (by decide)⟩
  have hmark : d ≠ '"' ∧ d ≠ '\'' :=
    ⟨Digits.ne_of_isDigit hd (by decide), Digits.ne_of_isDigit hd (by decide)⟩
  rw [hds, List.cons_append, value?_leaf depth hopen, leaf?_word hmark, ← List.cons_append, ← hds,
    word?_append (isWordChar_digits hdigits), ofWord?_ofNat h]
  rfl

theorem exists_write (s : String) : ∃ c cs, write s = c :: cs ∧ (c = '"' ∨ c = '\'') := by
  unfold write writeAs
  cases Form.choose s.toList with
  | basic => exact ⟨_, _, rfl, .inl rfl⟩
  | literal => exact ⟨_, _, rfl, .inr rfl⟩
  | basicLines => exact ⟨_, _, rfl, .inl rfl⟩
  | literalLines => exact ⟨_, _, rfl, .inr rfl⟩

theorem value?_write (depth : Nat) (s : String) {cs : List Char} (hcs : NoMark cs) :
    value? depth (write s ++ cs) = some (.text s, cs) := by
  obtain ⟨c, t, hwrite, hmark⟩ := exists_write s
  have hopen : c ≠ '[' ∧ c ≠ '\x7b' := by rcases hmark with rfl | rfl <;> decide
  rw [hwrite, List.cons_append, value?_leaf depth hopen, leaf?_text hmark, ← List.cons_append,
    ← hwrite, string?_write s hcs, Option.map_some, String.ofList_toList]

/-! ## Keys -/

theorem skipBlanks_of_head {cs : List Char} (h : ∀ c ∈ cs.head?, isBlank c = false) :
    skipBlanks cs = cs := by
  cases cs with
  | nil => rfl
  | cons c cs => rw [skipBlanks, List.dropWhile_cons_of_neg (by simp [h c rfl])]

/-- A key that is written without marks. -/
def IsBare (key : String) : Prop :=
  key.toList ≠ [] ∧ ∀ c ∈ key.toList, isKeyChar c = true

instance (key : String) : Decidable (IsBare key) :=
  decidable_of_iff ((!key.toList.isEmpty && key.toList.all isKeyChar) = true) (by simp [IsBare])

theorem mark_of_isKeyChar {c : Char} (h : isKeyChar c = true) :
    c ≠ '"' ∧ c ≠ '\'' ∧ c ≠ '[' ∧ c ≠ '#' ∧ c ≠ '\n' ∧ c ≠ '\r' ∧ isBlank c = false := by
  refine ⟨?_, ?_, ?_, ?_, ?_, ?_, ?_⟩
  any_goals (rintro rfl; exact absurd h (by decide))
  refine eq_false_of_ne_true fun hblank => ?_
  have hc : c = ' ' ∨ c = '\t' := by simpa [isBlank] using hblank
  rcases hc with rfl | rfl <;> exact absurd h (by decide)

section Key

variable {key : String} (hkey : IsBare key) {cs : List Char}
include hkey

theorem IsBare.exists_cons : ∃ c t, key.toList = c :: t ∧ isKeyChar c = true := by
  obtain ⟨c, t, h⟩ := List.exists_cons_of_ne_nil hkey.1
  exact ⟨c, t, h, hkey.2 c (h ▸ List.mem_cons_self)⟩

theorem key?_bare (hcs : ∀ c ∈ cs.head?, isKeyChar c = false) :
    key? (key.toList ++ cs) = some (key, cs) := by
  obtain ⟨c, t, h, hc⟩ := hkey.exists_cons
  obtain ⟨hq, ha, -⟩ := mark_of_isKeyChar hc
  have hline : lineString? (key.toList ++ cs) = none := by
    rw [h, List.cons_append, lineString?] <;> simp_all
  have hne : key.toList.isEmpty = false := by rw [h]; rfl
  simp only [key?, hline, takeWhile_append_of_head hkey.2 hcs, dropWhile_append_of_head hkey.2 hcs,
    hne, Bool.false_eq_true, if_false, String.ofList_toList]

theorem skipBlanks_bare : skipBlanks (key.toList ++ cs) = key.toList ++ cs := by
  obtain ⟨c, t, h, hc⟩ := hkey.exists_cons
  obtain ⟨-, -, -, -, -, -, hblank⟩ := mark_of_isKeyChar hc
  exact skipBlanks_of_head (by simpa [h] using hblank)

/-- A key that no point follows is a path. -/
theorem path?_bare (hcs : ∀ c ∈ cs.head?, isKeyChar c = false)
    (hpoint : ∀ rest, skipBlanks cs ≠ '.' :: rest) :
    path? (key.toList ++ cs) = some ([key], skipBlanks cs) := by
  have hkeys : ∀ fuel, keys? (fuel + 1) (key.toList ++ cs) = some ([key], skipBlanks cs) := by
    intro fuel
    rw [keys?, skipBlanks_bare hkey, key?_bare hkey hcs]
    dsimp only
    split
    · next h => exact absurd h (hpoint _)
    · rfl
  obtain ⟨c, t, h, -⟩ := hkey.exists_cons
  have hlength : (key.toList ++ cs).length = (t ++ cs).length + 1 := by
    rw [h, List.cons_append, List.length_cons]
  rw [path?, hlength, hkeys]
  rfl

end Key

/-! ## Statements -/

/-- The characters are a statement with the end of its line, after blanks and empty lines. -/
def Writes (s : Statement) (cs : List Char) : Prop :=
  ∀ rest, ∃ cs', skipTrivia? false (cs ++ rest) = some cs' ∧
    statement? cs' = some (s, '\n' :: rest)

theorem skipTrivia?_bare {key : String} (hkey : IsBare key) (cs : List Char) :
    skipTrivia? false (key.toList ++ cs) = some (key.toList ++ cs) := by
  obtain ⟨c, t, h, hc⟩ := hkey.exists_cons
  obtain ⟨-, -, -, hhash, hn, hr, hblank⟩ := mark_of_isKeyChar hc
  rw [h, List.cons_append, skipTrivia?] <;> simp_all

theorem statement?_bare {key : String} (hkey : IsBare key) (cs : List Char) :
    statement? (key.toList ++ cs) = (pair? (value? maxDepth) (key.toList ++ cs)).map
      fun read => (.entry read.1.1 read.1.2, read.2) := by
  obtain ⟨c, t, h, hc⟩ := hkey.exists_cons
  obtain ⟨-, -, hbracket, -⟩ := mark_of_isKeyChar hc
  rw [h, List.cons_append, statement?] <;> simp_all

/-- The line of an entry, if its value is read back and does not begin with a blank. -/
theorem writes_entry {key : String} (hkey : IsBare key) {v : Toml} {c : Char}
    {t written : List Char} (hwritten : written = c :: t) (hblank : isBlank c = false)
    (hvalue : ∀ cs, value? maxDepth (written ++ '\n' :: cs) = some (v, '\n' :: cs)) :
    Writes (.entry [key] v) (key.toList ++ " = ".toList ++ written ++ ['\n']) := by
  intro rest
  have hline : key.toList ++ " = ".toList ++ written ++ ['\n'] ++ rest =
      key.toList ++ (' ' :: '=' :: ' ' :: (written ++ '\n' :: rest)) := by simp
  have hpath : path? (key.toList ++ (' ' :: '=' :: ' ' :: (written ++ '\n' :: rest))) =
      some ([key], '=' :: ' ' :: (written ++ '\n' :: rest)) :=
    path?_bare hkey (by rintro c ⟨⟩; decide) (by rintro r ⟨⟩)
  have hskip : skipBlanks (' ' :: (written ++ '\n' :: rest)) = written ++ '\n' :: rest := by
    show skipBlanks (written ++ '\n' :: rest) = _
    exact skipBlanks_of_head (by simpa [hwritten] using hblank)
  rw [hline]
  refine ⟨_, skipTrivia?_bare hkey _, ?_⟩
  have hpair : pair? (value? maxDepth)
      (key.toList ++ (' ' :: '=' :: ' ' :: (written ++ '\n' :: rest))) =
        some (([key], v), '\n' :: rest) := by
    rw [pair?, hpath]
    show (value? maxDepth (skipBlanks (' ' :: (written ++ '\n' :: rest)))).map _ = _
    rw [hskip, hvalue]
    rfl
  rw [statement?_bare hkey, hpair]
  rfl

/-- The line of a header. -/
theorem writes_header {key : String} (hkey : IsBare key) :
    Writes (.header [key]) ('[' :: (key.toList ++ [']', '\n'])) := by
  intro rest
  have hline : '[' :: (key.toList ++ [']', '\n']) ++ rest =
      '[' :: (key.toList ++ (']' :: '\n' :: rest)) := by simp
  have hpath : path? (key.toList ++ (']' :: '\n' :: rest)) = some ([key], ']' :: '\n' :: rest) :=
    path?_bare hkey (by rintro c ⟨⟩; decide) (by rintro r ⟨⟩)
  obtain ⟨c, t, h, hc⟩ := hkey.exists_cons
  obtain ⟨-, -, hbracket, -⟩ := mark_of_isKeyChar hc
  have hone : ∀ r, key.toList ++ (']' :: '\n' :: rest) ≠ '[' :: r := by
    intro r e
    rw [h] at e
    exact hbracket (List.cons.inj e).1
  rw [hline]
  refine ⟨_, rfl, ?_⟩
  rw [statement?]
  · rw [hpath]
    rfl
  · exact hone

/-- An empty line may stand before a statement. -/
theorem Writes.newline {s : Statement} {cs : List Char} (h : Writes s cs) : Writes s ('\n' :: cs) :=
  h

/-! ## Whole documents -/

theorem Writes.ne_nil {s : Statement} {cs : List Char} (h : Writes s cs) : cs ≠ [] := by
  rintro rfl
  obtain ⟨cs', hskip, hread⟩ := h []
  obtain rfl : [] = cs' := Option.some.inj hskip
  cases hread

theorem statements?_newline (fuel : Nat) (cs : List Char) :
    statements? fuel ('\n' :: cs) = statements? fuel cs := by
  cases fuel with
  | zero => rfl
  | succ fuel => rfl

/-- One unit of fuel is enough for a statement. -/
theorem Writes.statements? {s : Statement} {cs : List Char} (h : Writes s cs) (fuel : Nat)
    (rest : List Char) : statements? (fuel + 1) (cs ++ rest) =
      (Toml.statements? fuel rest).map (s :: ·) := by
  obtain ⟨cs', hskip, hread⟩ := h rest
  rw [Toml.statements?, hskip]
  split
  · next e => cases e
  · next e =>
    obtain rfl := Option.some.inj e
    cases hread
  · next e =>
    obtain rfl := Option.some.inj e
    rw [hread]
    dsimp only
    rw [if_pos (show endsLine ('\n' :: rest) = true from rfl), statements?_newline]

/-- Lines that are statements each are read as these statements, with a unit of fuel for each. -/
theorem statements?_flatMap {lines : List (Statement × List Char)}
    (h : ∀ line ∈ lines, Writes line.1 line.2) {fuel : Nat} (hfuel : lines.length < fuel) :
    statements? fuel (lines.flatMap Prod.snd) = some (lines.map Prod.fst) := by
  obtain ⟨fuel, rfl⟩ := Nat.exists_eq_succ_of_ne_zero (Nat.ne_zero_of_lt hfuel)
  induction lines generalizing fuel with
  | nil => rfl
  | cons line lines ih =>
    rw [List.forall_mem_cons] at h
    have hrest : lines.length < fuel := by simpa using hfuel
    obtain ⟨fuel, rfl⟩ := Nat.exists_eq_succ_of_ne_zero (Nat.ne_zero_of_lt hrest)
    rw [List.flatMap_cons, h.1.statements?, ih h.2 fuel hrest]
    rfl

/-- **A document consists of the statements of its lines**, if it does not begin with a byte order
mark. -/
theorem read?_ofList {lines : List (Statement × List Char)}
    (h : ∀ line ∈ lines, Writes line.1 line.2)
    (hmark : ∀ c ∈ (lines.flatMap Prod.snd).head?, c ≠ '\ufeff') :
    read? (String.ofList (lines.flatMap Prod.snd)) = some (lines.map Prod.fst) := by
  have hdrop : dropMark (lines.flatMap Prod.snd) = lines.flatMap Prod.snd := by
    rw [dropMark]
    intro rest e
    exact hmark '\ufeff' (e ▸ rfl) rfl
  have hlength : lines.length ≤ (lines.flatMap Prod.snd).length := by
    clear hdrop hmark
    induction lines with
    | nil => exact Nat.zero_le _
    | cons line lines ih =>
      rw [List.forall_mem_cons] at h
      have := List.length_pos_iff.2 h.1.ne_nil
      have := ih h.2
      rw [List.flatMap_cons, List.length_append, List.length_cons]
      omega
  rw [read?, String.toList_ofList, hdrop]
  exact statements?_flatMap h (Nat.lt_succ_of_le hlength)

end JobRegistry.Toml
