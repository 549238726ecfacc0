import JobRegistry.Canonical
import JobRegistry.Proofs.Text.Digits
import JobRegistry.Proofs.Text.Literal

/-!
# Canonical texts have one reading

`chars_append_inj` reads a value off the front of a text: the first character of a canonical text
tells its shape (`Canonical.Shape`), and the text of every shape shows its own end, numerals apart,
which end where no digit follows. So different values have different canonical texts (`chars_inj`).
-/

namespace JobRegistry

open Text Number

namespace Canonical

/-! ## The first character -/

/-- What the first character of a canonical text tells about its value. -/
inductive Shape
  | null
  | bool (b : Bool)
  | int
  | text
  | seq
  | map
  deriving DecidableEq

/-- The shape of a value. -/
def shape : Canonical → Shape
  | .null => .null
  | .bool b => .bool b
  | .int _ => .int
  | .text _ => .text
  | .seq _ => .seq
  | .map _ => .map

/-- The shape of the values whose texts start with a character. -/
def shapeOf? (c : Char) : Option Shape :=
  if c = 'n' then some .null
  else if c = 't' then some (.bool true)
  else if c = 'f' then some (.bool false)
  else if c = '"' then some .text
  else if c = '[' then some .seq
  else if c = '\x7b' then some .map
  else if c = '-' ∨ Digits.isDigit c then some .int
  else none

theorem shapeOf?_digit {c : Char} (h : Digits.isDigit c = true) : shapeOf? c = some .int := by
  have hne (d : Char) (hd : Digits.isDigit d = false) : c ≠ d := Digits.ne_of_isDigit h hd
  simp only [shapeOf?, hne 'n' (by decide), hne 't' (by decide), hne 'f' (by decide),
    hne '"' (by decide), hne '[' (by decide), hne '\x7b' (by decide), h, or_true, if_true, if_false]

theorem ofInt_head (n : Int) : ∃ c cs, Digits.ofInt n = c :: cs ∧ shapeOf? c = some .int := by
  unfold Digits.ofInt
  split
  · exact ⟨'-', _, rfl, by decide⟩
  · obtain ⟨d, ds, hds, hd⟩ := Digits.exists_ofNat n.natAbs
    exact ⟨d, ds, hds, shapeOf?_digit hd⟩

theorem chars_head (v : Canonical) : ∃ c cs, v.chars = c :: cs ∧ shapeOf? c = some v.shape := by
  cases v with
  | null => exact ⟨_, _, rfl, by decide⟩
  | bool b => cases b <;> exact ⟨_, _, rfl, by decide⟩
  | int n => simpa only [chars, shape] using ofInt_head n.1
  | text s => exact ⟨'"', _, rfl, rfl⟩
  | seq items => exact ⟨'[', seqChars items ++ [']'], by rw [chars], rfl⟩
  | map entries => exact ⟨'\x7b', mapChars entries ++ ['\x7d'], by rw [chars], rfl⟩

theorem shape_eq {v w : Canonical} {r r' : List Char} (e : v.chars ++ r = w.chars ++ r') :
    v.shape = w.shape := by
  obtain ⟨c, cs, hc, hv⟩ := chars_head v
  obtain ⟨d, ds, hd, hw⟩ := chars_head w
  rw [hc, hd] at e
  obtain ⟨rfl, -⟩ := List.cons.inj e
  exact Option.some.inj (hv.symm.trans hw)

theorem closing_ne_chars {c : Char} (hc : shapeOf? c = none) (v : Canonical) {r r' : List Char} :
    c :: r ≠ v.chars ++ r' := by
  obtain ⟨d, ds, hd, hv⟩ := chars_head v
  rw [hd]
  intro e
  obtain ⟨rfl, -⟩ := List.cons.inj e
  rw [hc] at hv
  cases hv

/-! ## One reading -/

/-- What follows an item of a sequence. -/
def seqTail : List Canonical → List Char → List Char
  | [], r => ']' :: r
  | rest, r => ',' :: (seqChars rest ++ ']' :: r)

theorem seqChars_cons (v : Canonical) (rest : List Canonical) (r : List Char) :
    seqChars (v :: rest) ++ ']' :: r = v.chars ++ seqTail rest r := by
  cases rest <;> simp [seqChars, seqTail]

theorem noDigit_seqTail (rest : List Canonical) (r : List Char) :
    Digits.NoDigit (seqTail rest r) := by
  cases rest <;> exact Digits.noDigit_cons.2 (by decide)

theorem mapChars_cons (key : String) (v : Canonical) (rest : List (String × Canonical))
    (r : List Char) : mapChars ((key, v) :: rest) ++ '\x7d' :: r =
      literal key ++ ':' :: (v.chars ++ ';' :: (mapChars rest ++ '\x7d' :: r)) := by
  simp [mapChars]

mutual

/-- **A canonical text has one reading**, whatever follows it but a digit. -/
theorem chars_append_inj : ∀ (v w : Canonical) {r r' : List Char}, Digits.NoDigit r →
    Digits.NoDigit r' → v.chars ++ r = w.chars ++ r' → v = w ∧ r = r'
  | .null, w, _, _, _, _, e => by
    have hs := shape_eq e
    cases w <;> simp only [shape, reduceCtorEq] at hs
    exact ⟨rfl, List.append_cancel_left e⟩
  | .bool b, w, _, _, _, _, e => by
    have hs := shape_eq e
    cases w <;> simp only [shape, reduceCtorEq, Shape.bool.injEq] at hs
    subst hs
    exact ⟨rfl, List.append_cancel_left e⟩
  | .int m, w, _, _, h, h', e => by
    have hs := shape_eq e
    cases w <;> simp only [shape, reduceCtorEq] at hs
    simp only [chars] at e
    obtain ⟨hn, hr⟩ := Digits.ofInt_append_inj h h' e
    exact ⟨congrArg _ (Subtype.ext hn), hr⟩
  | .text s, w, _, _, _, _, e => by
    have hs := shape_eq e
    cases w <;> simp only [shape, reduceCtorEq] at hs
    simp only [chars] at e
    obtain ⟨rfl, hr⟩ := Json.literal_append_inj e
    exact ⟨rfl, hr⟩
  | .seq items, w, _, _, _, _, e => by
    have hs := shape_eq e
    cases w <;> simp only [shape, reduceCtorEq] at hs
    simp only [chars, List.cons_append, List.append_assoc, List.nil_append, List.cons.injEq,
      true_and] at e
    obtain ⟨rfl, hr⟩ := seqChars_append_inj items _ e
    exact ⟨rfl, hr⟩
  | .map entries, w, _, _, _, _, e => by
    have hs := shape_eq e
    cases w <;> simp only [shape, reduceCtorEq] at hs
    simp only [chars, List.cons_append, List.append_assoc, List.nil_append, List.cons.injEq,
      true_and] at e
    obtain ⟨rfl, hr⟩ := mapChars_append_inj entries _ e
    exact ⟨rfl, hr⟩

theorem seqChars_append_inj : ∀ (items items' : List Canonical) {r r' : List Char},
    seqChars items ++ ']' :: r = seqChars items' ++ ']' :: r' → items = items' ∧ r = r'
  | [], [], _, _, e => ⟨rfl, (List.cons.inj e).2⟩
  | [], w :: rest', _, _, e => by
    rw [seqChars_cons] at e
    exact absurd e (closing_ne_chars (by decide) w)
  | v :: rest, [], _, _, e => by
    rw [seqChars_cons] at e
    exact absurd e.symm (closing_ne_chars (by decide) v)
  | v :: rest, w :: rest', r, r', e => by
    rw [seqChars_cons, seqChars_cons] at e
    obtain ⟨rfl, ht⟩ := chars_append_inj v w (noDigit_seqTail _ _) (noDigit_seqTail _ _) e
    match rest, rest', ht with
    | [], [], ht => exact ⟨rfl, (List.cons.inj ht).2⟩
    | [], _ :: _, ht => exact absurd (List.cons.inj ht).1 (by decide)
    | _ :: _, [], ht => exact absurd (List.cons.inj ht).1 (by decide)
    | x :: xs, y :: ys, ht =>
      obtain ⟨hrest, hr⟩ := seqChars_append_inj (x :: xs) (y :: ys) (List.cons.inj ht).2
      exact ⟨congrArg _ hrest, hr⟩

theorem mapChars_append_inj : ∀ (entries entries' : List (String × Canonical)) {r r' : List Char},
    mapChars entries ++ '\x7d' :: r = mapChars entries' ++ '\x7d' :: r' →
      entries = entries' ∧ r = r'
  | [], [], _, _, e => ⟨rfl, (List.cons.inj e).2⟩
  | [], (_, _) :: _, _, _, e => by
    rw [mapChars_cons] at e
    exact absurd (List.cons.inj e).1 (by decide)
  | (_, _) :: _, [], _, _, e => by
    rw [mapChars_cons] at e
    exact absurd (List.cons.inj e).1 (by decide)
  | (key, v) :: rest, (key', w) :: rest', r, r', e => by
    rw [mapChars_cons, mapChars_cons] at e
    obtain ⟨rfl, hv⟩ := Json.literal_append_inj e
    have noDigit : ∀ cs, Digits.NoDigit (';' :: cs) := fun _ => Digits.noDigit_cons.2 (by decide)
    obtain ⟨rfl, ht⟩ := chars_append_inj v w (noDigit _) (noDigit _) (List.cons.inj hv).2
    obtain ⟨rfl, hr⟩ := mapChars_append_inj rest rest' (List.cons.inj ht).2
    exact ⟨rfl, hr⟩

end

/-- Values with the same canonical text are the same. -/
theorem chars_inj {v w : Canonical} (e : v.chars = w.chars) : v = w := by
  refine (chars_append_inj v w Digits.noDigit_nil Digits.noDigit_nil ?_).1
  rw [List.append_nil, List.append_nil, e]

end Canonical

end JobRegistry
