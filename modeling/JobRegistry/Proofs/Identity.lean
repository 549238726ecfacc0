import JobRegistry.Identity
import JobRegistry.Proofs.Canonical
import JobRegistry.Proofs.Text.Bytes

/-!
# Hashed texts have one reading

The text that is hashed for an identifier (`bytes_derive`) is a label, a kind and a canonical text
with colons between them. `hashed_bytes_inj` says that its bytes determine all three, although a
kind may hold colons and quotation marks itself.

The point is that a colon inside a canonical text is never followed by another canonical text that
goes on to the end (`chars_ne_colon_chars`). A text is scanned from left to right with `Place`,
which tells whether the scan stands in a literal and how many brackets are open. A colon outside of
literals stands under an open bracket, which a whole canonical text after it would leave open. After
a colon inside a literal the marks that follow are paired the wrong way round.
-/

namespace JobRegistry

open Text

namespace Canonical

/-! ## Scanning for literals and brackets -/

/-- Where the scan of a text stands, with the number of brackets that are open. -/
inductive Place
  | outside (depth : Nat)
  /-- In a literal. -/
  | inside (depth : Nat)
  /-- In a literal, after a backslash. -/
  | escape (depth : Nat)
  deriving DecidableEq

/-- One character of a scan. No canonical text has a backslash outside of literals, a closing
bracket too many, or a colon under no bracket. -/
def Place.next? : Place → Char → Option Place
  | .inside d, c => some (if c = '"' then .outside d else if c = '\\' then .escape d else .inside d)
  | .escape d, _ => some (.inside d)
  | .outside d, c =>
    if c = '"' then some (.inside d)
    else if c = '\\' then none
    else if c = '[' ∨ c = '\x7b' then some (.outside (d + 1))
    else if c = ']' ∨ c = '\x7d' then if d = 0 then none else some (.outside (d - 1))
    else if c = ':' ∧ d = 0 then none
    else some (.outside d)

/-- The scan of a text. -/
def scan? (p : Place) (cs : List Char) : Option Place :=
  cs.foldlM Place.next? p

theorem scan?_nil (p : Place) : scan? p [] = some p := rfl

theorem scan?_cons (p : Place) (c : Char) (cs : List Char) :
    scan? p (c :: cs) = (p.next? c).bind (scan? · cs) := rfl

theorem scan?_append (p : Place) (cs ds : List Char) :
    scan? p (cs ++ ds) = (scan? p cs).bind (scan? · ds) :=
  List.foldlM_append

theorem scan?_step {p q : Place} {c : Char} (h : p.next? c = some q) (cs : List Char) :
    scan? p (c :: cs) = scan? q cs := by
  rw [scan?_cons, h]
  rfl

/-! ## Canonical texts leave the scan where it was -/

/-- A character that opens and closes nothing. -/
def isPlain (c : Char) : Bool :=
  (['"', '\\', '[', ']', '\x7b', '\x7d', ':'].contains c).not

theorem next?_plain {c : Char} (h : isPlain c = true) (d : Nat) :
    (Place.outside d).next? c = some (.outside d) := by
  simp only [isPlain, List.contains_cons, List.contains_nil, Bool.or_false, Bool.not_eq_true',
    Bool.or_eq_false_iff, beq_eq_false_iff_ne, ne_eq] at h
  simp only [Place.next?, h, if_false, or_self, false_and]

theorem scan?_plain {cs : List Char} (h : ∀ c ∈ cs, isPlain c = true) (d : Nat) :
    scan? (.outside d) cs = some (.outside d) := by
  induction cs with
  | nil => rfl
  | cons c cs ih =>
    simp only [List.mem_cons, forall_eq_or_imp] at h
    rw [scan?_step (next?_plain h.1 d), ih h.2]

theorem isPlain_digit {c : Char} (h : Digits.isDigit c = true) : isPlain c = true := by
  have hne : ∀ d, Digits.isDigit d = false → (c == d) = false := by
    intro d hd
    refine beq_eq_false_iff_ne.2 fun e => ?_
    rw [e, hd] at h
    cases h
  simp only [isPlain, List.contains_cons, List.contains_nil, hne '"' (by decide),
    hne '\\' (by decide), hne '[' (by decide), hne ']' (by decide), hne '\x7b' (by decide),
    hne '\x7d' (by decide), hne ':' (by decide), Bool.or_false, Bool.not_false]

theorem isPlain_ofInt {n : Int} {c : Char} (h : c ∈ Digits.ofInt n) : isPlain c = true := by
  unfold Digits.ofInt at h
  split at h
  · rcases List.mem_cons.1 h with rfl | h
    · decide
    · exact isPlain_digit (Digits.isDigit_ofNat h)
  · exact isPlain_digit (Digits.isDigit_ofNat h)

theorem hexDigit_ne (n : Nat) : Digits.hexDigit n ≠ '"' ∧ Digits.hexDigit n ≠ '\\' := by
  have go : ∀ m < 16, Digits.hexDigit m ≠ '"' ∧ Digits.hexDigit m ≠ '\\' := by decide
  rw [← Hex.hexDigit_mod]
  exact go _ (Nat.mod_lt _ (by decide))

theorem scan?_escaped (c : Char) (d : Nat) : scan? (.inside d) (escaped c) = some (.inside d) := by
  unfold escaped
  split_ifs with hm hb
  any_goals rfl
  · simp [scan?_cons, scan?_nil, Place.next?, hexDigit_ne]
  · simp [scan?_cons, scan?_nil, Place.next?, hm, hb]

theorem scan?_flatMap_escaped (s : List Char) (d : Nat) :
    scan? (.inside d) (s.flatMap escaped) = some (.inside d) := by
  induction s with
  | nil => rfl
  | cons c s ih =>
    rw [List.flatMap_cons, scan?_append, scan?_escaped]
    exact ih

theorem scan?_literal (s : String) (d : Nat) :
    scan? (.outside d) (literal s) = some (.outside d) := by
  have h : (Place.outside d).next? '"' = some (.inside d) := rfl
  rw [literal, scan?_step h, scan?_append, scan?_flatMap_escaped]
  rfl

mutual

/-- **A canonical text closes all that it opens.** -/
theorem scan?_chars : ∀ (v : Canonical) (d : Nat), scan? (.outside d) v.chars = some (.outside d)
  | .null, d => scan?_plain (List.all_eq_true.1 rfl) d
  | .bool true, d => scan?_plain (List.all_eq_true.1 rfl) d
  | .bool false, d => scan?_plain (List.all_eq_true.1 rfl) d
  | .int n, d => by
    rw [chars]
    exact scan?_plain (fun _ => isPlain_ofInt) d
  | .text s, d => by
    rw [chars]
    exact scan?_literal s d
  | .seq items, d => by
    have h : (Place.outside d).next? '[' = some (.outside (d + 1)) := rfl
    rw [chars, scan?_step h, scan?_append, scan?_seqChars items]
    rfl
  | .map entries, d => by
    have h : (Place.outside d).next? '\x7b' = some (.outside (d + 1)) := rfl
    rw [chars, scan?_step h, scan?_append, scan?_mapChars entries]
    rfl

theorem scan?_seqChars : ∀ (items : List Canonical) (d : Nat),
    scan? (.outside d) (seqChars items) = some (.outside d)
  | [], _ => rfl
  | [v], d => by
    rw [seqChars]
    exact scan?_chars v d
  | v :: w :: rest, d => by
    have h : (Place.outside d).next? ',' = some (.outside d) := next?_plain (by decide) d
    rw [seqChars, scan?_append, scan?_chars v, Option.bind_some, scan?_step h]
    · exact scan?_seqChars (w :: rest) d
    · exact List.cons_ne_nil w rest

theorem scan?_mapChars : ∀ (entries : List (String × Canonical)) (d : Nat),
    scan? (.outside (d + 1)) (mapChars entries) = some (.outside (d + 1))
  | [], _ => rfl
  | (key, v) :: rest, d => by
    have h : (Place.outside (d + 1)).next? ':' = some (.outside (d + 1)) := rfl
    have h' : (Place.outside (d + 1)).next? ';' = some (.outside (d + 1)) := rfl
    rw [mapChars, scan?_append, scan?_literal, Option.bind_some, scan?_step h, scan?_append,
      scan?_chars v, Option.bind_some, scan?_step h']
    exact scan?_mapChars rest d

end

/-! ## No canonical text after a colon -/

/-- No text ends outside of literals both for a scan that starts inside of one and for a scan that
starts outside. -/
theorem scan?_inside_ne {a b x y : Nat} {cs : List Char}
    (h : scan? (.inside a) cs = some (.outside x)) : scan? (.outside b) cs ≠ some (.outside y) := by
  induction cs generalizing a b x y with
  | nil =>
    rw [scan?_nil] at h
    cases h
  | cons c cs ih =>
    intro h'
    rw [scan?_cons] at h h'
    by_cases hm : c = '"'
    · -- the two scans change places
      subst hm
      have hi : scan? (.inside b) cs = some (.outside y) := h'
      have ho : scan? (.outside a) cs = some (.outside x) := h
      exact ih hi ho
    by_cases hb : c = '\\'
    · subst hb
      cases h'
    have hi : (Place.inside a).next? c = some (.inside a) := by simp [Place.next?, hm, hb]
    rw [hi] at h
    obtain ⟨q, hq, h'⟩ := Option.bind_eq_some_iff.1 h'
    obtain ⟨b', rfl⟩ : ∃ b', q = .outside b' := by
      simp only [Place.next?, hm, hb, if_false] at hq
      split_ifs at hq <;> exact ⟨_, (Option.some.inj hq).symm⟩
    exact ih h h'

/-- **No canonical text ends with a colon and another canonical text.** -/
theorem chars_ne_colon_chars (v w : Canonical) (cs : List Char) :
    v.chars ≠ cs ++ ':' :: w.chars := by
  intro e
  have h := scan?_chars v 0
  have hw := scan?_chars w
  rw [e, scan?_append] at h
  obtain ⟨q, -, h⟩ := Option.bind_eq_some_iff.1 h
  cases q with
  | outside d =>
    cases d with
    | zero => cases h
    | succ d =>
      -- the bracket around the colon stays open
      have hc : (Place.outside (d + 1)).next? ':' = some (.outside (d + 1)) := rfl
      rw [scan?_step hc, hw] at h
      cases h
  | inside d =>
    have hc : (Place.inside d).next? ':' = some (.inside d) := rfl
    rw [scan?_step hc] at h
    exact scan?_inside_ne h (hw 0)
  | escape d =>
    have hc : (Place.escape d).next? ':' = some (.inside d) := rfl
    rw [scan?_step hc] at h
    exact scan?_inside_ne h (hw 0)

end Canonical

namespace Purpose

/-- An identifier is the digest of the text that is hashed for it. -/
theorem bytes_derive (p : Purpose) (kind : String) (v : Canonical) :
    (p.derive kind v).bytes = Blake3.digest (p.hashText kind v).toUTF8.toList :=
  rfl

/-- The characters of a hashed text. -/
theorem toList_hashText (p : Purpose) (kind : String) (v : Canonical) :
    (p.hashText kind v).toList = p.label.toList ++ ':' :: (kind.toList ++ ':' :: v.chars) := by
  simp [hashText, Canonical.render]

theorem label_append_inj {p q : Purpose} {cs ds : List Char}
    (e : p.label.toList ++ cs = q.label.toList ++ ds) : p = q := by
  cases p <;> cases q
  · rfl
  · exact absurd e (by simp [label])
  · exact absurd e (by simp [label])
  · rfl

/-- **The hashed bytes determine what they were made of**: the purpose of an identifier, the kind
of its record and its canonical value. -/
theorem hashed_bytes_inj (p q : Purpose) (kind kind' : String) (v w : Canonical) :
    (p.hashText kind v).toUTF8.toList = (q.hashText kind' w).toUTF8.toList ↔
      p = q ∧ kind = kind' ∧ v = w := by
  refine ⟨fun e => ?_, fun ⟨hp, hk, hv⟩ => by rw [hp, hk, hv]⟩
  have e := congrArg String.toList (bytes_inj.1 e)
  rw [toList_hashText, toList_hashText] at e
  obtain rfl := label_append_inj e
  have e := (List.cons.inj (List.append_cancel_left e)).2
  rcases List.append_eq_append_iff.1 e with ⟨cs, hk, hv⟩ | ⟨cs, hk, hv⟩
  · cases cs with
    | nil =>
      rw [List.append_nil] at hk
      exact ⟨rfl, String.toList_inj.1 hk.symm, Canonical.chars_inj (List.cons.inj hv).2⟩
    | cons c cs => exact absurd (List.cons.inj hv).2 (Canonical.chars_ne_colon_chars v w cs)
  · cases cs with
    | nil =>
      rw [List.append_nil] at hk
      exact ⟨rfl, String.toList_inj.1 hk, Canonical.chars_inj (List.cons.inj hv).2.symm⟩
    | cons c cs => exact absurd (List.cons.inj hv).2 (Canonical.chars_ne_colon_chars w v cs)

end Purpose

end JobRegistry
