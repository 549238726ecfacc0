import JobRegistry.Proofs.Json.Token

/-!
# Spellings of trees

`Spells j cs` tells in the manner of a grammar how a text spells a tree: the tokens stand in the
order of the tree, and any blanks may stand before each of them. Every text that is read spells the
tree that is read (`spelled_of_read?`), and no other tree (`Spelled.eq_of_read?`).
-/

namespace JobRegistry.Json

/-! ## Blanks -/

/-- Nothing but blanks. -/
def Blank (b : List Char) : Prop :=
  ∀ c ∈ b, isBlankChar c = true

theorem skipBlanks_append {b : List Char} (hb : Blank b) (cs : List Char) :
    skipBlanks (b ++ cs) = skipBlanks cs :=
  List.dropWhile_append_of_pos hb

theorem skipBlanks_cons {c : Char} (hc : isBlankChar c = false) (cs : List Char) :
    skipBlanks (c :: cs) = c :: cs :=
  List.dropWhile_cons_of_neg (by simp [hc])

theorem exists_blank (cs : List Char) : ∃ b, cs = b ++ skipBlanks cs ∧ Blank b :=
  ⟨cs.takeWhile isBlankChar, List.takeWhile_append_dropWhile.symm,
    List.all_eq_true.1 List.all_takeWhile⟩

/-- Before a comma or a closing bracket a scalar ends, also if blanks come first. -/
theorem ends_append {b : List Char} (hb : Blank b) {c : Char}
    (hc : c = ',' ∨ c = ']' ∨ c = '\x7d') (cs : List Char) : Ends (b ++ c :: cs) := by
  intro d hd
  cases b with
  | nil =>
    obtain rfl := Option.some.inj hd
    exact .inr hc
  | cons d' b =>
    obtain rfl := Option.some.inj hd
    exact .inl (hb _ List.mem_cons_self)

instance (c : Char) : Decidable (StartsScalar c) :=
  inferInstanceAs (Decidable (_ ∨ _))

theorem StartsScalar.ne {c d : Char} (hc : StartsScalar c) (hd : ¬ StartsScalar d) : c ≠ d := by
  rintro rfl
  exact hd hc

theorem StartsScalar.not_blank {c : Char} (hc : StartsScalar c) : isBlankChar c = false := by
  simp only [isBlankChar, Bool.or_eq_false_iff, beq_eq_false_iff_ne]
  exact ⟨⟨⟨hc.ne (by decide), hc.ne (by decide)⟩, hc.ne (by decide)⟩, hc.ne (by decide)⟩

/-! ## The grammar -/

/-- The text spells the name of a member and has a colon after it. -/
def SpellsName (name : String) (cs : List Char) : Prop :=
  ∃ b t b', Blank b ∧ Blank b' ∧ Scans literal? (fun _ => True) ('"' :: t) name ∧
    cs = b ++ ('"' :: t ++ (b' ++ [':']))

mutual

/-- The text spells the tree, possibly after some blanks. -/
inductive Spells : Json → List Char → Prop
  | scalar {j : Json} {c : Char} {t : List Char} (hc : StartsScalar c)
    (h : Scans scalar? Ends (c :: t) j) : Spells j (c :: t)
  | blank {j : Json} {c : Char} {cs : List Char} (hc : isBlankChar c = true) (h : Spells j cs) :
    Spells j (c :: cs)
  | noItems {b : List Char} (hb : Blank b) : Spells (.array []) ('[' :: (b ++ [']']))
  | array {items : List Json} {cs : List Char} (h : SpellsItems items cs) :
    Spells (.array items) ('[' :: cs)
  | noMembers {b : List Char} (hb : Blank b) :
    Spells (.object []) ('\x7b' :: (b ++ ['\x7d']))
  | object {members : List (String × Json)} {cs : List Char} (h : SpellsMembers members cs) :
    Spells (.object members) ('\x7b' :: cs)

/-- The text spells the items of an array up to its closing bracket. -/
inductive SpellsItems : List Json → List Char → Prop
  | last {j : Json} {t b : List Char} (h : Spells j t) (hb : Blank b) :
    SpellsItems [j] (t ++ (b ++ [']']))
  | cons {j : Json} {t b : List Char} {items : List Json} {cs : List Char} (h : Spells j t)
    (hb : Blank b) (hs : SpellsItems items cs) : SpellsItems (j :: items) (t ++ (b ++ ',' :: cs))

/-- The text spells the members of an object up to its closing brace. -/
inductive SpellsMembers : List (String × Json) → List Char → Prop
  | last {name : String} {j : Json} {n t b : List Char} (hn : SpellsName name n) (h : Spells j t)
    (hb : Blank b) : SpellsMembers [(name, j)] (n ++ (t ++ (b ++ ['\x7d'])))
  | cons {name : String} {j : Json} {n t b : List Char} {members : List (String × Json)}
    {cs : List Char} (hn : SpellsName name n) (h : Spells j t) (hb : Blank b)
    (hs : SpellsMembers members cs) :
    SpellsMembers ((name, j) :: members) (n ++ (t ++ (b ++ ',' :: cs)))

end

theorem Spells.blanks {j : Json} {b t : List Char} (hb : Blank b) (h : Spells j t) :
    Spells j (b ++ t) := by
  induction b with
  | nil => exact h
  | cons c b ih =>
    obtain ⟨hc, hb⟩ := List.forall_mem_cons.1 hb
    exact .blank hc (ih hb)

/-- The whole text spells the tree. -/
def Spelled (j : Json) (s : String) : Prop :=
  ∃ t b, s.toList = t ++ b ∧ Spells j t ∧ Blank b

/-! ## What is read is spelled -/

theorem exists_name {cs r r' : List Char} {name : String}
    (hname : literal? (skipBlanks cs) = some (name, r)) (hcolon : skipBlanks r = ':' :: r') :
    ∃ n, cs = n ++ r' ∧ SpellsName name n := by
  obtain ⟨b, hb, hblank⟩ := exists_blank cs
  obtain ⟨t, ht, hread⟩ := exists_literal hname
  obtain ⟨b', hb', hblank'⟩ := exists_blank r
  rw [hcolon] at hb'
  refine ⟨b ++ ('"' :: t ++ (b' ++ [':'])), ?_, b, t, b', hblank, hblank', hread, rfl⟩
  rw [hb, ht, hb']
  simp only [List.append_assoc, List.cons_append, List.nil_append]

section

variable {item : List Char → Option (Json × List Char)}
  (hitem : ∀ cs j r, item cs = some (j, r) → ∃ t, cs = t ++ r ∧ Spells j t)
include hitem

theorem exists_items {fuel : Nat} {cs r : List Char} {items : List Json}
    (h : items? item fuel cs = some (items, r)) : ∃ t, cs = t ++ r ∧ SpellsItems items t := by
  induction fuel generalizing cs r items with
  | zero => cases h
  | succ fuel ih =>
    rw [items?] at h
    split at h
    · cases h
    · next j r' hj =>
      obtain ⟨t, rfl, ht⟩ := hitem _ _ _ hj
      obtain ⟨b, hb, hblank⟩ := exists_blank r'
      split at h
      · next rest hcomma =>
        obtain ⟨⟨items', r''⟩, hitems, h⟩ := Option.map_eq_some_iff.1 h
        obtain ⟨rfl, rfl⟩ := Prod.mk.inj h
        obtain ⟨t', rfl, ht'⟩ := ih hitems
        rw [hcomma] at hb
        refine ⟨t ++ (b ++ ',' :: t'), ?_, .cons ht hblank ht'⟩
        rw [hb]
        simp only [List.append_assoc, List.cons_append]
      · next rest hclose =>
        obtain ⟨rfl, rfl⟩ := Prod.mk.inj (Option.some.inj h)
        rw [hclose] at hb
        refine ⟨t ++ (b ++ [']']), ?_, .last ht hblank⟩
        rw [hb]
        simp only [List.append_assoc, List.cons_append, List.nil_append]
      · cases h

theorem exists_members {fuel : Nat} {cs r : List Char} {members : List (String × Json)}
    (h : members? item fuel cs = some (members, r)) :
    ∃ t, cs = t ++ r ∧ SpellsMembers members t := by
  induction fuel generalizing cs r members with
  | zero => cases h
  | succ fuel ih =>
    rw [members?] at h
    split at h
    · cases h
    · next name r₁ hname =>
      split at h
      · next r₂ hcolon =>
        obtain ⟨n, rfl, hn⟩ := exists_name hname hcolon
        split at h
        · cases h
        · next j r₃ hj =>
          obtain ⟨t, rfl, ht⟩ := hitem _ _ _ hj
          obtain ⟨b, hb, hblank⟩ := exists_blank r₃
          split at h
          · next r₄ hcomma =>
            obtain ⟨⟨members', r'⟩, hmembers, h⟩ := Option.map_eq_some_iff.1 h
            obtain ⟨rfl, rfl⟩ := Prod.mk.inj h
            obtain ⟨t', rfl, ht'⟩ := ih hmembers
            rw [hcomma] at hb
            refine ⟨n ++ (t ++ (b ++ ',' :: t')), ?_, .cons hn ht hblank ht'⟩
            rw [hb]
            simp only [List.append_assoc, List.cons_append]
          · next r₄ hclose =>
            obtain ⟨rfl, rfl⟩ := Prod.mk.inj (Option.some.inj h)
            rw [hclose] at hb
            refine ⟨n ++ (t ++ (b ++ ['\x7d'])), ?_, .last hn ht hblank⟩
            rw [hb]
            simp only [List.append_assoc, List.cons_append, List.nil_append]
          · cases h
      · cases h

theorem exists_array {cs r : List Char} {j : Json} (h : array? item cs = some (j, r)) :
    ∃ t, '[' :: cs = t ++ r ∧ Spells j t := by
  unfold array? at h
  split at h
  · next rest hclose =>
    obtain ⟨rfl, rfl⟩ := Prod.mk.inj (Option.some.inj h)
    obtain ⟨b, hb, hblank⟩ := exists_blank cs
    rw [hclose] at hb
    refine ⟨'[' :: (b ++ [']']), ?_, .noItems hblank⟩
    rw [hb]
    simp only [List.append_assoc, List.cons_append, List.nil_append]
  · obtain ⟨⟨items, r'⟩, hitems, h⟩ := Option.map_eq_some_iff.1 h
    obtain ⟨rfl, rfl⟩ := Prod.mk.inj h
    obtain ⟨t, rfl, ht⟩ := exists_items hitem hitems
    exact ⟨'[' :: t, rfl, .array ht⟩

theorem exists_object {cs r : List Char} {j : Json} (h : object? item cs = some (j, r)) :
    ∃ t, '\x7b' :: cs = t ++ r ∧ Spells j t := by
  unfold object? at h
  split at h
  · next rest hclose =>
    obtain ⟨rfl, rfl⟩ := Prod.mk.inj (Option.some.inj h)
    obtain ⟨b, hb, hblank⟩ := exists_blank cs
    rw [hclose] at hb
    refine ⟨'\x7b' :: (b ++ ['\x7d']), ?_, .noMembers hblank⟩
    rw [hb]
    simp only [List.append_assoc, List.cons_append, List.nil_append]
  · obtain ⟨⟨members, r'⟩, hmembers, h⟩ := Option.map_eq_some_iff.1 h
    obtain ⟨rfl, rfl⟩ := Prod.mk.inj h
    obtain ⟨t, rfl, ht⟩ := exists_members hitem hmembers
    exact ⟨'\x7b' :: t, rfl, .object ht⟩

end

/-- A tree that is spelled after blanks. -/
theorem exists_of_skipBlanks {cs t r : List Char} {j : Json} (ht : skipBlanks cs = t ++ r)
    (h : Spells j t) : ∃ t, cs = t ++ r ∧ Spells j t := by
  obtain ⟨b, hb, hblank⟩ := exists_blank cs
  refine ⟨b ++ t, ?_, h.blanks hblank⟩
  rw [List.append_assoc, ← ht]
  exact hb

theorem exists_of_scalar? {cs r : List Char} {j : Json}
    (h : scalar? (skipBlanks cs) = some (j, r)) : ∃ t, cs = t ++ r ∧ Spells j t := by
  obtain ⟨t, ht, hread, c, rest, rfl, hc⟩ := exists_scalar h
  exact exists_of_skipBlanks ht (.scalar hc hread)

/-- What is read off the front of a text is spelled there. -/
theorem exists_of_value? {depth : Nat} {cs r : List Char} {j : Json}
    (h : Json.value? depth cs = some (j, r)) : ∃ t, cs = t ++ r ∧ Spells j t := by
  induction depth generalizing cs r j with
  | zero => exact exists_of_scalar? h
  | succ depth ih =>
    rw [Json.value?] at h
    split at h
    · next rest hopen =>
      obtain ⟨t, ht, hs⟩ := exists_array (fun _ _ _ => ih) h
      exact exists_of_skipBlanks (hopen.trans ht) hs
    · next rest hopen =>
      obtain ⟨t, ht, hs⟩ := exists_object (fun _ _ _ => ih) h
      exact exists_of_skipBlanks (hopen.trans ht) hs
    · exact exists_of_scalar? h

/-- **A text spells the tree that is read from it.** -/
theorem spelled_of_read? {s : String} {j : Json} (h : read? s = some j) : Spelled j s := by
  unfold read? at h
  split at h
  · next k r hfront =>
    split at h
    · next hr =>
      obtain rfl := Option.some.inj h
      obtain ⟨t, ht, hs⟩ := exists_of_value? hfront
      obtain ⟨b, hb, hblank⟩ := exists_blank r
      rw [List.isEmpty_iff.1 hr, List.append_nil] at hb
      exact ⟨t, r, ht, hs, hb ▸ hblank⟩
    · cases h
  · cases h

/-! ## What is spelled is read -/

theorem value?_skipBlanks (depth : Nat) {cs cs' : List Char} (h : skipBlanks cs = skipBlanks cs') :
    Json.value? depth cs = Json.value? depth cs' := by
  cases depth with
  | zero => rw [Json.value?, Json.value?, h]
  | succ depth => rw [Json.value?, Json.value?, h]

theorem value?_scalar (depth : Nat) {c : Char} (hc : StartsScalar c) (cs : List Char) :
    Json.value? depth (c :: cs) = scalar? (c :: cs) := by
  cases depth with
  | zero => rw [Json.value?, skipBlanks_cons hc.not_blank]
  | succ depth =>
    rw [Json.value?, skipBlanks_cons hc.not_blank]
    split
    · next heq => exact absurd (List.cons.inj heq).1 (hc.ne (by decide))
    · next heq => exact absurd (List.cons.inj heq).1 (hc.ne (by decide))
    · rfl

/-- An array is read only where another level is left. -/
theorem value?_array {depth : Nat} {cs : List Char} {read : Json × List Char}
    (h : Json.value? depth ('[' :: cs) = some read) :
    ∃ depth', array? (Json.value? depth') cs = some read := by
  cases depth with
  | zero => cases h
  | succ depth => exact ⟨depth, h⟩

theorem value?_object {depth : Nat} {cs : List Char} {read : Json × List Char}
    (h : Json.value? depth ('\x7b' :: cs) = some read) :
    ∃ depth', object? (Json.value? depth') cs = some read := by
  cases depth with
  | zero => cases h
  | succ depth => exact ⟨depth, h⟩

/-- The text of a tree does not start with a closing bracket. -/
theorem Spells.head_ne : ∀ {j : Json} {t : List Char}, Spells j t → ∀ cs,
    ∃ c rest, skipBlanks (t ++ cs) = c :: rest ∧ c ≠ ']'
  | _, _, .scalar (c := c) hc _, _ => ⟨c, _, skipBlanks_cons hc.not_blank _, hc.ne (by decide)⟩
  | _, _, .blank hc h, cs => by
    obtain ⟨d, rest, hd, hne⟩ := h.head_ne cs
    exact ⟨d, rest, (List.dropWhile_cons_of_pos hc).trans hd, hne⟩
  | _, _, .noItems _, _ => ⟨'[', _, skipBlanks_cons (by decide) _, by decide⟩
  | _, _, .array _, _ => ⟨'[', _, skipBlanks_cons (by decide) _, by decide⟩
  | _, _, .noMembers _, _ => ⟨'\x7b', _, skipBlanks_cons (by decide) _, by decide⟩
  | _, _, .object _, _ => ⟨'\x7b', _, skipBlanks_cons (by decide) _, by decide⟩

theorem SpellsItems.array?_eq {items : List Json} {t : List Char} (h : SpellsItems items t)
    (item : List Char → Option (Json × List Char)) (cs : List Char) :
    array? item (t ++ cs) =
      (items? item (t ++ cs).length (t ++ cs)).map fun read => (.array read.1, read.2) := by
  have hhead : ∃ c rest, skipBlanks (t ++ cs) = c :: rest ∧ c ≠ ']' := by
    cases h with
    | last h _ => rw [List.append_assoc]; exact h.head_ne _
    | cons h _ _ => rw [List.append_assoc]; exact h.head_ne _
  obtain ⟨c, rest, hc, hne⟩ := hhead
  unfold array?
  split
  · next hclose => exact absurd (List.cons.inj (hc.symm.trans hclose)).1 hne
  · rfl

/-- After the name of a member its value is read, and then the next members. -/
theorem SpellsName.members?_eq {name : String} {n : List Char} (h : SpellsName name n)
    (item : List Char → Option (Json × List Char)) (fuel : Nat) (cs : List Char) :
    members? item (fuel + 1) (n ++ cs) = (item cs).bind fun read =>
      match skipBlanks read.2 with
      | ',' :: rest => (members? item fuel rest).map fun more => ((name, read.1) :: more.1, more.2)
      | '\x7d' :: rest => some ([(name, read.1)], rest)
      | _ => none := by
  obtain ⟨b, t, b', hb, hb', hread, rfl⟩ := h
  have hname : literal? (skipBlanks (b ++ ('"' :: t ++ (b' ++ [':'])) ++ cs)) =
      some (name, b' ++ ':' :: cs) := by
    rw [List.append_assoc, skipBlanks_append hb, List.append_assoc, List.append_assoc,
      List.cons_append, skipBlanks_cons (by decide)]
    exact hread _ trivial
  have hcolon : skipBlanks (b' ++ ':' :: cs) = ':' :: cs := by
    rw [skipBlanks_append hb', skipBlanks_cons (by decide)]
  rw [members?, hname]
  simp only [hcolon]
  cases item cs with
  | none => rfl
  | some read => rfl

theorem SpellsMembers.object?_eq {members : List (String × Json)} {t : List Char}
    (h : SpellsMembers members t) (item : List Char → Option (Json × List Char))
    (cs : List Char) : object? item (t ++ cs) =
      (members? item (t ++ cs).length (t ++ cs)).map fun read => (.object read.1, read.2) := by
  have hhead : ∃ rest, skipBlanks (t ++ cs) = '"' :: rest := by
    have hname {name : String} {n : List Char} (hn : SpellsName name n) (cs : List Char) :
        ∃ rest, skipBlanks (n ++ cs) = '"' :: rest := by
      obtain ⟨b, t, b', hb, -, -, rfl⟩ := hn
      rw [List.append_assoc, skipBlanks_append hb]
      exact ⟨_, skipBlanks_cons (by decide) _⟩
    cases h with
    | last hn _ _ => rw [List.append_assoc]; exact hname hn _
    | cons hn _ _ _ => rw [List.append_assoc]; exact hname hn _
  obtain ⟨rest, hquote⟩ := hhead
  unfold object?
  split
  · next hclose =>
    rw [hquote] at hclose
    exact absurd (List.cons.inj hclose).1 (by decide)
  · rfl

mutual

theorem Spells.eq_of_value? : ∀ {j : Json} {t : List Char}, Spells j t →
    ∀ {depth : Nat} {cs r : List Char} {k : Json}, Ends cs →
      Json.value? depth (t ++ cs) = some (k, r) → k = j ∧ r = cs
  | _, _, .scalar hc h, depth, cs, r, k, hend, hread => by
    rw [List.cons_append, value?_scalar depth hc, ← List.cons_append, h cs hend] at hread
    obtain ⟨rfl, rfl⟩ := Prod.mk.inj (Option.some.inj hread)
    exact ⟨rfl, rfl⟩
  | _, _, .blank hc h, depth, cs, r, k, hend, hread => by
    rw [List.cons_append, value?_skipBlanks depth (List.dropWhile_cons_of_pos hc)] at hread
    exact h.eq_of_value? hend hread
  | _, _, .noItems hb, depth, cs, r, k, hend, hread => by
    rw [List.cons_append] at hread
    obtain ⟨depth', hread⟩ := value?_array hread
    rw [List.append_assoc, List.singleton_append, array?, skipBlanks_append hb,
      skipBlanks_cons (by decide)] at hread
    obtain ⟨rfl, rfl⟩ := Prod.mk.inj (Option.some.inj hread)
    exact ⟨rfl, rfl⟩
  | _, _, .array h, depth, cs, r, k, hend, hread => by
    rw [List.cons_append] at hread
    obtain ⟨depth', hread⟩ := value?_array hread
    rw [h.array?_eq] at hread
    obtain ⟨⟨items, r'⟩, hitems, hread⟩ := Option.map_eq_some_iff.1 hread
    obtain ⟨rfl, rfl⟩ := Prod.mk.inj hread
    obtain ⟨rfl, rfl⟩ := h.eq_of_items? hitems
    exact ⟨rfl, rfl⟩
  | _, _, .noMembers hb, depth, cs, r, k, hend, hread => by
    rw [List.cons_append] at hread
    obtain ⟨depth', hread⟩ := value?_object hread
    rw [List.append_assoc, List.singleton_append, object?, skipBlanks_append hb,
      skipBlanks_cons (by decide)] at hread
    obtain ⟨rfl, rfl⟩ := Prod.mk.inj (Option.some.inj hread)
    exact ⟨rfl, rfl⟩
  | _, _, .object h, depth, cs, r, k, hend, hread => by
    rw [List.cons_append] at hread
    obtain ⟨depth', hread⟩ := value?_object hread
    rw [h.object?_eq] at hread
    obtain ⟨⟨members, r'⟩, hmembers, hread⟩ := Option.map_eq_some_iff.1 hread
    obtain ⟨rfl, rfl⟩ := Prod.mk.inj hread
    obtain ⟨rfl, rfl⟩ := h.eq_of_members? hmembers
    exact ⟨rfl, rfl⟩

theorem SpellsItems.eq_of_items? : ∀ {items : List Json} {t : List Char}, SpellsItems items t →
    ∀ {depth fuel : Nat} {cs r : List Char} {ks : List Json},
      items? (Json.value? depth) fuel (t ++ cs) = some (ks, r) → ks = items ∧ r = cs
  | _, _, _, _, 0, _, _, _, hread => by cases hread
  | _, _, .last h hb, depth, fuel + 1, cs, r, ks, hread => by
    rw [List.append_assoc, List.append_assoc, List.singleton_append, items?] at hread
    split at hread
    · cases hread
    · next k r' hk =>
      obtain ⟨rfl, rfl⟩ := h.eq_of_value? (ends_append hb (by simp) cs) hk
      rw [skipBlanks_append hb, skipBlanks_cons (by decide)] at hread
      obtain ⟨rfl, rfl⟩ := Prod.mk.inj (Option.some.inj hread)
      exact ⟨rfl, rfl⟩
  | _, _, .cons h hb hs, depth, fuel + 1, cs, r, ks, hread => by
    rw [List.append_assoc, List.append_assoc, List.cons_append, items?] at hread
    split at hread
    · cases hread
    · next k r' hk =>
      obtain ⟨rfl, rfl⟩ := h.eq_of_value? (ends_append hb (by simp) _) hk
      rw [skipBlanks_append hb, skipBlanks_cons (by decide)] at hread
      obtain ⟨⟨ks', r''⟩, hks, hread⟩ := Option.map_eq_some_iff.1 hread
      obtain ⟨rfl, rfl⟩ := Prod.mk.inj hread
      obtain ⟨rfl, rfl⟩ := hs.eq_of_items? hks
      exact ⟨rfl, rfl⟩

theorem SpellsMembers.eq_of_members? : ∀ {members : List (String × Json)} {t : List Char},
    SpellsMembers members t → ∀ {depth fuel : Nat} {cs r : List Char} {ms : List (String × Json)},
      members? (Json.value? depth) fuel (t ++ cs) = some (ms, r) → ms = members ∧ r = cs
  | _, _, _, _, 0, _, _, _, hread => by cases hread
  | _, _, .last hn h hb, depth, fuel + 1, cs, r, ms, hread => by
    rw [List.append_assoc, List.append_assoc, List.append_assoc, List.singleton_append,
      hn.members?_eq] at hread
    obtain ⟨⟨k, r'⟩, hk, hread⟩ := Option.bind_eq_some_iff.1 hread
    obtain ⟨rfl, rfl⟩ := h.eq_of_value? (ends_append hb (by simp) cs) hk
    rw [skipBlanks_append hb, skipBlanks_cons (by decide)] at hread
    obtain ⟨rfl, rfl⟩ := Prod.mk.inj (Option.some.inj hread)
    exact ⟨rfl, rfl⟩
  | _, _, .cons hn h hb hs, depth, fuel + 1, cs, r, ms, hread => by
    rw [List.append_assoc, List.append_assoc, List.append_assoc, List.cons_append,
      hn.members?_eq] at hread
    obtain ⟨⟨k, r'⟩, hk, hread⟩ := Option.bind_eq_some_iff.1 hread
    obtain ⟨rfl, rfl⟩ := h.eq_of_value? (ends_append hb (by simp) _) hk
    rw [skipBlanks_append hb, skipBlanks_cons (by decide)] at hread
    obtain ⟨⟨ms', r''⟩, hms, hread⟩ := Option.map_eq_some_iff.1 hread
    obtain ⟨rfl, rfl⟩ := Prod.mk.inj hread
    obtain ⟨rfl, rfl⟩ := hs.eq_of_members? hms
    exact ⟨rfl, rfl⟩

end

/-- **A text that is read spells no other tree than the one that is read.** -/
theorem Spelled.eq_of_read? {s : String} {j k : Json} (h : Spelled j s) (hread : read? s = some k) :
    k = j := by
  obtain ⟨t, b, ht, hs, hb⟩ := h
  have hend : Ends b := fun c hc => .inl (hb c (List.mem_of_mem_head? hc))
  unfold read? readFront? at hread
  rw [ht] at hread
  split at hread
  · next k' r hfront =>
    split at hread
    · obtain rfl := Option.some.inj hread
      exact (hs.eq_of_value? hend hfront).1
    · cases hread
  · cases hread

end JobRegistry.Json
