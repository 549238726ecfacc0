import JobRegistry.Proofs.Json.Pretty
import JobRegistry.Proofs.Number.Numeral

/-!
# Compact texts are read back

The compact text of a tree spells the tree as its indented text does, with no blanks anywhere
(`spells_compact`, `read?_compact`). Of the scalars, all but numbers are spelled by their own texts;
so is every integer of sixty-four bits (`printable_whole`), the least one included, and every double
of which the reader of numbers gives the value back from its numeral (`printable_real`): as that has
a point or an exponent, it is not taken for an integer.
-/

namespace JobRegistry.Json

open Number Text

/-! ## Integers -/

/-- Digits that fit sixty-four bits are all gathered. -/
theorem gather_of_lt {n : Nat} {cs : List Char}
    (h : n * 10 ^ cs.length + Digits.toNat cs < 18446744073709551616) :
    gather n cs = (n * 10 ^ cs.length + Digits.toNat cs, []) := by
  induction cs generalizing n with
  | nil => rw [gather, List.length_nil, Nat.pow_zero, Nat.mul_one]; rfl
  | cons c cs ih =>
    have hnext : n * 10 ^ (c :: cs).length + Digits.toNat (c :: cs) =
        (10 * n + (Digits.value? c).getD 0) * 10 ^ cs.length + Digits.toNat cs := by
      have hfirst : Digits.toNat [c] = (Digits.value? c).getD 0 := by
        rw [Digits.toNat, List.foldl_cons, List.foldl_nil, Nat.mul_zero, Nat.zero_add]
      rw [← List.singleton_append, Digits.toNat_append, hfirst, List.singleton_append,
        List.length_cons, Nat.pow_succ']
      ring
    rw [hnext] at h ⊢
    have hle : 10 * n + (Digits.value? c).getD 0 ≤
        (10 * n + (Digits.value? c).getD 0) * 10 ^ cs.length :=
      Nat.le_mul_of_pos_right _ (Nat.pow_pos (by decide))
    rw [gather]
    exact (if_pos (by omega)).trans (ih h)

/-- A numeral without leading zeros. -/
theorem wholeDigits?_ofNat (n : Nat) :
    wholeDigits? (Digits.ofNat n) = some (Digits.ofNat n, []) := by
  have hspan : digitSpan (Digits.ofNat n) = (Digits.ofNat n, []) := by
    have h := digitSpan_append (fun c (hc : c ∈ Digits.ofNat n) => Digits.isDigit_ofNat hc)
      Digits.noDigit_nil
    rwa [List.append_nil] at h
  have hzero : ¬ ((Digits.ofNat n).head? = some '0' ∧ 1 < (Digits.ofNat n).length) :=
    fun h => Digits.head_ofNat h.2 h.1
  rw [wholeDigits?, hspan]
  simp [Digits.ofNat_ne_nil, hzero]

theorem unsigned?_ofNat (negative : Bool) {n : Nat} (h : n < 18446744073709551616) :
    unsigned? negative (Digits.ofNat n) = some (ofSignificand negative n h, []) := by
  have hgather : gather 0 (Digits.ofNat n) = (n, []) := by
    have hn : 0 * 10 ^ (Digits.ofNat n).length + Digits.toNat (Digits.ofNat n) = n := by
      rw [Nat.zero_mul, Nat.zero_add, Digits.toNat_ofNat]
    rw [gather_of_lt (hn.symm ▸ h), hn]
  have hvalue : Numeral.value? ⟨negative, Digits.ofNat n, none, none⟩ =
      some (ofSignificand negative n h) := by
    simp only [Numeral.value?, hgather, true_and, h, dite_true]
  rw [unsigned?, wholeDigits?_ofNat]
  show (Numeral.value? ⟨negative, Digits.ofNat n, none, none⟩).bind (fun j => some (j, [])) = _
  rw [hvalue]
  rfl

/-- **The reader of numbers gives every integer back from its numeral.** -/
theorem number?_ofInt (n : Whole64) : number? (Digits.ofInt n.1) = some (.whole n, []) := by
  obtain ⟨n, hlow, hhigh⟩ := n
  show number? (Digits.ofInt n) = _
  rw [Digits.ofInt]
  split
  · next hn =>
    show unsigned? true (Digits.ofNat n.natAbs) = _
    rw [unsigned?_ofNat true (by omega), ofSignificand, dif_pos rfl, dif_pos (by omega)]
    congr
    omega
  · next hn =>
    obtain ⟨d, ds, hds, hd⟩ := Digits.exists_ofNat n.natAbs
    have hminus : d ≠ '-' := Digits.ne_of_isDigit hd (by decide)
    rw [hds, number?_of_ne hminus, ← hds, unsigned?_ofNat false (by omega), ofSignificand,
      dif_neg Bool.false_ne_true]
    congr
    omega

/-! ## Scalars -/

/-- A text that is read as a number as a whole spells that number. -/
theorem spells_of_number? {cs : List Char} {j : Json} (h : number? cs = some (j, [])) :
    Spells j cs := by
  obtain ⟨t, ht, hread, c, rest, rfl, hc⟩ := exists_number h
  obtain rfl : cs = c :: rest := by rw [ht, List.append_nil]
  refine .scalar (hc.elim (fun h => .inr (.inr (.inr (.inr (.inl h)))))
    fun h => .inr (.inr (.inr (.inr (.inr h))))) fun cs hcs => ?_
  have := hread cs hcs
  rw [List.cons_append] at this
  rw [List.cons_append, scalar?_of_number hc, this]

theorem printable_null : Printable .null :=
  .scalar (.scalar (.inl rfl) fun _ _ => rfl)

theorem printable_whole (n : Whole64) : Printable (.whole n) :=
  .scalar (spells_of_number? (number?_ofInt n))

/-! ## Doubles -/

theorem digits_of_wholeDigits? {cs ds : List Char} (h : wholeDigits? cs = some (ds, [])) :
    ∀ c ∈ cs, Digits.isDigit c = true := by
  unfold wholeDigits? at h
  generalize hspan : digitSpan cs = span at h
  obtain ⟨ds', r⟩ := span
  obtain ⟨rfl, hd, -⟩ := digitSpan_spec hspan
  dsimp only at h
  split at h
  · cases h
  · obtain ⟨-, rfl⟩ := Prod.mk.inj (Option.some.inj h)
    rwa [List.append_nil]

theorem eq_of_fraction?_none {cs r : List Char} (h : fraction? cs = some (none, r)) : r = cs := by
  unfold fraction? at h
  split at h
  · dsimp only at h
    split at h <;> cases h
  · exact (Prod.mk.inj (Option.some.inj h)).2.symm

theorem eq_of_exponent?_none {cs r : List Char} (h : exponent? cs = some (none, r)) : r = cs := by
  unfold exponent? at h
  split at h
  · split at h
    · dsimp only at h
      split at h <;> cases h
    · exact (Prod.mk.inj (Option.some.inj h)).2.symm
  · exact (Prod.mk.inj (Option.some.inj h)).2.symm

/-- Only a numeral without fraction and exponent is that of an integer. -/
theorem marks_of_value?_whole {numeral : Numeral} {n : Whole64}
    (h : numeral.value? = some (.whole n)) : numeral.fraction = none ∧ numeral.exponent = none := by
  unfold Numeral.value? at h
  dsimp only at h
  split at h
  · next hmarks => exact ⟨hmarks.1, hmarks.2.1⟩
  · obtain ⟨x, -, hx⟩ := Option.map_eq_some_iff.1 h
    cases hx

/-- What is read as an integer as a whole consists of digits and a sign. -/
theorem digits_of_number?_whole {cs : List Char} {n : Whole64}
    (h : number? cs = some (.whole n, [])) : ∀ c ∈ cs, c = '-' ∨ Digits.isDigit c = true := by
  have hunsigned {negative : Bool} {cs : List Char}
      (h : unsigned? negative cs = some (.whole n, [])) : ∀ c ∈ cs, Digits.isDigit c = true := by
    unfold unsigned? at h
    obtain ⟨⟨ds, cs₁⟩, hds, h⟩ := Option.bind_eq_some_iff.1 h
    obtain ⟨⟨f, cs₂⟩, hf, h⟩ := Option.bind_eq_some_iff.1 h
    obtain ⟨⟨e, cs₃⟩, he, h⟩ := Option.bind_eq_some_iff.1 h
    obtain ⟨value, hvalue, h⟩ := Option.bind_eq_some_iff.1 h
    obtain ⟨rfl, rfl⟩ := Prod.mk.inj (Option.some.inj h)
    obtain ⟨rfl, rfl⟩ := marks_of_value?_whole hvalue
    obtain rfl := eq_of_exponent?_none he
    obtain rfl := eq_of_fraction?_none hf
    exact digits_of_wholeDigits? hds
  unfold number? at h
  split at h
  · exact List.forall_mem_cons.2 ⟨.inl rfl, fun c hc => .inr (hunsigned h c hc)⟩
  · exact fun c hc => .inr (hunsigned h c hc)

/-- The number that a text spells as a whole, as a double. -/
def spelledDouble? (cs : List Char) : Option Double :=
  match number? cs with
  | some (.real x, []) => some x
  | some (.whole n, []) => some (.ofInt binary64 n.1)
  | _ => none

/-- The reader of numbers gives the value of a double back from its numeral, be it as an integer. -/
def GivenBack (x : Double) : Prop :=
  spelledDouble? (x.numeral .compact) = some x

/-- If the value of a double is given back then as a double, also where it is a whole number. -/
theorem number?_of_givenBack {x : Double} (hfinite : x.isFinite = true) (h : GivenBack x) :
    number? (x.numeral .compact) = some (.real x, []) := by
  rw [GivenBack, spelledDouble?] at h
  split at h
  · next y hy =>
    obtain rfl := Option.some.inj h
    exact hy
  · next n hn =>
    exact absurd rfl (Floating.numeral_ne_of_digits hfinite (digits_of_number?_whole hn))
  · cases h

theorem printable_real {x : Double} (hfinite : x.isFinite = true) (h : GivenBack x) :
    Printable (.real x) := by
  refine .scalar (spells_of_number? ?_)
  show number? (realText x) = _
  rw [realText, if_pos hfinite]
  exact number?_of_givenBack hfinite h

/-! ## Compact texts -/

theorem spellsItems_compact {items : List Json} (hne : items ≠ [])
    (h : ∀ j ∈ items, Spells j j.compactChars) :
    SpellsItems items (compactItems items ++ [']']) := by
  induction items with
  | nil => exact absurd rfl hne
  | cons j rest ih =>
    obtain ⟨hj, hrest⟩ := List.forall_mem_cons.1 h
    cases rest with
    | nil => exact .last hj (List.forall_mem_nil _)
    | cons k rest =>
      rw [compactItems, List.append_assoc, List.cons_append]
      · exact .cons hj (List.forall_mem_nil _) (ih (List.cons_ne_nil _ _) hrest)
      · exact List.cons_ne_nil _ _

theorem spellsMembers_compact {members : List (String × Json)} (hne : members ≠ [])
    (h : ∀ m ∈ members, Spells m.2 m.2.compactChars) :
    SpellsMembers members (compactMembers members ++ ['\x7d']) := by
  induction members with
  | nil => exact absurd rfl hne
  | cons m rest ih =>
    obtain ⟨name, j⟩ := m
    obtain ⟨hj, hrest⟩ := List.forall_mem_cons.1 h
    have hname := spellsName_literal (List.forall_mem_nil _) name
    cases rest with
    | nil =>
      have hlast := SpellsMembers.last hname hj (List.forall_mem_nil _)
      simpa only [compactMembers, List.append_assoc, List.cons_append, List.nil_append] using hlast
    | cons n rest =>
      have hcons := SpellsMembers.cons hname hj (List.forall_mem_nil _)
        (ih (List.cons_ne_nil _ _) hrest)
      simpa only [compactMembers, List.append_assoc, List.cons_append, List.nil_append] using hcons

/-- **The compact text of a tree spells it.** -/
theorem spells_compact {j : Json} (h : j.Printable) : Spells j j.compactChars := by
  induction h with
  | @scalar j h =>
    cases j with
    | array _ => exact absurd h.length_pos (Nat.lt_irrefl 0)
    | object _ => exact absurd h.length_pos (Nat.lt_irrefl 0)
    | _ => exact h
  | @array items h ih =>
    cases items with
    | nil => exact .noItems (List.forall_mem_nil _)
    | cons j rest => exact .array (spellsItems_compact (List.cons_ne_nil _ _) ih)
  | @object members h ih =>
    cases members with
    | nil => exact .noMembers (List.forall_mem_nil _)
    | cons m rest => exact .object (spellsMembers_compact (List.cons_ne_nil _ _) ih)

/-- **A tree is read back from its compact text.** -/
theorem read?_compact {j : Json} (h : j.Printable) (hdepth : j.depth ≤ maxDepth) :
    read? j.compact = some j := by
  have hspelled : Spelled j j.compact :=
    ⟨j.compactChars, [], by rw [compact, String.toList_ofList, List.append_nil],
      spells_compact h, List.forall_mem_nil _⟩
  exact hspelled.read?_eq hdepth

end JobRegistry.Json
