import JobRegistry.Proofs.Json.Spelling
import JobRegistry.Proofs.Number.Binary
import JobRegistry.Proofs.Sorted

/-!
# Normal forms of trees that are read

All numbers in a tree that was read from a text are finite (`isFinite_of_read?`): a numeral of too
great a number is refused, and the reader divides only by numbers that are at least one. In the
normal form of a tree the members of every object are in order (`normal_sorted`), so that it is its
own normal form (`sorted_sorted`).

A text can be laid out in another way without a change to what is read. If moreover the members of
objects change places (`Reordered`), the tree that is read keeps its normal form
(`Relaid.sorted_eq`).
-/

namespace JobRegistry.Json

open Number Text

/-! ## Trees -/

/-- All numbers in the tree are finite. -/
inductive IsFinite : Json → Prop
  | null : IsFinite .null
  | bool (b : Bool) : IsFinite (.bool b)
  | whole (n : Whole64) : IsFinite (.whole n)
  | real {x : Double} (h : x.isFinite = true) : IsFinite (.real x)
  | text (s : String) : IsFinite (.text s)
  | array {items : List Json} (h : ∀ j ∈ items, IsFinite j) : IsFinite (.array items)
  | object {members : List (String × Json)} (h : ∀ m ∈ members, IsFinite m.2) :
    IsFinite (.object members)

/-- All numbers in the tree are finite, and the members of its objects are in order. -/
inductive Normal : Json → Prop
  | null : Normal .null
  | bool (b : Bool) : Normal (.bool b)
  | whole (n : Whole64) : Normal (.whole n)
  | real {x : Double} (h : x.isFinite = true) : Normal (.real x)
  | text (s : String) : Normal (.text s)
  | array {items : List Json} (h : ∀ j ∈ items, Normal j) : Normal (.array items)
  | object {members : List (String × Json)} (ordered : Sorted.Ordered members)
    (h : ∀ m ∈ members, Normal m.2) : Normal (.object members)

theorem sortedItems_eq_map (items : List Json) : sortedItems items = items.map sorted := by
  induction items with
  | nil => rfl
  | cons j rest ih => rw [sortedItems, ih, List.map_cons]

theorem sortedMembers_eq_map (members : List (String × Json)) :
    sortedMembers members = members.map fun m => (m.1, m.2.sorted) := by
  induction members with
  | nil => rfl
  | cons m rest ih => rw [sortedMembers, ih, List.map_cons]

/-- The normal form of a tree with finite numbers. -/
theorem normal_sorted {j : Json} (h : j.IsFinite) : j.sorted.Normal := by
  induction h with
  | null => exact .null
  | bool b => exact .bool b
  | whole n => exact .whole n
  | real h => exact .real h
  | text s => exact .text s
  | array h ih =>
    rw [sorted, sortedItems_eq_map]
    apply Normal.array
    intro j hj
    obtain ⟨i, hi, rfl⟩ := List.mem_map.1 hj
    exact ih i hi
  | object h ih =>
    rw [sorted, sortedMembers_eq_map]
    apply Normal.object (Sorted.ordered_ofList _)
    intro m hm
    obtain ⟨n, hn, rfl⟩ := List.mem_map.1 (Sorted.mem_ofList hm)
    exact ih n hn

/-- A tree in normal form is left as it is. -/
theorem Normal.sorted_eq {j : Json} (h : j.Normal) : j.sorted = j := by
  induction h with
  | null => rfl
  | bool b => rfl
  | whole n => rfl
  | real h => rfl
  | text s => rfl
  | array _ ih => rw [sorted, sortedItems_eq_map, (List.map_congr_left ih).trans (List.map_id' _)]
  | object ordered _ ih =>
    rw [sorted, sortedMembers_eq_map, Sorted.map_snd_eq_self ih, Sorted.ofList_of_ordered ordered]

mutual

/-- **A normal form is its own normal form.** -/
theorem sorted_sorted : (j : Json) → j.sorted.sorted = j.sorted
  | .null => rfl
  | .bool _ => rfl
  | .whole _ => rfl
  | .real _ => rfl
  | .text _ => rfl
  | .array items => by
    have hitems : (sortedItems items).map sorted = sortedItems items :=
      (List.map_congr_left (sorted_of_mem_sortedItems items)).trans (List.map_id' _)
    rw [sorted, sorted, sortedItems_eq_map (sortedItems items), hitems]
  | .object members => by
    have hmembers (l : List (String × Json)) (h : ∀ m ∈ l, m ∈ sortedMembers members) :
        sortedMembers l = l := by
      rw [sortedMembers_eq_map]
      exact Sorted.map_snd_eq_self fun m hm => sorted_of_mem_sortedMembers members m (h m hm)
    rw [sorted, sorted, hmembers _ fun _ => Sorted.mem_ofList,
      Sorted.ofList_of_ordered (Sorted.ordered_ofList _)]

theorem sorted_of_mem_sortedItems : (items : List Json) → ∀ j ∈ sortedItems items, j.sorted = j
  | [] => List.forall_mem_nil _
  | j :: rest => List.forall_mem_cons.2 ⟨sorted_sorted j, sorted_of_mem_sortedItems rest⟩

theorem sorted_of_mem_sortedMembers : (members : List (String × Json)) →
    ∀ m ∈ sortedMembers members, m.2.sorted = m.2
  | [] => List.forall_mem_nil _
  | (_, j) :: rest => List.forall_mem_cons.2 ⟨sorted_sorted j, sorted_of_mem_sortedMembers rest⟩

end

/-! ## Numerals -/

theorem gather_lt {n : Nat} (h : n < 18446744073709551616) (cs : List Char) :
    (gather n cs).1 < 18446744073709551616 := by
  induction cs generalizing n with
  | nil => exact h
  | cons c cs ih =>
    rw [gather]
    split
    · next hnext => exact ih hnext
    · exact h

theorem one_le_powerOfTen : ∀ k : ℕ, k ≤ 308 → (powerOfTen k).ratio.2 ≤ (powerOfTen k).ratio.1 := by
  decide +kernel

/-- What the reader takes from the digits of a numeral is at most `2 ^ 64`. -/
theorem atMost_ofInt {n : Nat} (h : n < 18446744073709551616) :
    (Floating.ofInt binary64 n).AtMost 64 := by
  apply Floating.atMost_ofQuotient
  rw [Int.natAbs_natCast, Nat.cast_one, div_one]
  have : (n : ℚ) ≤ (2 ^ 64 : ℕ) := by exact_mod_cast h.le
  exact_mod_cast this

theorem atMost_scaleDown {x : Double} {k : Nat} (h : x.AtMost k) (n : Nat) :
    (scaleDown x n).AtMost k := by
  have hsteps (steps : Nat) : ((List.replicate steps (powerOfTen 308)).foldl Floating.quotient
      x).AtMost k := by
    induction steps generalizing x with
    | zero => exact h
    | succ steps ih =>
      rw [List.replicate_succ, List.foldl_cons]
      exact ih (h.quotient (one_le_powerOfTen 308 le_rfl))
  unfold scaleDown
  dsimp only
  split
  · exact hsteps _
  · exact (hsteps _).quotient (one_le_powerOfTen _ (by omega))

theorem isFinite_of_scale? {n : Nat} (hn : n < 18446744073709551616) {e : ℤ} {x : Double}
    (h : scale? n e = some x) : x.isFinite = true := by
  unfold scale? at h
  dsimp only at h
  split at h
  · obtain rfl := Option.some.inj h
    exact (atMost_scaleDown (atMost_ofInt hn) _).isFinite (by decide)
  · split at h
    · obtain rfl := Option.some.inj h
      exact (atMost_ofInt hn).isFinite (by decide)
    · split at h
      · cases h
      · split at h
        · next hfinite =>
          obtain rfl := Option.some.inj h
          exact hfinite
        · cases h

theorem isFinite_ofSignificand (negative : Bool) {n : Nat} (h : n < 18446744073709551616) :
    (ofSignificand negative n h).IsFinite := by
  unfold ofSignificand
  split
  · split
    · exact .whole _
    · exact .real ((atMost_ofInt h).isFinite (by decide))
  · exact .whole _

/-- A numeral is the tree of a finite number. -/
theorem isFinite_of_value? {numeral : Numeral} {j : Json} (h : numeral.value? = some j) :
    j.IsFinite := by
  unfold Numeral.value? at h
  dsimp only at h
  have hwhole := gather_lt (show 0 < 18446744073709551616 by decide) numeral.whole
  split at h
  · obtain rfl := Option.some.inj h
    exact isFinite_ofSignificand _ _
  · obtain ⟨x, hx, rfl⟩ := Option.map_eq_some_iff.1 h
    have hfinite := isFinite_of_scale? (gather_lt hwhole _) hx
    exact .real hfinite

/-! ## Values -/

theorem isFinite_of_number? {cs rest : List Char} {j : Json} (h : number? cs = some (j, rest)) :
    j.IsFinite := by
  have hunsigned {negative : Bool} {cs : List Char} (h : unsigned? negative cs = some (j, rest)) :
      j.IsFinite := by
    unfold unsigned? at h
    obtain ⟨_, -, h⟩ := Option.bind_eq_some_iff.1 h
    obtain ⟨_, -, h⟩ := Option.bind_eq_some_iff.1 h
    obtain ⟨_, -, h⟩ := Option.bind_eq_some_iff.1 h
    obtain ⟨value, hvalue, h⟩ := Option.bind_eq_some_iff.1 h
    obtain ⟨rfl, -⟩ := Prod.mk.inj (Option.some.inj h)
    exact isFinite_of_value? hvalue
  unfold number? at h
  split at h
  · exact hunsigned h
  · exact hunsigned h

theorem isFinite_of_scalar? {cs rest : List Char} {j : Json} (h : scalar? cs = some (j, rest)) :
    j.IsFinite := by
  unfold scalar? at h
  split at h
  · obtain ⟨_, -, h⟩ := Option.map_eq_some_iff.1 h
    obtain ⟨rfl, -⟩ := Prod.mk.inj h
    exact .null
  · obtain ⟨_, -, h⟩ := Option.map_eq_some_iff.1 h
    obtain ⟨rfl, -⟩ := Prod.mk.inj h
    exact .bool _
  · obtain ⟨_, -, h⟩ := Option.map_eq_some_iff.1 h
    obtain ⟨rfl, -⟩ := Prod.mk.inj h
    exact .bool _
  · obtain ⟨_, -, h⟩ := Option.map_eq_some_iff.1 h
    obtain ⟨rfl, -⟩ := Prod.mk.inj h
    exact .text _
  · exact isFinite_of_number? h

mutual

theorem Spells.isFinite : ∀ {j : Json} {t : List Char}, Spells j t → j.IsFinite
  | _, _, .scalar _ h => isFinite_of_scalar? (h [] nofun)
  | _, _, .blank _ h => h.isFinite
  | _, _, .noItems _ => .array nofun
  | _, _, .array h => .array h.isFinite
  | _, _, .noMembers _ => .object nofun
  | _, _, .object h => .object h.isFinite

theorem SpellsItems.isFinite : ∀ {items : List Json} {t : List Char}, SpellsItems items t →
    ∀ j ∈ items, j.IsFinite
  | _, _, .last h _ => List.forall_mem_singleton.2 h.isFinite
  | _, _, .cons h _ hs => List.forall_mem_cons.2 ⟨h.isFinite, hs.isFinite⟩

theorem SpellsMembers.isFinite : ∀ {members : List (String × Json)} {t : List Char},
    SpellsMembers members t → ∀ m ∈ members, m.2.IsFinite
  | _, _, .last _ h _ => List.forall_mem_singleton.2 h.isFinite
  | _, _, .cons _ h _ hs => List.forall_mem_cons.2 ⟨h.isFinite, hs.isFinite⟩

end

/-- **A tree that was read has finite numbers only.** -/
theorem isFinite_of_read? {s : String} {j : Json} (h : read? s = some j) : j.IsFinite := by
  obtain ⟨t, b, -, hs, -⟩ := spelled_of_read? h
  exact hs.isFinite

/-! ## Another layout -/

/-- Trees that differ only in the order of the members of their objects. Members of one name keep
their order, as the last of them counts. -/
inductive Reordered : Json → Json → Prop
  | refl (j : Json) : Reordered j j
  | trans {j k l : Json} (h : Reordered j k) (h' : Reordered k l) : Reordered j l
  | swap (before : List (String × Json)) {m n : String × Json} (hne : m.1 ≠ n.1)
    (after : List (String × Json)) :
    Reordered (.object (before ++ m :: n :: after)) (.object (before ++ n :: m :: after))
  | item (before : List Json) {j k : Json} (h : Reordered j k) (after : List Json) :
    Reordered (.array (before ++ j :: after)) (.array (before ++ k :: after))
  | member (before : List (String × Json)) {name : String} {j k : Json} (h : Reordered j k)
    (after : List (String × Json)) :
    Reordered (.object (before ++ (name, j) :: after)) (.object (before ++ (name, k) :: after))

/-- The order of the members makes no difference to the normal form. -/
theorem Reordered.sorted_eq {j k : Json} (h : Reordered j k) : j.sorted = k.sorted := by
  induction h with
  | refl j => rfl
  | trans h h' ih ih' => exact ih.trans ih'
  | swap before hne after =>
    simp only [sorted, sortedMembers_eq_map, List.map_append, List.map_cons]
    rw [Sorted.ofList_swap]
    exact hne
  | item before h after ih =>
    rw [sorted, sorted, sortedItems_eq_map, sortedItems_eq_map, List.map_append, List.map_append,
      List.map_cons, List.map_cons, ih]
  | member before h after ih =>
    rw [sorted, sorted, sortedMembers_eq_map, sortedMembers_eq_map, List.map_append,
      List.map_append, List.map_cons, List.map_cons, ih]

/-- Texts that differ in no more than the blanks between tokens and the order of members. -/
def Relaid (s t : String) : Prop :=
  ∃ j k, Spelled j s ∧ Spelled k t ∧ Reordered j k

/-- **The layout of a text makes no difference to the normal form of what is read.** -/
theorem Relaid.sorted_eq {s t : String} (h : Relaid s t) {j k : Json} (hs : read? s = some j)
    (ht : read? t = some k) : j.sorted = k.sorted := by
  obtain ⟨j', k', hj, hk, hreordered⟩ := h
  obtain rfl := hj.eq_of_read? hs
  obtain rfl := hk.eq_of_read? ht
  exact hreordered.sorted_eq

end JobRegistry.Json
