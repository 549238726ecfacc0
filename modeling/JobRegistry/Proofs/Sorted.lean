import JobRegistry.Sorted

/-!
# Ordered lists as maps

A list in the order of its keys is determined by what is found under each key (`Ordered.ext`). What
`Sorted.ofList` leaves under a key is the value of the last entry of that key (`lookup_ofList`), so
that two lists of entries sort to the same list exactly when they agree on the last value of every
key (`ofList_eq_iff`): neither the order of entries with different keys nor an entry that a later
one replaces makes a difference. In a list in which no key is there twice the order of the entries
makes no difference to what is found (`lookup_perm`), nor to what the list sorts to (`ofList_perm`).
-/

namespace JobRegistry.Sorted

variable {κ α : Type}

/-! ## The order of texts -/

theorem textBefore_irrefl (s : String) : textBefore s s = false :=
  decide_eq_false (String.lt_irrefl s)

theorem textBefore_asymm {s t : String} (h : textBefore s t = true) : textBefore t s = false := by
  simp only [textBefore, decide_eq_true_eq, decide_eq_false_iff_not] at *
  exact String.lt_asymm h

theorem textBefore_trans {s t u : String} (h : textBefore s t = true) (h' : textBefore t u = true) :
    textBefore s u = true := by
  simp only [textBefore, decide_eq_true_eq] at *
  exact String.lt_trans h h'

theorem eq_of_not_textBefore {s t : String} (h : ¬ textBefore s t = true)
    (h' : ¬ textBefore t s = true) : s = t := by
  simp only [textBefore, decide_eq_true_eq] at h h'
  exact String.le_antisymm (String.not_lt.1 h') (String.not_lt.1 h)

theorem ne_of_textBefore {s t : String} (h : textBefore s t = true) : s ≠ t := by
  rintro rfl
  rw [textBefore_irrefl] at h
  cases h

/-! ## Insertion -/

/-- An entry whose key comes after all others is put at the end. -/
theorem insert_of_before {before : κ → κ → Bool} {k : κ} {b : α} {l : List (κ × α)}
    (h : ∀ e ∈ l, before k e.1 = false ∧ before e.1 k = true) :
    insert before k b l = l ++ [(k, b)] := by
  induction l with
  | nil => rfl
  | cons e rest ih =>
    obtain ⟨he, hrest⟩ := List.forall_mem_cons.1 h
    rw [insert, if_neg (by simp [he.1]), if_pos he.2, ih hrest, List.cons_append]

theorem lookup_insert_self (k : String) (a : α) (l : List (String × α)) :
    (insert textBefore k a l).lookup k = some a := by
  induction l with
  | nil => simp [insert]
  | cons e rest ih =>
    obtain ⟨key, b⟩ := e
    rw [insert]
    split
    · simp
    · split
      · next h =>
        rw [List.lookup_cons, beq_false_of_ne (ne_of_textBefore h).symm]
        exact ih
      · simp

theorem lookup_insert_of_ne {k j : String} (h : j ≠ k) (a : α) (l : List (String × α)) :
    (insert textBefore k a l).lookup j = l.lookup j := by
  induction l with
  | nil => simp [insert, h]
  | cons e rest ih =>
    obtain ⟨key, b⟩ := e
    rw [insert]
    split
    · rw [List.lookup_cons, beq_false_of_ne h]
    · split
      · rw [List.lookup_cons, List.lookup_cons, ih]
      · next h₁ h₂ =>
        rw [← eq_of_not_textBefore h₁ h₂, List.lookup_cons, List.lookup_cons, beq_false_of_ne h]

/-- The entry put last is the one that stays. -/
theorem insert_insert (k : String) (a b : α) (l : List (String × α)) :
    insert textBefore k b (insert textBefore k a l) = insert textBefore k b l := by
  have hself : textBefore k k = false := textBefore_irrefl k
  induction l with
  | nil => simp [insert, hself]
  | cons e rest ih =>
    obtain ⟨key, c⟩ := e
    by_cases h₁ : textBefore k key = true
    · simp [insert, h₁, hself]
    · by_cases h₂ : textBefore key k = true
      · simp [insert, h₁, h₂, ih]
      · simp [insert, h₁, h₂, hself]

theorem mem_insert {k : String} {a : α} {l : List (String × α)} {e : String × α}
    (h : e ∈ insert textBefore k a l) : e = (k, a) ∨ e ∈ l := by
  induction l with
  | nil => exact .inl (List.mem_singleton.1 h)
  | cons f rest ih =>
    obtain ⟨key, b⟩ := f
    rw [insert] at h
    split at h
    · exact List.mem_cons.1 h
    · split at h
      · rcases List.mem_cons.1 h with rfl | h
        · exact .inr List.mem_cons_self
        · exact (ih h).imp_right (List.mem_cons_of_mem _)
      · exact (List.mem_cons.1 h).imp_right (List.mem_cons_of_mem _)

/-! ## Lists in order -/

/-- The keys of the list are in order, and none is there twice. -/
def Ordered (l : List (String × α)) : Prop :=
  l.Pairwise fun a b => textBefore a.1 b.1 = true

theorem Ordered.insert {l : List (String × α)} (h : Ordered l) (k : String) (a : α) :
    Ordered (insert textBefore k a l) := by
  induction l with
  | nil => exact List.pairwise_singleton _ _
  | cons e rest ih =>
    obtain ⟨key, b⟩ := e
    obtain ⟨hlt, hrest⟩ := List.pairwise_cons.1 h
    rw [Sorted.insert]
    split
    · next hk =>
      refine List.pairwise_cons.2 ⟨fun f hf => ?_, h⟩
      rcases List.mem_cons.1 hf with rfl | hf
      · exact hk
      · exact textBefore_trans hk (hlt f hf)
    · split
      · next hk =>
        refine List.pairwise_cons.2 ⟨fun f hf => ?_, ih hrest⟩
        rcases mem_insert hf with rfl | hf
        · exact hk
        · exact hlt f hf
      · next h₁ h₂ =>
        obtain rfl := eq_of_not_textBefore h₁ h₂
        exact List.pairwise_cons.2 ⟨hlt, hrest⟩

theorem lookup_eq_none_of_before {k : String} {l : List (String × α)}
    (h : ∀ e ∈ l, textBefore k e.1 = true) : l.lookup k = none :=
  List.lookup_eq_none_iff.2 fun e he => bne_iff_ne.2 (ne_of_textBefore (h e he))

/-- **An ordered list is determined by what is found under its keys.** -/
theorem Ordered.ext {l l' : List (String × α)} (h : Ordered l) (h' : Ordered l')
    (e : ∀ k, l.lookup k = l'.lookup k) : l = l' := by
  induction l generalizing l' with
  | nil =>
    cases l' with
    | nil => rfl
    | cons f rest' =>
      have := e f.1
      rw [List.lookup_nil, List.lookup_cons, beq_self_eq_true] at this
      cases this
  | cons f rest ih =>
    obtain ⟨k, a⟩ := f
    obtain ⟨hlt, hrest⟩ := List.pairwise_cons.1 h
    cases l' with
    | nil =>
      have := e k
      rw [List.lookup_nil, List.lookup_cons, beq_self_eq_true] at this
      cases this
    | cons f' rest' =>
      obtain ⟨k', a'⟩ := f'
      obtain ⟨hlt', hrest'⟩ := List.pairwise_cons.1 h'
      -- the lesser of the two keys would be found in one list only
      have hk : k = k' := by
        refine eq_of_not_textBefore (fun hb => ?_) (fun hb => ?_)
        · have := e k
          rw [List.lookup_cons, beq_self_eq_true, List.lookup_cons,
            beq_false_of_ne (ne_of_textBefore hb),
            lookup_eq_none_of_before fun f hf => textBefore_trans hb (hlt' f hf)] at this
          cases this
        · have := e k'
          rw [List.lookup_cons, beq_false_of_ne (ne_of_textBefore hb), List.lookup_cons,
            beq_self_eq_true,
            lookup_eq_none_of_before fun f hf => textBefore_trans hb (hlt f hf)] at this
          cases this
      subst hk
      have ha := e k
      rw [List.lookup_cons, beq_self_eq_true, List.lookup_cons, beq_self_eq_true] at ha
      rw [Option.some.inj ha, ih hrest hrest' fun j => ?_]
      by_cases hj : j = k
      · rw [hj, lookup_eq_none_of_before hlt, lookup_eq_none_of_before hlt']
      · have := e j
        rwa [List.lookup_cons, List.lookup_cons, beq_false_of_ne hj] at this

/-! ## Sorting -/

/-- The value of the last entry of a key. -/
def last? (k : String) : List (String × α) → Option α
  | [] => none
  | (key, a) :: rest => (last? k rest).or (if key = k then some a else none)

theorem ordered_ofList (l : List (String × α)) : Ordered (ofList textBefore l) := by
  have go : ∀ sorted, Ordered sorted →
      Ordered (l.foldl (fun sorted e => insert textBefore e.1 e.2 sorted) sorted) := by
    induction l with
    | nil => exact fun _ h => h
    | cons e rest ih => exact fun sorted h => ih _ (h.insert e.1 e.2)
  exact go [] .nil

theorem mem_ofList {l : List (String × α)} {e : String × α} (h : e ∈ ofList textBefore l) :
    e ∈ l := by
  have go : ∀ sorted, e ∈ l.foldl (fun sorted e => insert textBefore e.1 e.2 sorted) sorted →
      e ∈ sorted ∨ e ∈ l := by
    clear h
    induction l with
    | nil => exact fun _ h => .inl h
    | cons f rest ih =>
      intro sorted h
      rcases ih _ h with h | h
      · rcases mem_insert h with rfl | h
        · exact .inr List.mem_cons_self
        · exact .inl h
      · exact .inr (List.mem_cons_of_mem _ h)
  exact (go [] h).resolve_left List.not_mem_nil

/-- What is left under a key is the value of its last entry. -/
theorem lookup_ofList (k : String) (l : List (String × α)) :
    (ofList textBefore l).lookup k = last? k l := by
  have go : ∀ sorted, (l.foldl (fun sorted e => insert textBefore e.1 e.2 sorted) sorted).lookup k =
      (last? k l).or (sorted.lookup k) := by
    induction l with
    | nil => exact fun _ => rfl
    | cons e rest ih =>
      intro sorted
      obtain ⟨key, a⟩ := e
      rw [List.foldl_cons, ih, last?]
      by_cases hk : key = k
      · subst hk
        rw [lookup_insert_self, if_pos rfl, Option.or_assoc]
        rfl
      · rw [lookup_insert_of_ne (Ne.symm hk), if_neg hk, Option.or_none]
  rw [ofList, go, List.lookup_nil, Option.or_none]

/-- **Lists of entries sort to the same list when they agree on the last value of every key**, and
only then. -/
theorem ofList_eq_iff {l l' : List (String × α)} :
    ofList textBefore l = ofList textBefore l' ↔ ∀ k, last? k l = last? k l' := by
  refine ⟨fun h k => ?_, fun h => ?_⟩
  · rw [← lookup_ofList, h, lookup_ofList]
  · refine (ordered_ofList l).ext (ordered_ofList l') fun k => ?_
    rw [lookup_ofList, lookup_ofList, h k]

/-- The last entry of a key is the first from the end. -/
theorem last?_eq_lookup_reverse (k : String) (l : List (String × α)) :
    last? k l = l.reverse.lookup k := by
  induction l with
  | nil => rfl
  | cons e rest ih =>
    rw [last?, ih, List.reverse_cons, List.lookup_append, List.lookup_cons, List.lookup_nil]
    by_cases h : e.1 = k
    · rw [if_pos h, h, beq_self_eq_true]
    · rw [if_neg h, beq_false_of_ne (Ne.symm h)]

theorem last?_append (k : String) (l l' : List (String × α)) :
    last? k (l ++ l') = (last? k l').or (last? k l) := by
  simp only [last?_eq_lookup_reverse, List.reverse_append, List.lookup_append]

/-- The order of two entries with different keys makes no difference. -/
theorem ofList_swap (front : List (String × α)) {e f : String × α} (hne : e.1 ≠ f.1)
    (back : List (String × α)) :
    ofList textBefore (front ++ e :: f :: back) = ofList textBefore (front ++ f :: e :: back) := by
  rw [ofList_eq_iff]
  intro k
  rw [last?_append, last?_append]
  congr 1
  obtain ⟨i, a⟩ := e
  obtain ⟨j, b⟩ := f
  rw [last?, last?, last?, last?, Option.or_assoc, Option.or_assoc]
  congr 1
  by_cases hi : i = k
  · have hj : j ≠ k := fun hj => hne (hi.trans hj.symm)
    rw [if_pos hi, if_neg hj, Option.none_or, Option.or_none]
  · rw [if_neg hi, Option.or_none, Option.none_or]

/-- A list in order sorts to itself. -/
theorem ofList_of_ordered {l : List (String × α)} (h : Ordered l) : ofList textBefore l = l := by
  have go : ∀ front, (∀ e ∈ l, ∀ f ∈ front, textBefore f.1 e.1 = true) →
      l.foldl (fun sorted e => insert textBefore e.1 e.2 sorted) front = front ++ l := by
    induction l with
    | nil => exact fun front _ => (List.append_nil front).symm
    | cons e rest ih =>
      obtain ⟨hlt, hrest⟩ := List.pairwise_cons.1 h
      intro front hf
      obtain ⟨he, hf⟩ := List.forall_mem_cons.1 hf
      rw [List.foldl_cons, insert_of_before fun f h => ⟨textBefore_asymm (he f h), he f h⟩,
        ih hrest (front ++ [e]) fun g hg f hmem => ?_, List.append_assoc]
      · rfl
      · rcases List.mem_append.1 hmem with hmem | hmem
        · exact hf g hg f hmem
        · rw [List.mem_singleton.1 hmem]
          exact hlt g hg
  exact go [] nofun

/-! ## Keys that are given -/

theorem last?_eq_none {k : String} {l : List (String × α)} (h : k ∉ l.map Prod.fst) :
    last? k l = none := by
  induction l with
  | nil => rfl
  | cons e rest ih =>
    obtain ⟨key, a⟩ := e
    rw [List.map_cons, List.mem_cons, not_or] at h
    rw [last?, ih h.2, if_neg (Ne.symm h.1)]
    rfl

/-- With the same keys, none of them twice, only the values decide what a list sorts to. -/
theorem ofList_zip_inj {keys : List String} (hk : keys.Nodup) {vs ws : List α}
    (hv : vs.length = keys.length) (hw : ws.length = keys.length) :
    ofList textBefore (keys.zip vs) = ofList textBefore (keys.zip ws) ↔ vs = ws := by
  refine ⟨fun h => ?_, fun h => by rw [h]⟩
  rw [ofList_eq_iff] at h
  induction keys generalizing vs ws with
  | nil => rw [List.length_eq_zero_iff.1 hv, List.length_eq_zero_iff.1 hw]
  | cons k keys ih =>
    obtain ⟨hmem, hk⟩ := List.nodup_cons.1 hk
    obtain ⟨v, vs, rfl⟩ := List.exists_cons_of_length_eq_add_one hv
    obtain ⟨w, ws, rfl⟩ := List.exists_cons_of_length_eq_add_one hw
    have hnone (us : List α) : last? k (keys.zip us) = none :=
      last?_eq_none fun h => by
        obtain ⟨⟨k', u⟩, he, rfl⟩ := List.mem_map.1 h
        exact hmem (List.of_mem_zip he).1
    have head := h k
    simp only [List.zip_cons_cons, last?, hnone, if_true, Option.none_or] at head
    rw [Option.some.inj head, ih hk (Nat.succ.inj hv) (Nat.succ.inj hw) fun j => ?_]
    by_cases hj : k = j
    · rw [← hj, hnone, hnone]
    · have := h j
      simpa only [List.zip_cons_cons, last?, if_neg hj, Option.or_none] using this

/-! ## Keys that are apart -/

section

variable {β : Type}

theorem lookup_map_snd (f : α → β) (k : String) (l : List (String × α)) :
    (l.map fun e => (e.1, f e.2)).lookup k = (l.lookup k).map f := by
  induction l with
  | nil => rfl
  | cons e rest ih =>
    rw [List.map_cons, List.lookup_cons, List.lookup_cons, ih]
    cases k == e.1 <;> rfl

theorem map_snd_eq_self {f : α → α} {l : List (String × α)} (h : ∀ e ∈ l, f e.2 = e.2) :
    l.map (fun e => (e.1, f e.2)) = l := by
  refine (List.map_congr_left fun e he => ?_).trans (List.map_id' l)
  rw [h e he]

/-- Without repeated keys, an entry is found under its key. -/
theorem lookup_eq_some_iff_mem {l : List (String × α)} (h : (l.map Prod.fst).Nodup) {k : String}
    {a : α} : l.lookup k = some a ↔ (k, a) ∈ l := by
  induction l with
  | nil => exact iff_of_false nofun nofun
  | cons e rest ih =>
    obtain ⟨key, b⟩ := e
    obtain ⟨hkey, hrest⟩ := List.nodup_cons.1 h
    rw [List.lookup_cons, List.mem_cons, Prod.mk.injEq]
    by_cases heq : k = key
    · subst heq
      have hnot : (k, a) ∉ rest := fun hmem => hkey (List.mem_map.2 ⟨_, hmem, rfl⟩)
      rw [beq_self_eq_true, Option.some_inj, or_iff_left hnot, eq_comm, and_iff_right rfl]
    · rw [beq_false_of_ne heq, or_iff_right fun h => heq h.1]
      exact ih hrest

/-- Without repeated keys, the order of the entries makes no difference to what is found. -/
theorem lookup_perm {l l' : List (String × α)} (h : (l.map Prod.fst).Nodup) (hp : l.Perm l')
    (k : String) : l.lookup k = l'.lookup k := by
  have h' : (l'.map Prod.fst).Nodup := (hp.map _).nodup_iff.1 h
  apply Option.ext
  intro a
  rw [lookup_eq_some_iff_mem h, lookup_eq_some_iff_mem h', hp.mem_iff]

/-- In a list without repeated keys the last entry of a key is its first. -/
theorem last?_eq_lookup {l : List (String × α)} (h : (l.map Prod.fst).Nodup) (k : String) :
    last? k l = l.lookup k := by
  rw [last?_eq_lookup_reverse]
  exact (lookup_perm h (List.reverse_perm l).symm k).symm

/-- The order of entries with different keys makes no difference to what a list sorts to. -/
theorem ofList_perm {l l' : List (String × α)} (h : (l.map Prod.fst).Nodup) (hp : l.Perm l') :
    ofList textBefore l = ofList textBefore l' := by
  have h' : (l'.map Prod.fst).Nodup := (hp.map _).nodup_iff.1 h
  rw [ofList_eq_iff]
  intro k
  rw [last?_eq_lookup h, last?_eq_lookup h', lookup_perm h hp]

theorem mem_of_last? {k : String} {l : List (String × α)} {a : α} (h : last? k l = some a) :
    (k, a) ∈ l := by
  rw [last?_eq_lookup_reverse] at h
  obtain ⟨l₁, l₂, hl, -⟩ := List.lookup_eq_some_iff.1 h
  rw [← List.mem_reverse, hl]
  exact List.mem_append_right _ List.mem_cons_self

theorem last?_map_snd (f : α → β) (k : String) (l : List (String × α)) :
    last? k (l.map fun e => (e.1, f e.2)) = (last? k l).map f := by
  rw [last?_eq_lookup_reverse, last?_eq_lookup_reverse, ← List.map_reverse, lookup_map_snd]

theorem Ordered.nodup_keys {l : List (String × α)} (h : Ordered l) : (l.map Prod.fst).Nodup :=
  List.pairwise_map.2 (h.imp ne_of_textBefore)

end

end JobRegistry.Sorted
