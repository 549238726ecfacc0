import Mathlib.Data.List.Nodup
import JobRegistry.Document.Basic
import JobRegistry.Proofs.Sorted

/-!
# Entries of documents

What is found under a key after an entry was put (`get?_put_self`, `get?_put_of_ne`) or dropped
(`get?_drop_self`, `get?_drop_of_ne`), and which keys there are and in what order: a key that is
there already stays in its place (`map_fst_put`), a new one comes to the end (`put_of_not_mem`), and
a dropped one leaves the others as they stand (`map_fst_drop`). Keys that are apart stay apart, so
that entries that are put one after another have no key twice (`nodup_ofList`).
-/

namespace JobRegistry.Entries

/-! ## Looking up -/

theorem get?_eq_none {key : String} {entries : Entries} (h : key ∉ entries.map Prod.fst) :
    get? key entries = none := by
  induction entries with
  | nil => rfl
  | cons entry rest ih =>
    simp only [List.map_cons, List.mem_cons, not_or] at h
    rw [get?, if_neg (Ne.symm h.1), ih h.2]

theorem get?_cons_self (key : String) (v : Value) (rest : Entries) :
    get? key ((key, v) :: rest) = some v :=
  if_pos rfl

theorem get?_cons_of_ne {key k : String} (h : k ≠ key) (v : Value) (rest : Entries) :
    get? key ((k, v) :: rest) = get? key rest :=
  if_neg h

theorem get?_eq_lookup (key : String) (entries : Entries) :
    get? key entries = entries.lookup key := by
  induction entries with
  | nil => rfl
  | cons e rest ih =>
    obtain ⟨k, v⟩ := e
    by_cases h : k = key
    · subst h
      rw [get?, if_pos rfl, List.lookup_cons_self]
    · rw [get?, if_neg h, ih, List.lookup_cons, beq_false_of_ne (Ne.symm h)]

theorem mem_of_get? {key : String} {entries : Entries} {v : Value}
    (h : get? key entries = some v) : (key, v) ∈ entries := by
  induction entries with
  | nil => cases h
  | cons e rest ih =>
    obtain ⟨k, v'⟩ := e
    rw [get?] at h
    split at h
    · next hk =>
      rw [hk, Option.some.inj h]
      exact List.mem_cons_self
    · exact List.mem_cons_of_mem _ (ih h)

theorem isSome_get? {key : String} {entries : Entries} :
    (get? key entries).isSome = true ↔ key ∈ entries.map Prod.fst := by
  constructor
  · intro h
    obtain ⟨v, hv⟩ := Option.isSome_iff_exists.1 h
    exact List.mem_map.2 ⟨_, mem_of_get? hv, rfl⟩
  · intro h
    induction entries with
    | nil => cases h
    | cons e rest ih =>
      rw [get?]
      split
      · rfl
      · next hk => exact ih ((List.mem_cons.1 h).resolve_left (Ne.symm hk))

/-! ## Putting -/

section

variable {key : String} {entries : Entries}

theorem put_of_not_mem (h : key ∉ entries.map Prod.fst) (v : Value) :
    put key v entries = entries ++ [(key, v)] := by
  induction entries with
  | nil => rfl
  | cons entry rest ih =>
    obtain ⟨k, old⟩ := entry
    simp only [List.map_cons, List.mem_cons, not_or] at h
    rw [put, if_neg (Ne.symm h.1), ih h.2, List.cons_append]

theorem map_fst_put (h : key ∈ entries.map Prod.fst) (v : Value) :
    (put key v entries).map Prod.fst = entries.map Prod.fst := by
  induction entries with
  | nil => cases h
  | cons e rest ih =>
    obtain ⟨k, old⟩ := e
    rw [put]
    split
    · rfl
    · next hk =>
      rw [List.map_cons, List.map_cons, ih ((List.mem_cons.1 h).resolve_left (Ne.symm hk))]

theorem mem_put {v : Value} {e : String × Value} (h : e ∈ put key v entries) :
    e = (key, v) ∨ e ∈ entries := by
  induction entries with
  | nil => exact .inl (List.mem_singleton.1 h)
  | cons e' rest ih =>
    obtain ⟨k, old⟩ := e'
    rw [put] at h
    split at h
    · next hk =>
      rw [List.mem_cons, hk] at h
      exact h.imp_right (List.mem_cons_of_mem _)
    · rcases List.mem_cons.1 h with rfl | h
      · exact .inr List.mem_cons_self
      · exact (ih h).imp_right (List.mem_cons_of_mem _)

theorem nodup_put (h : (entries.map Prod.fst).Nodup) (key : String) (v : Value) :
    ((put key v entries).map Prod.fst).Nodup := by
  by_cases hk : key ∈ entries.map Prod.fst
  · rwa [map_fst_put hk]
  · rw [put_of_not_mem hk, List.map_append]
    exact List.nodup_append.2 ⟨h, List.nodup_singleton _, fun k hmem k' hk' => by
      rw [List.mem_singleton.1 hk']
      rintro rfl
      exact hk hmem⟩

theorem get?_put_self (key : String) (v : Value) (entries : Entries) :
    get? key (put key v entries) = some v := by
  induction entries with
  | nil => exact if_pos rfl
  | cons e rest ih =>
    obtain ⟨k, old⟩ := e
    rw [put]
    split
    · next h => exact if_pos h
    · next h => rw [get?_cons_of_ne h, ih]

theorem get?_put_of_ne {k : String} (h : k ≠ key) (v : Value) (entries : Entries) :
    get? key (put k v entries) = get? key entries := by
  induction entries with
  | nil => exact if_neg h
  | cons e rest ih =>
    obtain ⟨k', old⟩ := e
    rw [put]
    split
    · next hk => rw [hk, get?_cons_of_ne h, get?_cons_of_ne h]
    · rw [get?, get?, ih]

theorem exchange_eq (key : String) (v : Value) (entries : Entries) :
    exchange key v entries = (get? key entries, put key v entries) := by
  induction entries with
  | nil => rfl
  | cons e rest ih =>
    obtain ⟨k, old⟩ := e
    rw [exchange, get?, put, ih]
    split <;> rfl

end

/-! ## Dropping -/

theorem map_fst_drop (key : String) (entries : Entries) :
    (drop key entries).map Prod.fst = (entries.map Prod.fst).erase key := by
  induction entries with
  | nil => rfl
  | cons e rest ih =>
    obtain ⟨k, old⟩ := e
    rw [drop, List.map_cons, List.erase_cons]
    by_cases hk : k = key
    · rw [if_pos hk, if_pos (beq_iff_eq.2 hk)]
    · rw [if_neg hk, if_neg (mt beq_iff_eq.1 hk), List.map_cons, ih]

theorem get?_drop_self {entries : Entries} (h : (entries.map Prod.fst).Nodup) (key : String) :
    get? key (drop key entries) = none := by
  apply get?_eq_none
  rw [map_fst_drop]
  exact h.not_mem_erase

theorem get?_drop_of_ne {key k : String} (h : k ≠ key) (entries : Entries) :
    get? key (drop k entries) = get? key entries := by
  induction entries with
  | nil => rfl
  | cons e rest ih =>
    obtain ⟨k', old⟩ := e
    rw [drop]
    split
    · next hk => rw [hk, get?_cons_of_ne h]
    · rw [get?, get?, ih]

theorem mem_drop {key : String} {entries : Entries} {e : String × Value}
    (h : e ∈ drop key entries) : e ∈ entries := by
  induction entries with
  | nil => cases h
  | cons e' rest ih =>
    obtain ⟨k, old⟩ := e'
    rw [drop] at h
    split at h
    · exact List.mem_cons_of_mem _ h
    · rcases List.mem_cons.1 h with rfl | h
      · exact List.mem_cons_self
      · exact List.mem_cons_of_mem _ (ih h)

theorem nodup_drop {entries : Entries} (h : (entries.map Prod.fst).Nodup) (key : String) :
    ((drop key entries).map Prod.fst).Nodup := by
  rw [map_fst_drop]
  exact h.erase key

theorem detach_eq (key : String) (entries : Entries) :
    detach key entries = (get? key entries, drop key entries) := by
  induction entries with
  | nil => rfl
  | cons e rest ih =>
    obtain ⟨k, old⟩ := e
    rw [detach, get?, drop, ih]
    split <;> rfl

/-! ## Putting one after another -/

/-- Of the pairs of one key the last one counts. -/
theorem get?_ofList (key : String) (pairs : List (String × Value)) :
    get? key (ofList pairs) = Sorted.last? key pairs := by
  have go : ∀ front : Entries,
      get? key (pairs.foldl (fun entries pair => put pair.1 pair.2 entries) front) =
        (Sorted.last? key pairs).or (get? key front) := by
    induction pairs with
    | nil => exact fun _ => rfl
    | cons pair rest ih =>
      intro front
      obtain ⟨k, v⟩ := pair
      rw [List.foldl_cons, ih, Sorted.last?]
      by_cases hk : k = key
      · subst hk
        rw [get?_put_self, if_pos rfl, Option.or_assoc]
        rfl
      · rw [get?_put_of_ne hk, if_neg hk, Option.or_none]
  rw [ofList, go, get?, Option.or_none]

theorem nodup_ofList (pairs : List (String × Value)) : ((ofList pairs).map Prod.fst).Nodup := by
  have go : ∀ front : Entries, (front.map Prod.fst).Nodup →
      ((pairs.foldl (fun entries pair => put pair.1 pair.2 entries) front).map Prod.fst).Nodup := by
    induction pairs with
    | nil => exact fun _ h => h
    | cons pair rest ih => exact fun front h => ih _ (nodup_put h pair.1 pair.2)
  exact go [] List.nodup_nil

theorem mem_ofList {pairs : List (String × Value)} {e : String × Value} (h : e ∈ ofList pairs) :
    e ∈ pairs := by
  have go : ∀ front : Entries,
      e ∈ pairs.foldl (fun entries pair => put pair.1 pair.2 entries) front →
        e ∈ front ∨ e ∈ pairs := by
    clear h
    induction pairs with
    | nil => exact fun _ h => .inl h
    | cons pair rest ih =>
      intro front h
      rcases ih _ h with h | h
      · rcases mem_put h with rfl | h
        · exact .inr List.mem_cons_self
        · exact .inl h
      · exact .inr (List.mem_cons_of_mem _ h)
  exact (go [] h).resolve_left List.not_mem_nil

/-- Pairs with different keys are put as they stand. -/
theorem ofList_of_nodup {pairs : List (String × Value)} (h : (pairs.map Prod.fst).Nodup) :
    ofList pairs = pairs := by
  have go : ∀ front : Entries, ((front ++ pairs).map Prod.fst).Nodup →
      pairs.foldl (fun entries pair => put pair.1 pair.2 entries) front = front ++ pairs := by
    clear h
    induction pairs with
    | nil => exact fun front _ => (List.append_nil front).symm
    | cons pair rest ih =>
      intro front h
      have hnot : pair.1 ∉ front.map Prod.fst := by
        rw [List.map_append] at h
        exact fun hmem => (List.nodup_append.1 h).2.2 _ hmem _ List.mem_cons_self rfl
      rw [List.foldl_cons, put_of_not_mem hnot, ih _ (by rwa [List.append_assoc]),
        List.append_assoc]
      rfl
  exact go [] h

end JobRegistry.Entries
