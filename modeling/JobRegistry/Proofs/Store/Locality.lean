import JobRegistry.Proofs.Store.Runs

/-!
# Calls are local

A call is about one collection (`Call.collection`). Its answer depends on that collection and on
whether the store is available, and on nothing else (`AgreeOn.perform`), and it leaves all other
collections as they are (`perform_elsewhere`). The same holds of a program all of whose calls are
about one collection (`Uses.run_agree`, `Uses.run_elsewhere`).
-/

namespace JobRegistry

/-- The collection that a call is about. -/
def Call.collection : Call → String
  | .findOne c _ => c
  | .find c _ => c
  | .insertOne c _ => c
  | .updateOne c _ _ => c
  | .deleteOne c _ => c

namespace Store

/-- The stores have the same documents in a collection, and are both available or both not. -/
structure AgreeOn (c : String) (s s' : Store) : Prop where
  documents? : s.documents? c = s'.documents? c
  available : s.available = s'.available

variable {c : String} {s s' s'' : Store}

@[refl] theorem AgreeOn.refl (c : String) (s : Store) : AgreeOn c s s :=
  ⟨rfl, rfl⟩

theorem AgreeOn.trans (h : AgreeOn c s s') (h' : AgreeOn c s' s'') : AgreeOn c s s'' :=
  ⟨h.documents?.trans h'.documents?, h.available.trans h'.available⟩

theorem AgreeOn.documents (h : AgreeOn c s s') : s.documents c = s'.documents c := by
  rw [Store.documents, Store.documents, h.documents?]

theorem AgreeOn.switch (h : AgreeOn c s s') (available : Bool) :
    AgreeOn c { s with available } { s' with available } :=
  ⟨h.documents?, rfl⟩

theorem AgreeOn.withDocuments (h : AgreeOn c s s') (docs : List Document) :
    AgreeOn c (s.withDocuments c docs) (s'.withDocuments c docs) := by
  refine ⟨?_, h.available⟩
  rw [Store.documents?, Store.documents?, Store.withDocuments, Store.withDocuments,
    Sorted.lookup_insert_self, Sorted.lookup_insert_self]

theorem withDocuments_elsewhere {j : String} (hj : j ≠ c) (s : Store) (docs : List Document) :
    AgreeOn c (s.withDocuments j docs) s := by
  refine ⟨?_, rfl⟩
  rw [documents?, withDocuments, Sorted.lookup_insert_of_ne hj.symm, documents?]

/-! ## Calls -/

theorem AgreeOn.answer (h : AgreeOn c s s') {call : Call} (hc : call.collection = c) :
    (s.answer call).1 = (s'.answer call).1 ∧ AgreeOn c (s.answer call).2 (s'.answer call).2 := by
  have hdocs := h.documents
  cases call with
  | findOne j filter =>
    obtain rfl : j = c := hc
    simp only [Store.answer, hdocs, true_and]
    exact h
  | find j filter =>
    obtain rfl : j = c := hc
    simp only [Store.answer, hdocs, true_and]
    exact h
  | insertOne j d =>
    obtain rfl : j = c := hc
    simp only [Store.answer, insertOne_eq, hdocs]
    split
    · exact ⟨rfl, h⟩
    · split
      · exact ⟨rfl, h⟩
      · exact ⟨rfl, h.withDocuments _⟩
  | updateOne j filter d =>
    obtain rfl : j = c := hc
    simp only [Store.answer, updateOne, hdocs]
    split
    · exact ⟨rfl, h⟩
    · split
      · exact ⟨rfl, h⟩
      · split
        · exact ⟨rfl, h⟩
        · exact ⟨rfl, h.withDocuments _⟩
  | deleteOne j filter =>
    obtain rfl : j = c := hc
    simp only [Store.answer, deleteOne, hdocs]
    split
    · exact ⟨rfl, h⟩
    · exact ⟨rfl, h.withDocuments _⟩

/-- **The answer to a call depends on its collection only**, and so does what it makes of it. -/
theorem AgreeOn.perform (h : AgreeOn c s s') {call : Call} (hc : call.collection = c) :
    (s.perform call).1 = (s'.perform call).1 ∧
      AgreeOn c (s.perform call).2 (s'.perform call).2 := by
  unfold Store.perform
  rw [h.available]
  split
  · exact h.answer hc
  · exact ⟨rfl, h⟩

/-- **A call leaves all other collections as they are.** -/
theorem perform_elsewhere {call : Call} (hc : call.collection ≠ c) (s : Store) :
    AgreeOn c (s.perform call).2 s := by
  unfold Store.perform
  split
  · cases call with
    | findOne j filter => rfl
    | find j filter => rfl
    | insertOne j d =>
      obtain ⟨e, he⟩ | ⟨id, -, -, he⟩ := s.insertOne_cases j d
      · rw [answer, he]
      · rw [answer, he]
        exact withDocuments_elsewhere hc s _
    | updateOne j filter d =>
      obtain ⟨e, he⟩ | ⟨-, he⟩ | ⟨before, old, after, -, he⟩ := s.updateOne_cases j filter d
      · rw [answer, he]
      · rw [answer, he]
      · rw [answer, he]
        exact withDocuments_elsewhere hc s _
    | deleteOne j filter =>
      obtain ⟨-, he⟩ | ⟨before, old, after, -, he⟩ := s.deleteOne_cases j filter
      · rw [answer, he]
      · rw [answer, he]
        exact withDocuments_elsewhere hc s _
  · rfl

end Store

/-! ## Programs -/

namespace Program

variable {α β : Type} {c : String}

/-- All calls of the program are about the collection, whatever the answers are. -/
def Uses (c : String) : Program α → Prop
  | .done _ => True
  | .call asked next => asked.collection = c ∧ ∀ reply, Uses c (next reply)

theorem uses_bind {p : Program α} {f : α → Program β} (hp : p.Uses c) (hf : ∀ a, (f a).Uses c) :
    (p.bind f).Uses c := by
  induction p with
  | done a => exact hf a
  | call asked next ih => exact ⟨hp.1, fun reply => ih reply (hp.2 reply)⟩

theorem run_call (asked : Call) (next : Except StoreError asked.Reply → Program α) (s : Store) :
    (call asked next).run s = (next (s.perform asked).1).run (s.perform asked).2 :=
  rfl

/-- A run depends on the collection only. -/
theorem Uses.run_agree {p : Program α} (hp : p.Uses c) {s s' : Store} (h : Store.AgreeOn c s s') :
    (p.run s).1 = (p.run s').1 ∧ Store.AgreeOn c (p.run s).2 (p.run s').2 := by
  induction p generalizing s s' with
  | done a => exact ⟨rfl, h⟩
  | call asked next ih =>
    obtain ⟨hreply, hafter⟩ := h.perform hp.1
    rw [run_call, run_call, ← hreply]
    exact ih _ (hp.2 _) hafter

/-- A run leaves all other collections as they are. -/
theorem Uses.run_elsewhere {p : Program α} {j : String} (hp : p.Uses j) (hj : j ≠ c) (s : Store) :
    Store.AgreeOn c (p.run s).2 s := by
  induction p generalizing s with
  | done a => exact .refl c s
  | call asked next ih =>
    have hcall : asked.collection ≠ c := hp.1 ▸ hj
    exact (ih _ (hp.2 _) _).trans (Store.perform_elsewhere hcall s)

end Program

end JobRegistry
