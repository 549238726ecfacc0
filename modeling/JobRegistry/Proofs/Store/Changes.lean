import JobRegistry.Proofs.Store.Documents

/-!
# Calls that change a store

The answer to a call tells whether the call has changed anything (`Call.changed`). Where it says
that nothing changed, the store is the one before, with all its collections (`perform_unchanged`).
Where it says that something did, the collection has one document more, another one in the place of
the first that the filter accepts, or one less (`insertOne_ok`, `updateOne_true`,
`deleteOne_true`).
-/

namespace JobRegistry

/-- Whether the answer to a call says that the call has changed its collection. -/
def Call.changed : (c : Call) → Except StoreError c.Reply → Bool
  | .insertOne _ _, .ok _ => true
  | .updateOne _ _ _, .ok replaced => replaced
  | .deleteOne _ _, .ok dropped => dropped
  | _, _ => false

namespace Store

variable {s s' : Store} {c : String} {filter : Filter} {d : Document}

theorem checkId_ok {id : String} (h : checkId c d = .ok id) : idOf? d = some id ∧ id ≠ "" := by
  unfold checkId at h
  split at h
  · next id' hid =>
    split at h
    · cases h
    · next hne =>
      obtain rfl := Except.ok.inj h
      exact ⟨hid, fun he => hne (String.isEmpty_iff.2 he)⟩
  · cases h

theorem insertOne_ok {id : String} (h : s.insertOne c d = (.ok id, s')) :
    idOf? d = some id ∧ id ≠ "" ∧ holding? (s.documents c) id = none ∧
      s' = s.withDocuments c (s.documents c ++ [d]) := by
  rw [insertOne_eq] at h
  split at h
  · cases h
  · next hid =>
    split at h
    · cases h
    · next hfresh =>
      cases h
      obtain ⟨hid, hne⟩ := checkId_ok hid
      exact ⟨hid, hne, hasId_eq_false.1 (eq_false_of_ne_true hfresh), rfl⟩

/-- The identifier of the new document is not that of any other. -/
theorem updateOne_true (h : s.updateOne c filter d = (.ok true, s')) :
    ∃ id before old after, idOf? d = some id ∧ id ≠ "" ∧
      Split (s.documents c) filter before old after ∧
      holding? before id = none ∧ holding? after id = none ∧
      s' = s.withDocuments c (before ++ d :: after) := by
  unfold updateOne at h
  split at h
  · cases h
  · next id hid =>
    split at h
    · cases h
    · next before old after hsplit =>
      split at h
      · cases h
      · next hapart =>
        cases h
        obtain ⟨hid, hne⟩ := checkId_ok hid
        rw [Bool.or_eq_true, not_or, Bool.not_eq_true, Bool.not_eq_true, hasId_eq_false,
          hasId_eq_false] at hapart
        exact ⟨id, before, old, after, hid, hne, splitAt?_eq_some hsplit, hapart.1, hapart.2, rfl⟩

theorem deleteOne_true (h : s.deleteOne c filter = (.ok true, s')) :
    ∃ before old after, Split (s.documents c) filter before old after ∧
      s' = s.withDocuments c (before ++ after) := by
  obtain ⟨-, he⟩ | ⟨before, old, after, hsplit, he⟩ := s.deleteOne_cases c filter
  · rw [he] at h
    cases h
  · rw [he] at h
    cases h
    exact ⟨before, old, after, hsplit, rfl⟩

/-- **A call that says that it has changed nothing leaves the store as it was.** -/
theorem perform_unchanged (s : Store) (call : Call) (h : call.changed (s.perform call).1 = false) :
    (s.perform call).2 = s := by
  unfold perform at h ⊢
  split at h
  · next hs =>
    rw [if_pos hs]
    cases call with
    | findOne c filter => rfl
    | find c filter => rfl
    | insertOne c d =>
      rw [answer] at h ⊢
      obtain ⟨e, he⟩ | ⟨id, -, -, he⟩ := s.insertOne_cases c d
      · rw [he]
      · rw [he] at h
        cases h
    | updateOne c filter d =>
      rw [answer] at h ⊢
      obtain ⟨e, he⟩ | ⟨-, he⟩ | ⟨before, old, after, -, he⟩ := s.updateOne_cases c filter d
      · rw [he]
      · rw [he]
      · rw [he] at h
        cases h
    | deleteOne c filter =>
      rw [answer] at h ⊢
      obtain ⟨-, he⟩ | ⟨before, old, after, -, he⟩ := s.deleteOne_cases c filter
      · rw [he]
      · rw [he] at h
        cases h
  · next hs => rw [if_neg hs]

/-- Only an available store is changed by a call. -/
theorem perform_of_changed {call : Call} (h : call.changed (s.perform call).1 = true) :
    s.available = true ∧ s.perform call = s.answer call := by
  unfold perform at h ⊢
  split
  · next hs => exact ⟨hs, rfl⟩
  · next hs =>
    rw [if_neg hs] at h
    cases call <;> cases h

end Store

end JobRegistry
