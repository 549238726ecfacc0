import JobRegistry.Proofs.Store.OrderedMap
import JobRegistry.Proofs.Vault.Outcomes
import JobRegistry.Store.Faulty

/-!
# Operations on slow and faulty stores

A run within a deadline makes its calls one by one, and each of them waits. What was waited adds up
over the calls (`deadline_run`). As long as the sum stays within the budget, and the store hides and
loses nothing, a run is the one on the store behind it (`run_of_inTime`); where no call waits, any
budget will do (`run_of_none`). The call that runs out of time does not happen, and nor does any
after it (`store_run_of_timesOut`).

Whatever the faults, a call happens as it would without them or leaves the store as it is
(`store_perform_cases`), so that what all calls preserve holds after every run (`run_preserves`):
no fault brings two documents under one identifier (`keyed_run`). In particular a vault need not see
what is stored to refuse a record that exists (`run_create_blind`).
-/

namespace JobRegistry

/-- The number of calls that a run makes. -/
def Program.calls {α σ : Type} (answer : σ → (c : Call) → Except StoreError c.Reply × σ) :
    Program α → σ → Nat
  | .done _, _ => 0
  | .call c next, s => calls answer (next (answer s c).1) (answer s c).2 + 1

namespace Deadline

theorem wait_zero (d : Deadline) : d.wait 0 = d := rfl

theorem wait_wait (d : Deadline) (m n : Nat) : (d.wait m).wait n = d.wait (m + n) := by
  rw [wait, wait, wait, Nat.add_assoc]

end Deadline

namespace FaultyStore

variable {α : Type} {s : FaultyStore}

/-! ## One call -/

/-- The budget runs out while the next call waits. -/
def TimesOut (s : FaultyStore) : Prop :=
  s.faults.stall ≠ 0 ∧ s.deadline.budget ≤ s.deadline.waited + s.faults.stall

theorem timesOut_iff : s.TimesOut ↔
    s.faults.stall ≠ 0 ∧ (s.deadline.wait s.faults.stall).isExpired = true := by
  rw [TimesOut, Deadline.isExpired, decide_eq_true_iff]
  rfl

/-- A call that runs out of time fails and does not happen. -/
theorem perform_of_timesOut (h : s.TimesOut) (c : Call) : s.perform c =
    (.error (.deadlineExceeded (Duration.ofMillis s.deadline.budget)),
      { s with deadline := s.deadline.wait s.faults.stall }) :=
  if_pos (timesOut_iff.1 h)

/-- Any other call reaches the store. -/
theorem perform_of_inTime (h : ¬ s.TimesOut) (c : Call) : s.perform c =
    ((s.reach c).1,
      { s with store := (s.reach c).2, deadline := s.deadline.wait s.faults.stall }) :=
  if_neg (mt timesOut_iff.2 h)

/-- A call that does not wait is in time. -/
theorem perform_of_stall_eq_zero (h : s.faults.stall = 0) (c : Call) :
    s.perform c = ((s.reach c).1, { s with store := (s.reach c).2 }) := by
  rw [perform_of_inTime fun hlate => hlate.1 h, h]
  rfl

/-- Every call waits as long. -/
theorem waits_perform (s : FaultyStore) (c : Call) : (s.perform c).2.faults = s.faults ∧
    (s.perform c).2.deadline = s.deadline.wait s.faults.stall := by
  by_cases h : s.TimesOut
  · rw [perform_of_timesOut h]
    exact ⟨rfl, rfl⟩
  · rw [perform_of_inTime h]
    exact ⟨rfl, rfl⟩

/-- A store that is seen and keeps its updates is reached as it is. -/
theorem reach_of_sound (hblind : s.faults.blind = false) (hlost : s.faults.losesUpdates = false)
    (c : Call) : s.reach c = s.store.perform c := by
  cases c <;> simp [reach, hblind, hlost]

theorem reach_cases (s : FaultyStore) (c : Call) :
    (s.reach c).2 = s.store ∨ s.reach c = s.store.perform c := by
  cases c with
  | findOne c filter =>
    simp only [reach]
    split
    · exact .inl rfl
    · exact .inr rfl
  | updateOne c filter d =>
    simp only [reach]
    split
    · exact .inl rfl
    · exact .inr rfl
  | _ => exact .inr rfl

/-- A call happens as it would without faults, or leaves the store as it is. -/
theorem store_perform_cases (s : FaultyStore) (c : Call) :
    (s.perform c).2.store = s.store ∨ (s.perform c).2.store = (s.store.perform c).2 ∧
      (s.perform c).1 = (s.store.perform c).1 := by
  by_cases h : s.TimesOut
  · rw [perform_of_timesOut h]
    exact .inl rfl
  · rw [perform_of_inTime h]
    refine (s.reach_cases c).imp_right fun hreach => ?_
    rw [hreach]
    exact ⟨rfl, rfl⟩

/-! ## Runs -/

/-- **Waiting adds up** over the calls of a run. -/
theorem deadline_run (p : Program α) (s : FaultyStore) :
    (p.runWith perform s).2.faults = s.faults ∧ (p.runWith perform s).2.deadline =
      s.deadline.wait (s.faults.stall * p.calls perform s) := by
  induction p generalizing s with
  | done a => exact ⟨rfl, rfl⟩
  | call c next ih =>
    obtain ⟨hfaults, hdeadline⟩ := s.waits_perform c
    obtain ⟨ihfaults, ihdeadline⟩ := ih (s.perform c).1 (s.perform c).2
    refine ⟨ihfaults.trans hfaults, ihdeadline.trans ?_⟩
    rw [hfaults, hdeadline, Deadline.wait_wait, Program.calls, Nat.mul_add_one, Nat.add_comm]

/-- What all calls preserve holds after a run, whatever the faults. -/
theorem run_preserves {P : Store → Prop} (hP : ∀ (s : Store) (c : Call), P s → P (s.perform c).2)
    (p : Program α) (s : FaultyStore) (hs : P s.store) : P (p.runWith perform s).2.store := by
  induction p generalizing s with
  | done a => exact hs
  | call c next ih =>
    apply ih
    obtain h | ⟨h, -⟩ := s.store_perform_cases c
    · rwa [h]
    · rw [h]
      exact hP s.store c hs

/-- No fault brings two documents under one identifier. -/
theorem keyed_run (p : Program α) (s : FaultyStore) {c : String}
    (h : Store.Keyed (s.store.documents c)) :
    Store.Keyed ((p.runWith perform s).2.store.documents c) :=
  run_preserves (P := fun s => Store.Keyed (s.documents c))
    (fun _ call hs => Store.keyed_execute hs (.call call)) p s h

theorem TimesOut.perform (h : s.TimesOut) (c : Call) : (s.perform c).2.TimesOut := by
  rw [perform_of_timesOut h]
  exact ⟨h.1, Nat.le_trans h.2 (Nat.le_add_right _ _)⟩

/-- **Nothing happens once the budget has run out.** -/
theorem store_run_of_timesOut (h : s.TimesOut) (p : Program α) :
    (p.runWith perform s).2.store = s.store := by
  induction p generalizing s with
  | done a => rfl
  | call c next ih =>
    have hstore : (s.perform c).2.store = s.store := by rw [perform_of_timesOut h]
    exact (ih _ (h.perform c)).trans hstore

/-- An operation ends with the fault of a call that runs out of time. -/
theorem run_ask_of_timesOut {β : Type} (h : s.TimesOut) (c : Call) (f : c.Reply → Operation β) :
    Program.runWith perform (Operation.ask c >>= f : Operation β) s =
      (.error (.storeUnavailable (.deadlineExceeded (Duration.ofMillis s.deadline.budget))),
        { s with deadline := s.deadline.wait s.faults.stall }) := by
  refine (Operation.runWith_bind perform (Operation.ask c) _ s).trans ?_
  rw [Operation.ask, Program.runWith, perform_of_timesOut h]
  rfl

/-- **In time a run is the one on the store.** If the store is seen and keeps its updates, and the
waiting of all calls stays within the budget, a run has the result that it has on the store behind
it, and leads that store to where it would lead it. -/
theorem run_of_inTime {faults : Faults} (hblind : faults.blind = false)
    (hlost : faults.losesUpdates = false) (p : Program α) (store : Store) (deadline : Deadline)
    (htime : faults.stall = 0 ∨
      deadline.waited + faults.stall * p.calls Store.perform store < deadline.budget) :
    p.runWith perform ⟨store, faults, deadline⟩ = ((p.run store).1,
      ⟨(p.run store).2, faults, deadline.wait (faults.stall * p.calls Store.perform store)⟩) := by
  induction p generalizing store deadline with
  | done a => rfl
  | call c next ih =>
    rw [Program.calls, Nat.mul_add_one] at htime
    have hnot : ¬ TimesOut ⟨store, faults, deadline⟩ := by
      rintro ⟨hstall, hexpired⟩
      dsimp only at hstall hexpired
      omega
    have hstep : perform ⟨store, faults, deadline⟩ c = ((store.perform c).1,
        ⟨(store.perform c).2, faults, deadline.wait faults.stall⟩) := by
      rw [perform_of_inTime hnot, reach_of_sound hblind hlost]
    rw [Program.runWith, hstep, ih]
    · rw [Deadline.wait_wait, Program.calls, Nat.mul_add_one, Nat.add_comm]
      rfl
    · refine htime.imp_right fun h => ?_
      show deadline.waited + faults.stall +
        faults.stall * (next (store.perform c).1).calls Store.perform (store.perform c).2 <
          deadline.budget
      omega

/-- **A store without faults is the store behind it**, within any deadline. -/
theorem run_of_none (p : Program α) (store : Store) (deadline : Deadline) :
    p.runWith perform ⟨store, .none, deadline⟩ =
      ((p.run store).1, ⟨(p.run store).2, .none, deadline⟩) := by
  rw [run_of_inTime rfl rfl p store deadline (.inl rfl)]
  simp only [Faults.none, Nat.zero_mul, Deadline.wait_zero]

end FaultyStore

/-! ## Creation without sight -/

namespace Vault

open Store

variable {R : Type} [Record R] {v : Vault R}

/-- The calls of a creation: a search for the identifier, and an insertion if it found nothing. -/
theorem create_eq_calls {r : R} {d : Document} (hvalid : Record.validate r = .ok ())
    (hd : Record.toDocument r = .ok d) : v.create r =
      Program.call (.findOne v.collection (byId (Record.id r))) fun
        | .error e => .done (.error (.ofStore e))
        | .ok (some _) => .done (.error (v.taken (Record.id r)))
        | .ok none => .call (.insertOne v.collection d) fun reply =>
          .done ((reply.mapError .ofStore).map fun _ => r) := by
  rw [create, hvalid, hd]
  refine congrArg (Program.call _) (funext fun reply => ?_)
  rcases reply with e | (_ | _)
  · rfl
  · refine congrArg (Program.call _) (funext fun reply => ?_)
    cases reply <;> rfl
  · rfl

variable [LawfulRecord R]

/-- On a store that no one else uses, a creation comes down to its insertion: the search before it
only spares the store a refusal. -/
theorem run_create_eq_insertOne {s : Store} {r : R} {d : Document}
    (hvalid : Record.validate r = .ok ()) (hd : Record.toDocument r = .ok d) :
    (v.create r).run s = (((s.perform (.insertOne v.collection d)).1.mapError .ofStore).map
      fun _ => r, (s.perform (.insertOne v.collection d)).2) := by
  have hid := checkId_eq_ok (c := v.collection) (Record.idOf?_toDocument hd)
    (RecordId.toHex_ne_empty _)
  cases hs : s.available with
  | false =>
    rw [run_create_offline hs hvalid, perform, hs]
    rfl
  | true =>
    rw [perform, if_pos hs, answer, insertOne_eq, hid]
    dsimp only
    cases hold : holding? (s.documents v.collection) (Record.id r).toHex with
    | none =>
      rw [run_create hs hvalid hd hold, hasId_eq_false.2 hold]
      rfl
    | some old =>
      have htaken : hasId (Record.id r).toHex (s.documents v.collection) = true := by
        rw [← Bool.not_eq_false, hasId_eq_false, hold]
        exact Option.some_ne_none old
      rw [run_create_taken hs hvalid hold, if_pos htaken]
      rfl

/-- **A vault refuses a record that exists also when it does not see it.** On a store in which no
single document is found, a creation ends as on the store behind it. -/
theorem run_create_blind (r : R) {faults : Faults} (hblind : faults.blind = true)
    (hstall : faults.stall = 0) (store : Store) (deadline : Deadline) :
    Program.runWith FaultyStore.perform (v.create r) ⟨store, faults, deadline⟩ =
      (((v.create r).run store).1, ⟨((v.create r).run store).2, faults, deadline⟩) := by
  cases hvalid : Record.validate r with
  | error e =>
    rw [create, hvalid]
    rfl
  | ok u =>
    obtain ⟨d, hd⟩ := Record.exists_toDocument r
    let s : FaultyStore := ⟨store, faults, deadline⟩
    have hsearch (filter : Filter) : s.perform (.findOne v.collection filter) = (.ok none, s) := by
      rw [FaultyStore.perform_of_stall_eq_zero hstall, FaultyStore.reach, if_pos hblind]
    have hinsert : s.perform (.insertOne v.collection d) =
        ((store.perform (.insertOne v.collection d)).1,
          { s with store := (store.perform (.insertOne v.collection d)).2 }) :=
      FaultyStore.perform_of_stall_eq_zero hstall _
    rw [run_create_eq_insertOne hvalid hd, create_eq_calls hvalid hd, Program.runWith, hsearch]
    dsimp only
    rw [Program.runWith, hinsert]
    rfl

end Vault

end JobRegistry
