import JobRegistry.Proofs.Store.Documents
import JobRegistry.Vault.Operation

/-!
# Runs of programs

`Program.Ends` is a run of a program on a store that may go offline and come back between any two
calls; a run on a store as it stands is one of these (`Program.ends_run`). The lemmas `ends_bind`
to `ends_ask` take a run of an operation apart, step by step.

What the calls do is said in terms of `Store.collections`: whether the store is available does not
outlast a call.
-/

namespace JobRegistry

/-- The answer to a call does not depend on what is said about the store being available. -/
theorem Store.answer_available (s : Store) (available : Bool) (c : Call) :
    ({ s with available }.answer c).1 = (s.answer c).1 ∧
      ({ s with available }.answer c).2.collections = (s.answer c).2.collections := by
  have hdocs (c : String) : { s with available }.documents c = s.documents c := rfl
  cases c with
  | findOne c filter => exact ⟨rfl, rfl⟩
  | find c filter => exact ⟨rfl, rfl⟩
  | insertOne c d =>
    simp only [answer, insertOne_eq, hdocs]
    split
    · exact ⟨rfl, rfl⟩
    · split <;> exact ⟨rfl, rfl⟩
  | updateOne c filter d =>
    simp only [answer, updateOne, hdocs]
    split
    · exact ⟨rfl, rfl⟩
    · split
      · exact ⟨rfl, rfl⟩
      · split <;> exact ⟨rfl, rfl⟩
  | deleteOne c filter =>
    simp only [answer, deleteOne, hdocs]
    split <;> exact ⟨rfl, rfl⟩

namespace Program

variable {α β : Type}

/-- A run of a program, each call of which finds the store available or not. -/
inductive Ends : Program α → Store → α → Store → Prop
  | done (a : α) (s : Store) : Ends (.done a) s a s
  | call (available : Bool) {c : Call} {next : Except StoreError c.Reply → Program α}
    {s s' : Store} {a : α}
    (rest : Ends (next ({ s with available }.perform c).1) ({ s with available }.perform c).2
      a s') :
    Ends (.call c next) s a s'

/-- The run on a store that stays as available as it is. -/
theorem ends_run (p : Program α) (s : Store) : Ends p s (p.run s).1 (p.run s).2 := by
  induction p generalizing s with
  | done a => exact .done a s
  | call c next ih => exact .call s.available (ih _ _)

theorem ends_of_run {p : Program α} {s s' : Store} {a : α} (h : p.run s = (a, s')) :
    Ends p s a s' := by
  have := ends_run p s
  rwa [h] at this

theorem ends_done {a b : α} {s s' : Store} : Ends (.done a) s b s' ↔ b = a ∧ s' = s := by
  constructor
  · rintro ⟨⟩
    exact ⟨rfl, rfl⟩
  · rintro ⟨rfl, rfl⟩
    exact .done _ _

theorem ends_bind {p : Program α} {f : α → Program β} {s s' : Store} {b : β} :
    Ends (p.bind f) s b s' ↔ ∃ a s₁, Ends p s a s₁ ∧ Ends (f a) s₁ b s' := by
  constructor
  · intro h
    induction p generalizing s with
    | done a => exact ⟨a, s, .done a s, h⟩
    | call c next ih =>
      cases h with
      | call available rest =>
        obtain ⟨a, s₁, h₁, h₂⟩ := ih _ rest
        exact ⟨a, s₁, .call available h₁, h₂⟩
  · rintro ⟨a, s₁, h₁, h₂⟩
    induction h₁ with
    | done a s => exact h₂
    | call available rest ih => exact .call available (ih h₂)

end Program

/-! ## Operations -/

namespace Operation

open Program

variable {α β ε : Type} {s s' : Store}

theorem ends_pure {a : α} {x : Except VaultError α} :
    Ends (pure a : Operation α) s x s' ↔ x = .ok a ∧ s' = s :=
  ends_done

theorem ends_fail {e : VaultError} {x : Except VaultError α} :
    Ends (fail e) s x s' ↔ x = .error e ∧ s' = s :=
  ends_done

theorem ends_lift {report : ε → VaultError} {e : Except ε α} {x : Except VaultError α} :
    Ends (lift report e) s x s' ↔ x = e.mapError report ∧ s' = s := by
  cases e <;> exact ends_done

theorem ends_lift_ok {report : ε → VaultError} {e : Except ε α} {a : α} :
    Ends (lift report e) s (.ok a) s' ↔ e = .ok a ∧ s' = s := by
  rw [ends_lift]
  refine and_congr_left fun _ => ?_
  cases e with
  | error e => exact ⟨nofun, nofun⟩
  | ok b => constructor <;> rintro ⟨⟩ <;> rfl

/-- A run of one operation after another ends in the first or passes through both. -/
theorem ends_bind {p : Operation α} {f : α → Operation β} {x : Except VaultError β} :
    Ends (p >>= f : Operation β) s x s' ↔ (∃ e, x = .error e ∧ Ends p s (.error e) s') ∨
      ∃ a s₁, Ends p s (.ok a) s₁ ∧ Ends (f a) s₁ x s' := by
  refine Program.ends_bind.trans ⟨?_, ?_⟩
  · rintro ⟨a | a, s₁, h₁, h₂⟩
    · obtain ⟨rfl, rfl⟩ := ends_fail.1 h₂
      exact .inl ⟨a, rfl, h₁⟩
    · exact .inr ⟨a, s₁, h₁, h₂⟩
  · rintro (⟨e, rfl, h⟩ | ⟨a, s₁, h₁, h₂⟩)
    · exact ⟨_, s', h, ends_fail.2 ⟨rfl, rfl⟩⟩
    · exact ⟨_, s₁, h₁, h₂⟩

/-- A call fails because the store is offline, or is answered. -/
theorem ends_ask {c : Call} {x : Except VaultError c.Reply} (h : Ends (ask c) s x s') :
    (∃ e, x = .error e ∧ s'.collections = s.collections) ∨
      x = (s.answer c).1.mapError .ofStore ∧ s'.collections = (s.answer c).2.collections := by
  cases h with
  | call available rest =>
    cases available with
    | false =>
      obtain ⟨rfl, rfl⟩ := ends_done.1 rest
      exact .inl ⟨_, rfl, rfl⟩
    | true =>
      obtain ⟨rfl, rfl⟩ := ends_done.1 rest
      obtain ⟨h₁, h₂⟩ := s.answer_available true c
      exact .inr ⟨congrArg _ h₁, h₂⟩

end Operation

end JobRegistry
