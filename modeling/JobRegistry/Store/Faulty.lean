import JobRegistry.Store.Program

/-!
# Slow and faulty stores

A store behind which calls take time, do not see documents, or lose updates, and the deadline that
bounds the calls of one operation. Waiting adds up over the calls of an operation; the call during
which the budget runs out fails and does not happen. Where no call waits, no deadline is missed,
not even one with an empty budget.
-/

namespace JobRegistry

/-- The time that the calls of an operation may take and have taken, in milliseconds. -/
structure Deadline where
  budget : Nat
  waited : Nat

namespace Deadline

/-- A deadline from now on. -/
def start (budget : Nat) : Deadline := ⟨budget, 0⟩

/-- The deadline after some waiting. -/
def wait (d : Deadline) (ms : Nat) : Deadline :=
  { d with waited := d.waited + ms }

/-- Whether no time is left. -/
def isExpired (d : Deadline) : Bool :=
  d.budget ≤ d.waited

end Deadline

/-- What is wrong with a store. -/
structure Faults where
  /-- How long every call waits, in milliseconds. -/
  stall : Nat
  /-- Single documents are not found. -/
  blind : Bool
  /-- Updates report that there was nothing to update. -/
  losesUpdates : Bool
  deriving DecidableEq, Repr

/-- A store without faults. -/
def Faults.none : Faults := ⟨0, false, false⟩

/-- A store with faults, within a deadline. -/
structure FaultyStore where
  store : Store
  faults : Faults
  deadline : Deadline

namespace FaultyStore

/-- What the store answers when it is reached. -/
def reach (s : FaultyStore) : (c : Call) → Except StoreError c.Reply × Store
  | .findOne collection filter =>
    if s.faults.blind then (.ok none, s.store) else s.store.perform (.findOne collection filter)
  | .updateOne collection filter d =>
    if s.faults.losesUpdates then (.ok false, s.store)
    else s.store.perform (.updateOne collection filter d)
  | c => s.store.perform c

/-- What the store answers to a call after waiting, and the store after it. -/
def perform (s : FaultyStore) (c : Call) : Except StoreError c.Reply × FaultyStore :=
  let deadline := s.deadline.wait s.faults.stall
  if s.faults.stall ≠ 0 ∧ deadline.isExpired then
    (.error (.deadlineExceeded (Duration.ofMillis deadline.budget)), { s with deadline })
  else
    let (reply, store) := s.reach c
    (reply, { s with store, deadline })

end FaultyStore

end JobRegistry
