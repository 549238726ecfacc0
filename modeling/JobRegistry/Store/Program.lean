import JobRegistry.Store.Basic

/-!
# Programs over a store

A computation that talks to a store is a tree: it ends with a result, or it makes a call and goes on
with the answer. Such a program can be run at one go on a store (`Program.run`), or call by call
between the calls of others (`Program.Step`), which is how operations interleave. What answers the
calls need not be a store alone; `Program.runWith` takes any state with an answer to every call.
-/

namespace JobRegistry

/-- A computation that talks to a store. -/
inductive Program (α : Type)
  | done (a : α)
  | call (c : Call) (next : Except StoreError c.Reply → Program α)

namespace Program

variable {α β σ : Type}

/-- One program after another. -/
def bind : Program α → (α → Program β) → Program β
  | .done a, f => f a
  | .call c next, f => .call c fun reply => bind (next reply) f

/-- A program with its result changed. -/
def map (f : α → β) (p : Program α) : Program β :=
  p.bind fun a => .done (f a)

/-- Runs a program, each call answered by a state that moves on. -/
def runWith (answer : σ → (c : Call) → Except StoreError c.Reply × σ) : Program α → σ → α × σ
  | .done a, s => (a, s)
  | .call c next, s => runWith answer (next (answer s c).1) (answer s c).2

/-- Runs a program on a store. -/
def run (p : Program α) (s : Store) : α × Store :=
  p.runWith Store.perform s

/-- One call of a program on a store. -/
inductive Step : Program α × Store → Program α × Store → Prop
  | call (c : Call) (next : Except StoreError c.Reply → Program α) (s : Store) :
    Step (.call c next, s) (next (s.perform c).1, (s.perform c).2)

end Program

end JobRegistry
