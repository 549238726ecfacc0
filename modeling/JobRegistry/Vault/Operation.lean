import JobRegistry.Mapper.Error
import JobRegistry.Record.Check
import JobRegistry.Store.Program

/-!
# Operations on vaults

An operation is a program over a store that ends with a result or with one of the faults that a
vault reports. `Operation.ask` makes a call: a store that knows the identifier already is reported
as a record that exists, every other fault of the store as the store being unavailable. Operations
are composed as a monad in which the first fault ends all.
-/

namespace JobRegistry

/-- Why an operation on a vault fails. -/
inductive VaultError
  | validation (e : ValidationError)
  | alreadyExists (collection id : String)
  | notFound (collection id : String)
  | mapping (e : MapperError)
  | storeUnavailable (e : StoreError)
  deriving DecidableEq

namespace VaultError

/-- The wording of a fault. -/
def message : VaultError → String
  | .validation e => e.message
  | .alreadyExists collection id => "record " ++ id ++ " already exists in " ++ collection
  | .notFound collection id => "record " ++ id ++ " not found in " ++ collection
  | .mapping e => "document mapping failed: " ++ e.message
  | .storeUnavailable e => "document store unavailable: " ++ e.message

/-- The status code with which a web service reports a fault. -/
def status : VaultError → Nat
  | .validation _ => 400
  | .alreadyExists _ _ => 409
  | .notFound _ _ => 404
  | .mapping _ => 500
  | .storeUnavailable _ => 500

/-- Whether the fault is that a record is missing. -/
def isNotFound : VaultError → Bool
  | .notFound _ _ => true
  | _ => false

/-- Whether the fault is that a record exists. -/
def isAlreadyExists : VaultError → Bool
  | .alreadyExists _ _ => true
  | _ => false

/-- How a vault reports a fault of the store. -/
def ofStore : StoreError → VaultError
  | .duplicateKey collection id => .alreadyExists collection id
  | e => .storeUnavailable e

end VaultError

/-- A program that ends with a result or a fault. -/
def Operation (α : Type) : Type :=
  Program (Except VaultError α)

namespace Operation

variable {α β ε : Type}

/-- The operation that makes no call and ends with a result. -/
def pure (a : α) : Operation α :=
  Program.done (.ok a)

/-- The operation that makes no call and ends with a fault. -/
def fail (e : VaultError) : Operation α :=
  Program.done (.error e)

/-- One operation after another; a fault of the first ends both. -/
def bind (p : Operation α) (f : α → Operation β) : Operation β :=
  Program.bind p fun
    | .ok a => f a
    | .error e => fail e

instance : Monad Operation where
  pure := pure
  bind := bind

/-- The result of a step without calls, its faults reported in a given way. -/
def lift (report : ε → VaultError) : Except ε α → Operation α
  | .ok a => pure a
  | .error e => fail (report e)

/-- The answer of the store to a call. -/
def ask (c : Call) : Operation c.Reply :=
  Program.call c fun reply => Program.done (reply.mapError VaultError.ofStore)

/-- Runs an operation on a store. -/
def run (p : Operation α) (s : Store) : Except VaultError α × Store :=
  Program.run p s

end Operation

end JobRegistry
