import JobRegistry.Record.Basic
import JobRegistry.Vault.Operation

/-!
# Vaults

A vault keeps the records of one type in one collection of a document store. Records are validated
before anything is written, and are found by their identifiers and by filters.

`Vault.create` looks for the identifier before it inserts, and the store refuses it when another
writer was faster. `Vault.update` keeps the time of creation that is stored, and moves the time of
update to the present, or to one second past the stored one if the clock has not got that far, so
that every update is later than the one before it.
-/

namespace JobRegistry

/-- A place for the records of one type. -/
structure Vault (R : Type) where
  collection : String

namespace Vault

variable {P R : Type} [Record R]

/-- The vault over the collection that a type of records has by itself. -/
def standard (R : Type) [Record R] : Vault R :=
  ⟨(Record.kind R).collection⟩

/-- One line on a vault. -/
def describe (v : Vault R) : String :=
  "Repository \x7b collection: " ++ Text.quote v.collection ++ ", .. \x7d"

/-- The fault that a record exists. -/
def taken (v : Vault R) (id : RecordId) : VaultError :=
  .alreadyExists v.collection id.toHex

/-- The fault that a record is missing. -/
def missing (v : Vault R) (id : RecordId) : VaultError :=
  .notFound v.collection id.toHex

/-- The filter for an identifier. -/
def byId (id : RecordId) : Filter :=
  Filter.byId id.toHex

/-- The record that a stored document holds. -/
def decode (d : Document) : Except VaultError R :=
  (Record.ofDocument R d).mapError .mapping

/-- The records that stored documents hold; the first that holds none is the fault of all. -/
def decodeAll : List Document → Except VaultError (List R)
  | [] => .ok []
  | d :: rest => do
    let r ← decode d
    return r :: (← decodeAll rest)

/-- The records that a filter accepts, in the order of the store. -/
def find (v : Vault R) (filter : Filter) : Operation (List R) := do
  let docs ← Operation.ask (.find v.collection filter)
  Operation.lift id (decodeAll docs)

/-- All records, in the order of the store. -/
def findAll (v : Vault R) : Operation (List R) :=
  v.find .all

/-- The first record that a filter accepts, if there is one. -/
def findFirst (v : Vault R) (filter : Filter) : Operation (Option R) := do
  match ← Operation.ask (.findOne v.collection filter) with
  | none => return none
  | some d => return some (← Operation.lift id (decode d))

/-- The record of an identifier. -/
def findById (v : Vault R) (id : RecordId) : Operation R := do
  match ← v.findFirst (byId id) with
  | none => Operation.fail (v.missing id)
  | some r => return r

/-- Adds a record whose identifier is not stored yet. -/
def create (v : Vault R) (r : R) : Operation R := do
  Operation.lift .validation (Record.validate r)
  match ← Operation.ask (.findOne v.collection (byId (Record.id r))) with
  | some _ => Operation.fail (v.taken (Record.id r))
  | none =>
    let d ← Operation.lift .mapping (Record.toDocument r)
    let _ ← Operation.ask (.insertOne v.collection d)
    return r

/-- The time of an update at some present, after a stored time of update; none when the stored
time is the last there is. -/
def updateTime? (now stored : Timestamp) : Option Timestamp :=
  (stored.plusSeconds? 1).map now.latest

/-- The fault of a record whose stored time of update is the last there is. -/
def cannotAdvance (R : Type) [Record R] : VaultError :=
  .validation ⟨(Record.kind R).name, [⟨"updatedAt", "stored value cannot advance"⟩]⟩

/-- Puts a record in the place of the stored one with its identifier. -/
def update (v : Vault R) (now : Timestamp) (r : R) : Operation R := do
  Operation.lift .validation (Record.validate r)
  match ← v.findFirst (byId (Record.id r)) with
  | none => Operation.fail (v.missing (Record.id r))
  | some stored =>
    match updateTime? now (Record.updatedAt stored) with
    | none => Operation.fail (cannotAdvance R)
    | some updatedAt =>
      let next := Record.withTimes r (Record.createdAt stored) updatedAt
      let d ← Operation.lift .mapping (Record.toDocument next)
      match ← Operation.ask (.updateOne v.collection (byId (Record.id r)) d) with
      | true => return next
      | false => Operation.fail (v.missing (Record.id r))

/-- Drops the record of an identifier. -/
def delete (v : Vault R) (id : RecordId) : Operation Unit := do
  match ← Operation.ask (.deleteOne v.collection (byId id)) with
  | true => return ()
  | false => Operation.fail (v.missing id)

/-- Adds the record of properties at the present time. -/
def register [Properties P R] (v : Vault R) (now : Timestamp) (p : P) : Operation R := do
  let r ← Operation.lift .validation (Properties.create p now)
  v.create r

/-- Puts the record of properties in the place of the stored one. The clock is read when the record
is made and again when it is updated; it stands still in between unless told otherwise. -/
def revise [Properties P R] (v : Vault R) (made : Timestamp) (p : P)
    (now : Timestamp := made) : Operation R := do
  let r ← Operation.lift .validation (Properties.create p made)
  v.update now r

end Vault

end JobRegistry
