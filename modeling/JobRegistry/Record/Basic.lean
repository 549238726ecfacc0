import JobRegistry.Identity
import JobRegistry.Mapper.Decode
import JobRegistry.Mapper.Encode
import JobRegistry.Record.Check

/-!
# Records

What the four kinds of records have in common. Every record has an identifier, which is derived
from its natural key, and two timestamps; some carry a marker of their version, derived from their
whole content. The layout of a record says how it is kept in a document.

A record is valid when its own checks hold, its identifier is the one derived from its natural key,
and its version marker, if it has one, the one derived from its content. `Record.identify` is how a
new record comes to be: the checks are made first, the identifiers are derived after them.
-/

namespace JobRegistry

/-- The kinds of records. -/
inductive RecordKind
  | config
  | output
  | schema
  | input
  deriving DecidableEq, Repr

namespace RecordKind

/-- The name of a kind, which enters every identifier. -/
def name : RecordKind → String
  | .config => "config"
  | .output => "output"
  | .schema => "schema"
  | .input => "input"

/-- The collection that holds the records of a kind unless it is told otherwise. -/
def collection : RecordKind → String
  | .config => "configs"
  | .output => "outputs"
  | .schema => "schemas"
  | .input => "inputs"

/-- The kind of a name. -/
def ofName? : String → Option RecordKind
  | "config" => some .config
  | "output" => some .output
  | "schema" => some .schema
  | "input" => some .input
  | _ => none

end RecordKind

/-- A type of records. -/
class Record (R : Type) where
  kind : RecordKind
  /-- How a record is kept in a document. -/
  layout : Layout
  fields : R → layout.Carrier
  ofFields : layout.Carrier → R
  id : R → RecordId
  /-- The marker of the version, for kinds that carry one. -/
  version? : R → Option RecordId
  createdAt : R → Timestamp
  updatedAt : R → Timestamp
  withTimes : R → Timestamp → Timestamp → R
  /-- The record with another identifier and, for kinds that carry one, version marker. -/
  withIdentity : R → RecordId → RecordId → R
  naturalKey : R → Canonical
  /-- The content that makes a version. -/
  payload : R → Canonical
  /-- The checks of the fields. -/
  checks : R → List Check

/-- The JSON properties from which records of a type are made. -/
class Properties (P : Type) (R : outParam Type) where
  layout : Layout
  fields : P → layout.Carrier
  ofFields : layout.Carrier → P
  /-- The record of properties at a time, with null identifiers. -/
  draft : P → Timestamp → R

namespace Record

variable {R : Type} [Record R]

/-- The identifier that the natural key gives. -/
def derivedId (r : R) : RecordId :=
  Purpose.identity.derive (kind R).name (naturalKey r)

/-- The version marker that the content gives. -/
def derivedVersion (r : R) : RecordId :=
  Purpose.version.derive (kind R).name (payload r)

/-- The checks of the identifiers. -/
def identityChecks (r : R) : List Check :=
  .holds "_id" (!(id r).isNull && derivedId r == id r) "does not match the record's natural key" ::
    match version? r with
    | some v =>
      [.holds "versionId" (!v.isNull && derivedVersion r == v)
        "does not match the record's content"]
    | none => []

/-- Fails unless a record is valid. -/
def validate (r : R) : Except ValidationError Unit :=
  Check.run (kind R).name (checks r ++ identityChecks r)

/-- The record with its derived identifiers, provided that its checks hold. -/
def identify (r : R) : Except ValidationError R :=
  match Check.run (kind R).name (checks r) with
  | .error e => .error e
  | .ok () => .ok (withIdentity r (derivedId r) (derivedVersion r))

/-- The document of a record. -/
def toDocument (r : R) : Except MapperError Document :=
  (layout R).toDocument (fields r)

/-- The record that a document holds, valid or not. -/
def ofDocument (R : Type) [Record R] (d : Document) : Except MapperError R :=
  ((layout R).ofDocument d).map ofFields

/-- The check that a record was not updated before it was created. -/
def timesCheck (createdAt updatedAt : Timestamp) : Check :=
  .holds "updatedAt" (decide (createdAt ≤ updatedAt)) "precedes createdAt"

end Record

namespace Properties

variable {P R : Type} [Properties P R]

/-- Reads properties from a JSON tree. -/
def ofJson (P : Type) {R : Type} [Properties P R] (j : Json) : Except DecodeError P :=
  ((layout P).ofProperties j).map ofFields

/-- The JSON tree of properties, with members in the order of the fields. -/
def toJson (p : P) : Except EncodeError Json :=
  ((layout P).encode (fields p)).map Value.tree

/-- The record of properties at a time. -/
def create [Record R] (p : P) (now : Timestamp) : Except ValidationError R :=
  Record.identify (draft p now)

end Properties

end JobRegistry
