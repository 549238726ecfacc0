import JobRegistry.Record.Config
import JobRegistry.Record.Input
import JobRegistry.Record.Output
import JobRegistry.Record.Schema

/-!
# Records of any kind

A record together with its kind, for those who learn the kind only when the program runs. Such a
record is built from JSON properties, or read from the JSON of a stored document, as the record type
of its kind says.
-/

namespace JobRegistry

/-- A record of any kind. -/
inductive KindedRecord
  | config (r : Config)
  | output (r : Output)
  | schema (r : Schema)
  | input (r : Input)
  deriving DecidableEq

/-- Why JSON properties make no record. -/
inductive BuildError
  | unreadable (e : DecodeError)
  | invalid (e : ValidationError)
  deriving DecidableEq

/-- The wording of an error. -/
def BuildError.message : BuildError → String
  | .unreadable e => e.propertiesMessage
  | .invalid e => e.message

namespace KindedRecord

/-- The kind of a record. -/
def kind : KindedRecord → RecordKind
  | config _ => .config
  | output _ => .output
  | schema _ => .schema
  | input _ => .input

def id : KindedRecord → RecordId
  | config r => Record.id r
  | output r => Record.id r
  | schema r => Record.id r
  | input r => Record.id r

/-- The marker of the version, for kinds that carry one. -/
def version? : KindedRecord → Option RecordId
  | config r => Record.version? r
  | output r => Record.version? r
  | schema r => Record.version? r
  | input r => Record.version? r

/-- Fails unless a record is valid. -/
def validate : KindedRecord → Except ValidationError Unit
  | config r => Record.validate r
  | output r => Record.validate r
  | schema r => Record.validate r
  | input r => Record.validate r

/-- The document of a record. -/
def toDocument : KindedRecord → Except MapperError Document
  | config r => Record.toDocument r
  | output r => Record.toDocument r
  | schema r => Record.toDocument r
  | input r => Record.toDocument r

/-- The JSON of the document of a record. -/
def toJson (r : KindedRecord) : Except MapperError Json :=
  r.toDocument.map Document.toJson

/-- The record that JSON properties of one type make at a time. -/
def buildAs (P : Type) {R : Type} [Record R] [Properties P R] (props : Json) (now : Timestamp) :
    Except BuildError R :=
  match Properties.ofJson P props with
  | .error e => .error (.unreadable e)
  | .ok p => (Properties.create p now).mapError .invalid

/-- The record of a kind that JSON properties make at a time. -/
def build (kind : RecordKind) (props : Json) (now : Timestamp) : Except BuildError KindedRecord :=
  match kind with
  | .config => (buildAs ConfigProps props now).map config
  | .output => (buildAs OutputProps props now).map output
  | .schema => (buildAs SchemaProps props now).map schema
  | .input => (buildAs InputProps props now).map input

/-- The record of a kind that a document holds, valid or not. -/
def ofDocument (kind : RecordKind) (d : Document) : Except MapperError KindedRecord :=
  match kind with
  | .config => (Record.ofDocument Config d).map config
  | .output => (Record.ofDocument Output d).map output
  | .schema => (Record.ofDocument Schema d).map schema
  | .input => (Record.ofDocument Input d).map input

/-- The record of a kind that the JSON of a document holds, valid or not. -/
def ofJson (kind : RecordKind) (j : Json) : Except MapperError KindedRecord :=
  match Document.ofJson j with
  | .ok d => ofDocument kind d
  | .error e => .error (.notARecord e.kind)

end KindedRecord

end JobRegistry
