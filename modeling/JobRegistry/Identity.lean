import JobRegistry.Blake3
import JobRegistry.Canonical

/-!
# Identities derived from content

An identifier is the hash of a text that names the purpose of the identifier, the kind of the
record and a canonical value. `hashText` is that text: the purpose and the kind are closed by
colons, so that identifiers of different purposes or kinds never hash the same text.
-/

namespace JobRegistry

/-- What an identifier is derived for. -/
inductive Purpose
  /-- To find a record by its natural key. -/
  | identity
  /-- To mark a version of a record's content. -/
  | version
  deriving DecidableEq, Repr

namespace Purpose

/-- The label that opens the hashed text. -/
def label : Purpose → String
  | .identity => "vault-id-v1"
  | .version => "vault-version-v1"

/-- The text that is hashed. -/
def hashText (purpose : Purpose) (kind : String) (value : Canonical) : String :=
  purpose.label ++ ":" ++ kind ++ ":" ++ value.render

/-- The identifier of a canonical value. -/
def derive (purpose : Purpose) (kind : String) (value : Canonical) : RecordId :=
  ⟨Blake3.digest (purpose.hashText kind value).toUTF8.toList, Blake3.length_digest _⟩

end Purpose

end JobRegistry
