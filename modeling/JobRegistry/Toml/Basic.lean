import JobRegistry.Number.Binary
import JobRegistry.Number.Ranged

/-!
# TOML documents

A TOML document is a list of statements: entries, which put a value under a dotted path of keys,
and headers, which open the table that the entries after them belong to. An inline table is kept as
the entries that are written in it.

No two entries of one table may be in conflict, that is, none may have a path that the path of the
other starts with.
-/

namespace JobRegistry

open Number

/-- A value of a TOML document. -/
inductive Toml
  | text (s : String)
  | whole (n : Signed64)
  | real (x : Double)
  | bool (b : Bool)
  /-- A date, a time or both, as written. -/
  | moment (written : String)
  | array (items : List Toml)
  | table (entries : List (List String × Toml))
  deriving Inhabited

namespace Toml

/-- A statement of a document. -/
inductive Statement
  | entry (path : List String) (v : Toml)
  /-- A header of a table. -/
  | header (path : List String)
  /-- A header of a further table of an array of tables. -/
  | arrayHeader (path : List String)

/-- Whether one of two paths starts with the other. -/
def inConflict (p q : List String) : Bool :=
  p.isPrefixOf q || q.isPrefixOf p

/-- Whether no two of a list of entries are in conflict. -/
def isConsistent : List (List String × Toml) → Bool
  | [] => true
  | (path, _) :: rest => rest.all (fun e => !inConflict path e.1) && isConsistent rest

end Toml

end JobRegistry
