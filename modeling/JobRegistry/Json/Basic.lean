import JobRegistry.Number.Binary
import JobRegistry.Number.Ranged
import JobRegistry.Sorted

/-!
# JSON trees

The trees that a JSON text spells, with the members of an object in the order in which they were
written. `Json.sorted` gives the tree its normal form, in which the members of every object stand
in the order of their names and of two members with one name only the last is left.
-/

namespace JobRegistry

open Number

/-- A JSON tree. Integers of sixty-four bits, with or without a sign, are kept exactly. -/
inductive Json
  | null
  | bool (b : Bool)
  | whole (n : Whole64)
  | real (x : Double)
  | text (s : String)
  | array (items : List Json)
  | object (members : List (String × Json))
  deriving Inhabited

namespace Json

mutual

/-- The normal form of a tree. -/
def sorted : Json → Json
  | .array items => .array (sortedItems items)
  | .object members => .object (Sorted.ofList Sorted.textBefore (sortedMembers members))
  | j => j

/-- The normal forms of the items of an array. -/
def sortedItems : List Json → List Json
  | [] => []
  | j :: rest => j.sorted :: sortedItems rest

/-- The members of an object with their values in normal form. -/
def sortedMembers : List (String × Json) → List (String × Json)
  | [] => []
  | (name, j) :: rest => (name, j.sorted) :: sortedMembers rest

end

end Json

end JobRegistry
