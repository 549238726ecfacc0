import JobRegistry.Text.Blank

/-!
# Checks of records

What a record has to satisfy is a list of checks, each about one field. `Check.violations` keeps of
such a list the broken ones in their order, and `Check.run` fails with them when there are any.
-/

namespace JobRegistry

/-- A broken check. -/
structure Violation where
  field : String
  reason : String
  deriving DecidableEq, Repr

/-- The broken checks of a record of some kind. -/
structure ValidationError where
  kind : String
  violations : List Violation
  deriving DecidableEq, Repr

namespace ValidationError

/-- The wording of a list of violations. -/
def message (e : ValidationError) : String :=
  "invalid " ++ e.kind ++ ": " ++
    "; ".intercalate (e.violations.map fun v => v.field ++ ": " ++ v.reason)

/-- Whether a field has a violation. -/
def concerns (e : ValidationError) (field : String) : Bool :=
  e.violations.any fun v => v.field == field

end ValidationError

/-- A check of one field of a record. -/
inductive Check
  /-- The text of the field is not blank. -/
  | required (field text : String)
  /-- A condition, with the reason to give when it fails. -/
  | holds (field : String) (ok : Bool) (reason : String)

namespace Check

/-- The reason of a blank field. -/
def isRequired : String := "is required"

/-- The violation of a check, if it is broken. -/
def violation? : Check → Option Violation
  | .required field text => if Text.isBlank text then some ⟨field, isRequired⟩ else none
  | .holds field ok reason => if ok then none else some ⟨field, reason⟩

/-- The violations of the broken checks, in order. -/
def violations (checks : List Check) : List Violation :=
  checks.filterMap violation?

/-- Fails with the violations, if there are any. -/
def run (kind : String) (checks : List Check) : Except ValidationError Unit :=
  if (violations checks).isEmpty then .ok () else .error ⟨kind, violations checks⟩

end Check

end JobRegistry
