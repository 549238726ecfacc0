import JobRegistry.Registry

/-!
# Dependents among given configurations

Which of a list of configurations depend on the outputs of a job. The list is registered, entry by
entry, in a registry over an empty store, and that registry is asked; so an entry that is invalid,
or that has the job of an earlier one, is a fault. The clock is read anew for every entry.
-/

namespace JobRegistry

/-- Why a list of configurations cannot be asked. -/
inductive DependentsError
  /-- The entry for a job was refused. -/
  | refused (service source provider : String) (cause : VaultError)
  | unanswered (cause : VaultError)
  deriving DecidableEq

/-- The wording of an error. -/
def DependentsError.message : DependentsError → String
  | .refused service source provider _ =>
    "failed to register " ++ service ++ "/" ++ source ++ "/" ++ provider
  | .unanswered cause => cause.message

/-- The properties of a configuration, with the time at which it is registered. -/
structure Submission where
  now : Timestamp
  props : ConfigProps

/-- The refusal of an entry, which names its job. -/
def Submission.refused (q : Submission) (cause : VaultError) : DependentsError :=
  .refused q.props.service q.props.source q.props.provider cause

namespace Registry

/-- Registers configurations one after another. -/
def registerAll (r : Registry) : List Submission → Program (Except DependentsError Unit)
  | [] => .done (.ok ())
  | q :: rest =>
    Program.bind (r.configs.register q.now q.props) fun
      | .ok _ => registerAll r rest
      | .error e => .done (.error (q.refused e))

/-- Registers configurations and asks which of them depend on the outputs of a job. -/
def dependentsAmong (r : Registry) (given : List Submission) (service source : String) :
    Program (Except DependentsError (List Config)) :=
  (r.registerAll given).bind fun
    | .ok () => Program.map (Except.mapError .unanswered) (r.configs.dependents service source)
    | .error e => .done (.error e)

end Registry

/-- The configurations among given ones that depend on the outputs of a job. -/
def dependents (s : Settings) (given : List Submission) (service source : String) :
    Except DependentsError (List Config) :=
  (((Registry.ofSettings s).dependentsAmong given service source).run .empty).1

end JobRegistry
