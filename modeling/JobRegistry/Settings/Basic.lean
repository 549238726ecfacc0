import JobRegistry.Text.Blank

/-!
# Settings

The settings of a registry: how long one request may take, what is logged, and which collection each
of the four vaults keeps its records in. Settings are sound (`Settings.fault?`) when the time is not
zero and the names of the collections are neither blank nor shared.
-/

namespace JobRegistry

/-- The names of the collections of the vaults. -/
structure CollectionNames where
  configs : String
  outputs : String
  schemas : String
  inputs : String
  deriving DecidableEq, Repr

/-- The names that are taken unless others are given. -/
def CollectionNames.standard : CollectionNames :=
  ⟨"configs", "outputs", "schemas", "inputs"⟩

/-- The settings of a registry. -/
structure Settings where
  /-- How long the store calls of one request may take, in milliseconds. -/
  requestTimeoutMs : Nat
  logLevel : String
  collections : CollectionNames
  deriving DecidableEq, Repr

/-- What makes settings unsound. -/
inductive SettingsFault
  | zeroTimeout
  | blankCollection (vault : String)
  | sharedCollection (name : String)
  deriving DecidableEq, Repr

/-- The wording of a fault. -/
def SettingsFault.message : SettingsFault → String
  | .zeroTimeout => "request_timeout_ms must be greater than zero"
  | .blankCollection vault => "collection for " ++ vault ++ " must not be empty"
  | .sharedCollection name => "collection " ++ name ++ " is used by more than one vault"

namespace Settings

/-- The settings that hold unless others are given. -/
def standard : Settings :=
  ⟨5000, "info", .standard⟩

/-- The vaults and the names of their collections. -/
def named (c : CollectionNames) : List (String × String) :=
  [("configs", c.configs), ("outputs", c.outputs), ("schemas", c.schemas), ("inputs", c.inputs)]

/-- The first fault of the names of collections, some names being taken before. -/
def nameFault? : List String → List (String × String) → Option SettingsFault
  | _, [] => none
  | taken, (vault, name) :: rest =>
    if Text.isBlank name then some (.blankCollection vault)
    else if taken.contains name then some (.sharedCollection name)
    else nameFault? (name :: taken) rest

/-- The first fault of settings. -/
def fault? (s : Settings) : Option SettingsFault :=
  if s.requestTimeoutMs = 0 then some .zeroTimeout else nameFault? [] (named s.collections)

end Settings

end JobRegistry
