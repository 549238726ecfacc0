import JobRegistry.Settings.Basic
import JobRegistry.Vault.Queries

/-!
# The registry

The four vaults over one store, each in the collection that the settings name for it. Since sound
settings give the vaults different collections, what is done to one vault does not show in another.
-/

namespace JobRegistry

/-- The four vaults. -/
structure Registry where
  configs : Vault Config
  outputs : Vault Output
  schemas : Vault Schema
  inputs : Vault Input

namespace Registry

/-- The vaults over the collections of some settings. -/
def ofSettings (s : Settings) : Registry where
  configs := ⟨s.collections.configs⟩
  outputs := ⟨s.collections.outputs⟩
  schemas := ⟨s.collections.schemas⟩
  inputs := ⟨s.collections.inputs⟩

end Registry

end JobRegistry
