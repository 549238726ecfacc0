import JobRegistry.Record.Config
import JobRegistry.Record.Input
import JobRegistry.Record.Output
import JobRegistry.Record.Schema
import JobRegistry.Vault.Basic

/-!
# Queries

The questions that are asked of the vaults. Each comes down to a filter on fields of the stored
documents; those for one record answer the first that the filter accepts.
-/

namespace JobRegistry

namespace Filter

/-- The filter for a job. -/
def byJob (service source provider : String) : Filter :=
  ((eqText "service" service).and (eqText "source" source)).and (eqText "provider" provider)

/-- The filter for the configurations that depend on the outputs of a job. -/
def dependsOn (service source : String) : Filter :=
  .elem "dependsOn" ((eqText "service" service).and (eqText "source" source))

end Filter

namespace Vault

/-- The records of a job. -/
def byJob {R : Type} [Record R] (v : Vault R) (service source provider : String) :
    Operation (List R) :=
  v.find (Filter.byJob service source provider)

/-- The configurations of a service and a provider. -/
def configsByServiceProvider (v : Vault Config) (service provider : String) :
    Operation (List Config) :=
  v.find ((Filter.eqText "service" service).and (Filter.eqText "provider" provider))

/-- The configurations of a source and a provider. -/
def configsBySourceProvider (v : Vault Config) (source provider : String) :
    Operation (List Config) :=
  v.find ((Filter.eqText "source" source).and (Filter.eqText "provider" provider))

/-- The configuration of a job. -/
def configByJob (v : Vault Config) (service source provider : String) :
    Operation (Option Config) :=
  v.findFirst (Filter.byJob service source provider)

/-- The configuration of a job, if it is active or if it is not, as asked. -/
def configByJobActive (v : Vault Config) (service source provider : String) (active : Bool) :
    Operation (Option Config) :=
  v.findFirst ((Filter.byJob service source provider).and (.eq "active" (.bool active)))

/-- The configurations that depend on the outputs of a job. -/
def dependents (v : Vault Config) (service source : String) : Operation (List Config) :=
  v.find (Filter.dependsOn service source)

/-- The outputs that were made with a version of a configuration. -/
def outputsByConfigVersion (v : Vault Output) (versionId : RecordId) : Operation (List Output) :=
  v.find (Filter.eqText "configVersionId" versionId.toHex)

/-- The output that a job made of an input. -/
def outputByInput (v : Vault Output) (service source provider : String) (inputId : RecordId) :
    Operation (Option Output) :=
  v.findFirst ((Filter.byJob service source provider).and
    (Filter.eqText "metadata.inputId" inputId.toHex))

/-- The schema of one side of a job. -/
def schemaByType (v : Vault Schema) (service source provider : String) (side : SchemaType) :
    Operation (Option Schema) :=
  v.findFirst ((Filter.byJob service source provider).and (Filter.eqText "schemaType" side.name))

end Vault

end JobRegistry
