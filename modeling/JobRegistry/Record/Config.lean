import JobRegistry.Record.Basic

/-!
# Configurations

The configuration of a job: the job's service, source and provider, whether it is active, the jobs
on whose outputs it depends, and where its own outputs go. The job is the natural key; the version
covers all of the content and the order of the dependencies.
-/

namespace JobRegistry

/-- A job on whose outputs another depends. -/
structure JobDependency where
  service : String
  source : String
  deriving DecidableEq, Repr

/-- Where the outputs of a job go. -/
structure StorageTarget where
  bucket : String
  pathPrefix : String
  deriving DecidableEq, Repr

/-- The properties of a configuration. -/
structure ConfigProps where
  service : String
  source : String
  provider : String
  active : Bool
  dependsOn : List JobDependency
  storage : StorageTarget
  deriving DecidableEq, Repr

/-- The configuration of a job. -/
structure Config where
  id : RecordId
  versionId : RecordId
  service : String
  source : String
  provider : String
  active : Bool
  dependsOn : List JobDependency
  storage : StorageTarget
  createdAt : Timestamp
  updatedAt : Timestamp
  deriving DecidableEq

namespace JobDependency

/-- A dependency in a document. -/
def layout : Layout :=
  .record "JobDependency" false <|
    .cons "service" .required .text <| .cons "source" .required .text <| .nil

def fields (d : JobDependency) : layout.Carrier :=
  (d.service, d.source, ())

def ofFields : layout.Carrier → JobDependency :=
  fun (service, source, ()) => ⟨service, source⟩

/-- The canonical value of a dependency. -/
def canonical (d : JobDependency) : Canonical :=
  .ofEntries [("service", .text d.service), ("source", .text d.source)]

end JobDependency

namespace StorageTarget

/-- A target in a document. -/
def layout : Layout :=
  .record "StorageTarget" false <|
    .cons "bucket" .required .text <| .cons "prefix" .required .text <| .nil

def fields (t : StorageTarget) : layout.Carrier :=
  (t.bucket, t.pathPrefix, ())

def ofFields : layout.Carrier → StorageTarget :=
  fun (bucket, pathPrefix, ()) => ⟨bucket, pathPrefix⟩

/-- The canonical value of a target. -/
def canonical (t : StorageTarget) : Canonical :=
  .ofEntries [("bucket", .text t.bucket), ("prefix", .text t.pathPrefix)]

end StorageTarget

namespace ConfigProps

/-- The properties of a configuration as JSON. -/
def layout : Layout :=
  .record "ConfigProps" false <|
    .cons "service" .required .text <| .cons "source" .required .text <|
    .cons "provider" .required .text <| .cons "active" .default .bool <|
    .cons "dependsOn" .default (.list JobDependency.layout) <|
    .cons "storageTarget" .default StorageTarget.layout <| .nil

def fields (p : ConfigProps) : layout.Carrier :=
  (p.service, p.source, p.provider, p.active, p.dependsOn.map JobDependency.fields,
    p.storage.fields, ())

def ofFields : layout.Carrier → ConfigProps :=
  fun (service, source, provider, active, dependsOn, storage, ()) =>
    { service, source, provider, active
      dependsOn := List.map JobDependency.ofFields dependsOn
      storage := StorageTarget.ofFields storage }

end ConfigProps

namespace Config

/-- A configuration in a document. -/
def layout : Layout :=
  .record "Config" false <|
    .cons "_id" .required .recordId <| .cons "versionId" .required .recordId <|
    .cons "service" .required .text <| .cons "source" .required .text <|
    .cons "provider" .required .text <| .cons "active" .required .bool <|
    .cons "dependsOn" .required (.list JobDependency.layout) <|
    .cons "storage" .required StorageTarget.layout <|
    .cons "createdAt" .required .timestamp <| .cons "updatedAt" .required .timestamp <| .nil

def fields (c : Config) : layout.Carrier :=
  (c.id, c.versionId, c.service, c.source, c.provider, c.active,
    c.dependsOn.map JobDependency.fields, c.storage.fields, c.createdAt, c.updatedAt, ())

def ofFields : layout.Carrier → Config :=
  fun (id, versionId, service, source, provider, active, dependsOn, storage, createdAt,
      updatedAt, ()) =>
    { id, versionId, service, source, provider, active, createdAt, updatedAt
      dependsOn := List.map JobDependency.ofFields dependsOn
      storage := StorageTarget.ofFields storage }

/-- The job. -/
def naturalKey (c : Config) : Canonical :=
  .ofEntries [("service", .text c.service), ("source", .text c.source),
    ("provider", .text c.provider)]

/-- The whole content. -/
def payload (c : Config) : Canonical :=
  .ofEntries [("service", .text c.service), ("source", .text c.source),
    ("provider", .text c.provider), ("active", .bool c.active),
    ("dependsOn", .seq (c.dependsOn.map JobDependency.canonical)),
    ("storage", c.storage.canonical)]

/-- The name of a field of a dependency. -/
def dependencyField (i : Nat) (field : String) : String :=
  "dependsOn[" ++ String.ofList (Text.Digits.ofNat i) ++ "]." ++ field

/-- The checks of the dependencies, the first of which has the given index. -/
def dependencyChecks : Nat → List JobDependency → List Check
  | _, [] => []
  | i, d :: rest =>
    .required (dependencyField i "service") d.service ::
      .required (dependencyField i "source") d.source :: dependencyChecks (i + 1) rest

/-- The checks of the fields. -/
def checks (c : Config) : List Check :=
  [.required "service" c.service, .required "source" c.source, .required "provider" c.provider] ++
    dependencyChecks 0 c.dependsOn ++ [Record.timesCheck c.createdAt c.updatedAt]

end Config

instance : Record Config where
  kind := .config
  layout := Config.layout
  fields := Config.fields
  ofFields := Config.ofFields
  id := Config.id
  version? c := some c.versionId
  createdAt := Config.createdAt
  updatedAt := Config.updatedAt
  withTimes c createdAt updatedAt := { c with createdAt, updatedAt }
  withIdentity c id versionId := { c with id, versionId }
  naturalKey := Config.naturalKey
  payload := Config.payload
  checks := Config.checks

instance : Properties ConfigProps Config where
  layout := ConfigProps.layout
  fields := ConfigProps.fields
  ofFields := ConfigProps.ofFields
  draft p now :=
    { id := .null, versionId := .null, service := p.service, source := p.source
      provider := p.provider, active := p.active, dependsOn := p.dependsOn, storage := p.storage
      createdAt := now, updatedAt := now }

end JobRegistry
