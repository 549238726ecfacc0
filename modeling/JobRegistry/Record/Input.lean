import JobRegistry.Record.Basic

/-!
# Inputs

An object that a job can process: where it lies and in which format. The job and the place are the
natural key, and also all of the content that a version would cover, so that inputs carry no
version marker.
-/

namespace JobRegistry

/-- The properties of an input. -/
structure InputProps where
  service : String
  source : String
  provider : String
  objectUri : String
  format : String
  deriving DecidableEq, Repr

/-- An object that a job can process. -/
structure Input where
  id : RecordId
  service : String
  source : String
  provider : String
  objectUri : String
  format : String
  createdAt : Timestamp
  updatedAt : Timestamp
  deriving DecidableEq

namespace InputProps

/-- The properties of an input as JSON. -/
def layout : Layout :=
  .record "InputProps" false <|
    .cons "service" .required .text <| .cons "source" .required .text <|
    .cons "provider" .required .text <| .cons "uri" .required .text <|
    .cons "format" .required .text <| .nil

def fields (p : InputProps) : layout.Carrier :=
  (p.service, p.source, p.provider, p.objectUri, p.format, ())

def ofFields : layout.Carrier → InputProps :=
  fun (service, source, provider, objectUri, format, ()) =>
    { service, source, provider, objectUri, format }

end InputProps

namespace Input

/-- An input in a document. -/
def layout : Layout :=
  .record "Input" false <|
    .cons "_id" .required .recordId <| .cons "service" .required .text <|
    .cons "source" .required .text <| .cons "provider" .required .text <|
    .cons "objectUri" .required .text <| .cons "format" .required .text <|
    .cons "createdAt" .required .timestamp <| .cons "updatedAt" .required .timestamp <| .nil

def fields (i : Input) : layout.Carrier :=
  (i.id, i.service, i.source, i.provider, i.objectUri, i.format, i.createdAt, i.updatedAt, ())

def ofFields : layout.Carrier → Input :=
  fun (id, service, source, provider, objectUri, format, createdAt, updatedAt, ()) =>
    { id, service, source, provider, objectUri, format, createdAt, updatedAt }

/-- The job and the place. -/
def naturalKey (i : Input) : Canonical :=
  .ofEntries [("service", .text i.service), ("source", .text i.source),
    ("provider", .text i.provider), ("objectUri", .text i.objectUri)]

/-- The checks of the fields. -/
def checks (i : Input) : List Check :=
  [.required "service" i.service, .required "source" i.source, .required "provider" i.provider,
    .required "objectUri" i.objectUri, .required "format" i.format,
    Record.timesCheck i.createdAt i.updatedAt]

end Input

instance : Record Input where
  kind := .input
  layout := Input.layout
  fields := Input.fields
  ofFields := Input.ofFields
  id := Input.id
  version? _ := none
  createdAt := Input.createdAt
  updatedAt := Input.updatedAt
  withTimes i createdAt updatedAt := { i with createdAt, updatedAt }
  withIdentity i id _ := { i with id }
  naturalKey := Input.naturalKey
  payload := Input.naturalKey
  checks := Input.checks

instance : Properties InputProps Input where
  layout := InputProps.layout
  fields := InputProps.fields
  ofFields := InputProps.ofFields
  draft p now :=
    { id := .null, service := p.service, source := p.source, provider := p.provider
      objectUri := p.objectUri, format := p.format, createdAt := now, updatedAt := now }

end JobRegistry
