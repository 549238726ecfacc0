import JobRegistry.Record.Basic

/-!
# Outputs

What a job made of one input: the version of the configuration that it ran with, and which input
it processed, how the run is called and when it was. The job and the input are the natural key, and
also all of the content that a version would cover, so that outputs carry no version marker.
-/

namespace JobRegistry

/-- How an output was made. -/
structure OutputMetadata where
  inputId : RecordId
  processingId : String
  processingTimestamp : Timestamp
  deriving DecidableEq

/-- The properties of an output. -/
structure OutputProps where
  service : String
  source : String
  provider : String
  configVersionId : RecordId
  inputId : RecordId
  processingId : String
  processingTimestamp : Timestamp
  deriving DecidableEq

/-- What a job made of one input. -/
structure Output where
  id : RecordId
  configVersionId : RecordId
  service : String
  source : String
  provider : String
  metadata : OutputMetadata
  createdAt : Timestamp
  updatedAt : Timestamp
  deriving DecidableEq

namespace OutputMetadata

/-- The metadata in a document. -/
def layout : Layout :=
  .record "OutputMetadata" false <|
    .cons "inputId" .required .recordId <| .cons "processingId" .required .text <|
    .cons "processingTimestamp" .required .timestamp <| .nil

def fields (m : OutputMetadata) : layout.Carrier :=
  (m.inputId, m.processingId, m.processingTimestamp, ())

def ofFields : layout.Carrier → OutputMetadata :=
  fun (inputId, processingId, processingTimestamp, ()) =>
    ⟨inputId, processingId, processingTimestamp⟩

end OutputMetadata

namespace OutputProps

/-- The properties of an output as JSON. -/
def layout : Layout :=
  .record "OutputProps" false <|
    .cons "service" .required .text <| .cons "source" .required .text <|
    .cons "provider" .required .text <| .cons "configVersionId" .required .recordId <|
    .cons "inputId" .required .recordId <| .cons "processingId" .required .text <|
    .cons "processingTimestamp" .required .timestamp <| .nil

def fields (p : OutputProps) : layout.Carrier :=
  (p.service, p.source, p.provider, p.configVersionId, p.inputId, p.processingId,
    p.processingTimestamp, ())

def ofFields : layout.Carrier → OutputProps :=
  fun (service, source, provider, configVersionId, inputId, processingId, processingTimestamp,
      ()) =>
    { service, source, provider, configVersionId, inputId, processingId, processingTimestamp }

end OutputProps

namespace Output

/-- An output in a document. -/
def layout : Layout :=
  .record "Output" false <|
    .cons "_id" .required .recordId <| .cons "configVersionId" .required .recordId <|
    .cons "service" .required .text <| .cons "source" .required .text <|
    .cons "provider" .required .text <| .cons "metadata" .required OutputMetadata.layout <|
    .cons "createdAt" .required .timestamp <| .cons "updatedAt" .required .timestamp <| .nil

def fields (o : Output) : layout.Carrier :=
  (o.id, o.configVersionId, o.service, o.source, o.provider, o.metadata.fields, o.createdAt,
    o.updatedAt, ())

def ofFields : layout.Carrier → Output :=
  fun (id, configVersionId, service, source, provider, metadata, createdAt, updatedAt, ()) =>
    { id, configVersionId, service, source, provider, createdAt, updatedAt
      metadata := OutputMetadata.ofFields metadata }

/-- The job and the input. -/
def naturalKey (o : Output) : Canonical :=
  .ofEntries [("service", .text o.service), ("source", .text o.source),
    ("provider", .text o.provider), ("inputId", .ofId o.metadata.inputId)]

/-- The checks of the fields. -/
def checks (o : Output) : List Check :=
  [.required "service" o.service, .required "source" o.source, .required "provider" o.provider,
    .holds "configVersionId" (!o.configVersionId.isNull) Check.isRequired,
    .holds "metadata.inputId" (!o.metadata.inputId.isNull) Check.isRequired,
    .required "metadata.processingId" o.metadata.processingId,
    Record.timesCheck o.createdAt o.updatedAt]

end Output

instance : Record Output where
  kind := .output
  layout := Output.layout
  fields := Output.fields
  ofFields := Output.ofFields
  id := Output.id
  version? _ := none
  createdAt := Output.createdAt
  updatedAt := Output.updatedAt
  withTimes o createdAt updatedAt := { o with createdAt, updatedAt }
  withIdentity o id _ := { o with id }
  naturalKey := Output.naturalKey
  payload := Output.naturalKey
  checks := Output.checks

instance : Properties OutputProps Output where
  layout := OutputProps.layout
  fields := OutputProps.fields
  ofFields := OutputProps.ofFields
  draft p now :=
    { id := .null, configVersionId := p.configVersionId, service := p.service, source := p.source
      provider := p.provider
      metadata := ⟨p.inputId, p.processingId, p.processingTimestamp⟩
      createdAt := now, updatedAt := now }

end JobRegistry
