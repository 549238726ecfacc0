import JobRegistry.Json.Reader
import JobRegistry.Record.Basic

/-!
# Schemas

The shape of the inputs or of the outputs of a job, as the text of a JSON object. The job and the
side are the natural key. The version covers what the text means and not how it is spaced or in
which order the members of its objects stand: a text that can be read counts as the tree it
spells.
-/

namespace JobRegistry

/-- Which side of a job a schema describes. -/
inductive SchemaType
  | input
  | output
  deriving DecidableEq, Repr

/-- The properties of a schema. -/
structure SchemaProps where
  service : String
  source : String
  provider : String
  schemaType : SchemaType
  jsonSchema : String
  deriving DecidableEq, Repr

/-- The shape of the inputs or outputs of a job. -/
structure Schema where
  id : RecordId
  versionId : RecordId
  service : String
  source : String
  provider : String
  schemaType : SchemaType
  jsonSchema : String
  createdAt : Timestamp
  updatedAt : Timestamp
  deriving DecidableEq

namespace SchemaType

/-- The name of a side. -/
def name : SchemaType → String
  | .input => "input"
  | .output => "output"

/-- The side of a name. -/
def ofName? : String → Option SchemaType
  | "input" => some .input
  | "output" => some .output
  | _ => none

/-- A side in a document. -/
def layout : Layout :=
  .choice "SchemaType" <| .cons "input" .none <| .cons "output" .none <| .nil

def fields : SchemaType → layout.Carrier
  | .input => .inl ()
  | .output => .inr (.inl ())

def ofFields : layout.Carrier → SchemaType
  | .inl () => .input
  | .inr (.inl ()) => .output

end SchemaType

namespace SchemaProps

/-- The properties of a schema as JSON. -/
def layout : Layout :=
  .record "SchemaProps" false <|
    .cons "service" .required .text <| .cons "source" .required .text <|
    .cons "provider" .required .text <| .cons "type" .required SchemaType.layout <|
    .cons "jsonSchema" .required .text <| .nil

def fields (p : SchemaProps) : layout.Carrier :=
  (p.service, p.source, p.provider, p.schemaType.fields, p.jsonSchema, ())

def ofFields : layout.Carrier → SchemaProps :=
  fun (service, source, provider, schemaType, jsonSchema, ()) =>
    { service, source, provider, jsonSchema, schemaType := SchemaType.ofFields schemaType }

end SchemaProps

namespace Schema

/-- A schema in a document. -/
def layout : Layout :=
  .record "Schema" false <|
    .cons "_id" .required .recordId <| .cons "versionId" .required .recordId <|
    .cons "service" .required .text <| .cons "source" .required .text <|
    .cons "provider" .required .text <| .cons "schemaType" .required SchemaType.layout <|
    .cons "jsonSchema" .required .text <| .cons "createdAt" .required .timestamp <|
    .cons "updatedAt" .required .timestamp <| .nil

def fields (s : Schema) : layout.Carrier :=
  (s.id, s.versionId, s.service, s.source, s.provider, s.schemaType.fields, s.jsonSchema,
    s.createdAt, s.updatedAt, ())

def ofFields : layout.Carrier → Schema :=
  fun (id, versionId, service, source, provider, schemaType, jsonSchema, createdAt, updatedAt,
      ()) =>
    { id, versionId, service, source, provider, jsonSchema, createdAt, updatedAt
      schemaType := SchemaType.ofFields schemaType }

/-- The tree that the text spells, in normal form. -/
def parsed? (s : Schema) : Option Json :=
  (Json.read? s.jsonSchema).map Json.sorted

/-- The canonical value of the text: of its tree, or of the text itself when it cannot be read. -/
def body (s : Schema) : Canonical :=
  match s.parsed? with
  | some j => .ofJson j
  | none => .text s.jsonSchema

/-- Whether the text spells a JSON object. -/
def isObject (s : Schema) : Bool :=
  match s.parsed? with
  | some (.object _) => true
  | _ => false

/-- The job and the side. -/
def naturalKey (s : Schema) : Canonical :=
  .ofEntries [("service", .text s.service), ("source", .text s.source),
    ("provider", .text s.provider), ("schemaType", .text s.schemaType.name)]

/-- The whole content. -/
def payload (s : Schema) : Canonical :=
  .ofEntries [("service", .text s.service), ("source", .text s.source),
    ("provider", .text s.provider), ("schemaType", .text s.schemaType.name),
    ("jsonSchema", s.body)]

/-- The checks of the fields. -/
def checks (s : Schema) : List Check :=
  [.required "service" s.service, .required "source" s.source, .required "provider" s.provider,
    .required "jsonSchema" s.jsonSchema,
    .holds "jsonSchema" (Text.isBlank s.jsonSchema || s.isObject) "must be a JSON object",
    Record.timesCheck s.createdAt s.updatedAt]

end Schema

instance : Record Schema where
  kind := .schema
  layout := Schema.layout
  fields := Schema.fields
  ofFields := Schema.ofFields
  id := Schema.id
  version? s := some s.versionId
  createdAt := Schema.createdAt
  updatedAt := Schema.updatedAt
  withTimes s createdAt updatedAt := { s with createdAt, updatedAt }
  withIdentity s id versionId := { s with id, versionId }
  naturalKey := Schema.naturalKey
  payload := Schema.payload
  checks := Schema.checks

instance : Properties SchemaProps Schema where
  layout := SchemaProps.layout
  fields := SchemaProps.fields
  ofFields := SchemaProps.ofFields
  draft p now :=
    { id := .null, versionId := .null, service := p.service, source := p.source
      provider := p.provider, schemaType := p.schemaType, jsonSchema := p.jsonSchema
      createdAt := now, updatedAt := now }

end JobRegistry
