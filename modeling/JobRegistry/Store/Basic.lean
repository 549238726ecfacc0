import JobRegistry.Duration
import JobRegistry.Filter
import JobRegistry.Text.Message

/-!
# The document store

Named collections of documents, each in the order of insertion. Within a collection every document
has a text that is not empty under `_id`, and no two have the same. A store that is not available
answers every call with an error; its collections stay.

The five calls are values (`Call`), each with the type of its answer (`Call.Reply`), and
`Store.perform` is what a store answers and becomes. A call that fails, or that finds nothing to
change, leaves the store as it was.
-/

namespace JobRegistry

/-- Why a store refuses a call. -/
inductive StoreError
  | duplicateKey (collection id : String)
  | missingId (collection : String)
  | unavailable (reason : String)
  /-- The call did not end within a budget of nanoseconds. -/
  | deadlineExceeded (budget : Nat)
  deriving DecidableEq, Repr

/-- The wording of an error. -/
def StoreError.message : StoreError → String
  | .duplicateKey collection id => "duplicate key " ++ id ++ " in collection " ++ collection
  | .missingId collection => "document in collection " ++ collection ++ " has no string _id"
  | .unavailable reason => "store unavailable: " ++ reason
  | .deadlineExceeded budget =>
    "store call exceeded its deadline (" ++ Duration.shown budget ++ " budget)"

/-- The class to which an error belongs. -/
def StoreError.category : StoreError → String
  | .duplicateKey _ _ => "DuplicateKey"
  | .missingId _ => "MissingId"
  | .unavailable _ => "Unavailable"
  | .deadlineExceeded _ => "DeadlineExceeded"

/-- A call to a store. -/
inductive Call
  | findOne (collection : String) (filter : Filter)
  | find (collection : String) (filter : Filter)
  | insertOne (collection : String) (document : Document)
  | updateOne (collection : String) (filter : Filter) (document : Document)
  | deleteOne (collection : String) (filter : Filter)

/-- The answer to a call that succeeds. -/
def Call.Reply : Call → Type
  | .findOne _ _ => Option Document
  | .find _ _ => List Document
  | .insertOne _ _ => String
  | .updateOne _ _ _ => Bool
  | .deleteOne _ _ => Bool

/-- A document store. -/
structure Store where
  /-- The collections, in the order of their names. -/
  collections : List (String × List Document)
  available : Bool

namespace Store

/-- A store without collections. -/
def empty : Store := ⟨[], true⟩

/-- The documents of a collection, if there is one of that name. -/
def documents? (s : Store) (collection : String) : Option (List Document) :=
  s.collections.lookup collection

/-- The documents of a collection. -/
def documents (s : Store) (collection : String) : List Document :=
  (s.documents? collection).getD []

/-- The store with the documents of one collection replaced. -/
def withDocuments (s : Store) (collection : String) (docs : List Document) : Store :=
  { s with collections := Sorted.insert Sorted.textBefore collection docs s.collections }

/-- The names of the collections, in order. -/
def names (s : Store) : List String :=
  s.collections.map Prod.fst

/-- Whether no collection holds a document. -/
def isEmpty (s : Store) : Bool :=
  s.collections.all fun c => c.2.isEmpty

/-- The number of documents of a collection. -/
def size (s : Store) (collection : String) : Nat :=
  (s.documents collection).length

/-- Drops all collections. -/
def clear (s : Store) : Store :=
  { s with collections := [] }

/-- One line on a store: the names of its collections, and whether it answers. -/
def describe (s : Store) : String :=
  "InMemoryDocumentStore \x7b collections: [" ++ ", ".intercalate (s.names.map Text.quote) ++
    "], available: " ++ (if s.available then "true" else "false") ++ " \x7d"

/-- The text under `_id`. -/
def idOf? (d : Document) : Option String :=
  (d.get? idKey).bind Value.text?

/-- The identifier that a document must have to be kept. -/
def checkId (collection : String) (d : Document) : Except StoreError String :=
  match idOf? d with
  | some id => if id.isEmpty then .error (.missingId collection) else .ok id
  | none => .error (.missingId collection)

/-- Whether a document of a list has an identifier. -/
def hasId (id : String) (docs : List Document) : Bool :=
  docs.any fun d => idOf? d == some id

/-- Splits a list before the first document that a filter accepts. -/
def splitAt? (filter : Filter) : List Document → Option (List Document × Document × List Document)
  | [] => none
  | d :: rest =>
    if filter.accepts d then some ([], d, rest)
    else (splitAt? filter rest).map fun split => (d :: split.1, split.2)

/-- The store with a collection of a name, which is made when it is missing. -/
def opened (s : Store) (collection : String) : Store :=
  match s.documents? collection with
  | some _ => s
  | none => s.withDocuments collection []

/-- Adds a document at the end of a collection. The collection is made before the document is
compared with those in it. -/
def insertOne (s : Store) (collection : String) (d : Document) :
    Except StoreError String × Store :=
  match checkId collection d with
  | .error e => (.error e, s)
  | .ok id =>
    let s := s.opened collection
    let docs := s.documents collection
    if hasId id docs then (.error (.duplicateKey collection id), s)
    else (.ok id, s.withDocuments collection (docs ++ [d]))

/-- Puts a document in the place of the first that a filter accepts. -/
def updateOne (s : Store) (collection : String) (filter : Filter) (d : Document) :
    Except StoreError Bool × Store :=
  match checkId collection d with
  | .error e => (.error e, s)
  | .ok id =>
    match splitAt? filter (s.documents collection) with
    | none => (.ok false, s)
    | some (before, _, after) =>
      if hasId id before || hasId id after then (.error (.duplicateKey collection id), s)
      else (.ok true, s.withDocuments collection (before ++ d :: after))

/-- Drops the first document that a filter accepts. -/
def deleteOne (s : Store) (collection : String) (filter : Filter) :
    Except StoreError Bool × Store :=
  match splitAt? filter (s.documents collection) with
  | none => (.ok false, s)
  | some (before, _, after) => (.ok true, s.withDocuments collection (before ++ after))

/-- What an available store answers to a call, and the store after it. -/
def answer (s : Store) : (c : Call) → Except StoreError c.Reply × Store
  | .findOne collection filter => (.ok ((s.documents collection).find? filter.accepts), s)
  | .find collection filter => (.ok ((s.documents collection).filter filter.accepts), s)
  | .insertOne collection d => s.insertOne collection d
  | .updateOne collection filter d => s.updateOne collection filter d
  | .deleteOne collection filter => s.deleteOne collection filter

/-- What a store answers to a call, and the store after it. -/
def perform (s : Store) (c : Call) : Except StoreError c.Reply × Store :=
  if s.available then s.answer c
  else (.error (.unavailable "in-memory store is offline"), s)

end Store

end JobRegistry
