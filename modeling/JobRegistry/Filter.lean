import JobRegistry.Document.Basic

/-!
# Filters

Conditions on documents: that the value at a dotted path equals a given one, that all of a list of
filters accept, and that the array at a path holds a document that a filter accepts.

`Filter.and` conjoins filters and keeps conjunctions flat; `Filter.id?` is the identifier that a
filter asks for, if it asks for one.
-/

namespace JobRegistry

/-- The key under which a document keeps its identifier. -/
def idKey : String := "_id"

/-- A condition on documents. -/
inductive Filter
  | all
  | eq (path : String) (v : Value)
  | allOf (parts : List Filter)
  | elem (path : String) (filter : Filter)

namespace Filter

/-- The filter for a text at a path. -/
def eqText (path text : String) : Filter :=
  .eq path (.text text)

/-- The filter for an identifier. -/
def byId (id : String) : Filter :=
  eqText idKey id

/-- The conjunction of two filters. -/
def and : Filter → Filter → Filter
  | .all, f => f
  | f, .all => f
  | .allOf fs, .allOf gs => .allOf (fs ++ gs)
  | .allOf fs, g => .allOf (fs ++ [g])
  | f, .allOf gs => .allOf (f :: gs)
  | f, g => .allOf [f, g]

mutual

/-- The identifier that a filter asks for. -/
def id? : Filter → Option String
  | .eq path v => if path = idKey then v.text? else none
  | .allOf parts => firstId? parts
  | _ => none

/-- The identifier that the first filter of a list that asks for one asks for. -/
def firstId? : List Filter → Option String
  | [] => none
  | f :: rest => (id? f).or (firstId? rest)

end

mutual

/-- Whether a filter accepts a document. -/
def accepts : Filter → Document → Bool
  | .all, _ => true
  | .eq path v, d =>
    match d.getPath? path with
    | some found => found == v
    | none => false
  | .allOf parts, d => allAccept parts d
  | .elem path filter, d =>
    match d.getPath? path with
    | some (.array items) => items.any fun item =>
      match item with
      | .document entries => accepts filter ⟨entries⟩
      | _ => false
    | _ => false

/-- Whether all filters of a list accept a document. -/
def allAccept : List Filter → Document → Bool
  | [], _ => true
  | f :: rest, d => accepts f d && allAccept rest d

end

end Filter

end JobRegistry
