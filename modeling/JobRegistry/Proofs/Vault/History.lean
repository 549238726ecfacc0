import JobRegistry.Proofs.Vault.Effects

/-!
# Histories of a vault

A history is what was asked of a vault, one request after another, with what came of each
(`History`). The records and the readings of the clock are any at all, and the store goes offline
and comes back as it likes, also between the calls of one request.

`Effect` lists what a request can do to the collection. Whatever holds along all histories is shown
for each effect once, and then follows by induction.
-/

namespace JobRegistry

open Program (Ends)
open Store

/-- What can be asked of a vault. -/
inductive Request (R : Type)
  | create (r : R)
  /-- With the reading of the clock. -/
  | update (now : Timestamp) (r : R)
  | delete (id : RecordId)
  | find (filter : Filter)
  | findFirst (filter : Filter)
  | findById (id : RecordId)

/-- The result of a request that succeeds. -/
def Request.Reply {R : Type} : Request R → Type
  | .create _ => R
  | .update _ _ => R
  | .delete _ => Unit
  | .find _ => List R
  | .findFirst _ => Option R
  | .findById _ => R

/-- A request and what came of it. -/
structure Event (R : Type) where
  request : Request R
  outcome : Except VaultError request.Reply

variable {R : Type} [Record R]

/-- The operation that a request asks for. -/
def Request.operation (v : Vault R) : (q : Request R) → Operation q.Reply
  | .create r => v.create r
  | .update now r => v.update now r
  | .delete id => v.delete id
  | .find filter => v.find filter
  | .findFirst filter => v.findFirst filter
  | .findById id => v.findById id

namespace Event

/-- A record with the identifier was updated. -/
def Updates (id : RecordId) : Event R → Prop
  | ⟨.update _ r, .ok _⟩ => Record.id r = id
  | _ => False

omit [Record R] in
/-- The record with the identifier was deleted. -/
def Deletes (id : RecordId) : Event R → Prop
  | ⟨.delete id', .ok _⟩ => id' = id
  | _ => False

omit [Record R] in
/-- The collection was only looked at, or not even that. -/
def IsQuiet : Event R → Prop
  | ⟨.create _, .ok _⟩ => False
  | ⟨.update _ _, .ok _⟩ => False
  | ⟨.delete _, .ok _⟩ => False
  | _ => True

end Event

namespace Vault

/-- A run of requests, one after another, that leads from one store to another. -/
inductive History (v : Vault R) : Store → List (Event R) → Store → Prop
  | nil (s : Store) : History v s [] s
  | cons {s s₁ s' : Store} {q : Request R} {x : Except VaultError q.Reply} {es : List (Event R)}
    (run : Ends (q.operation v) s x s₁) (rest : History v s₁ es s') : History v s (⟨q, x⟩ :: es) s'

/-- What an event does to the collection of a vault. -/
inductive Effect (v : Vault R) (s s' : Store) : Event R → Prop
  | quiet {e : Event R} (isQuiet : e.IsQuiet) (same : s'.collections = s.collections) :
    Effect v s s' e
  | created {r : R} {d : Document} (valid : Record.validate r = .ok ())
    (toDocument : Record.toDocument r = .ok d)
    (fresh : holding? (s.documents v.collection) (Record.id r).toHex = none)
    (appended : s'.collections =
      (s.withDocuments v.collection (s.documents v.collection ++ [d])).collections) :
    Effect v s s' ⟨.create r, .ok r⟩
  | updated {now u : Timestamp} {r stored : R} {before after : List Document} {old d : Document}
    (valid : Record.validate r = .ok ())
    (split : Split (s.documents v.collection) (byId (Record.id r)) before old after)
    (decoded : decode old = .ok stored)
    (later : updateTime? now (Record.updatedAt stored) = some u)
    (toDocument : Record.toDocument (Record.withTimes r (Record.createdAt stored) u) = .ok d)
    (replaced : s'.collections =
      (s.withDocuments v.collection (before ++ d :: after)).collections) :
    Effect v s s' ⟨.update now r, .ok (Record.withTimes (R := R) r (Record.createdAt stored) u)⟩
  | deleted {id : RecordId} {before after : List Document} {old : Document}
    (split : Split (s.documents v.collection) (byId id) before old after)
    (dropped : s'.collections = (s.withDocuments v.collection (before ++ after)).collections) :
    Effect v s s' ⟨.delete id, .ok ()⟩

variable {v : Vault R} {s s' : Store}

/-- **Every run of a request has one of the effects.** -/
theorem effect_of_ends [LawfulRecord R] {q : Request R} {x : Except VaultError q.Reply}
    (h : Ends (q.operation v) s x s') : Effect v s s' ⟨q, x⟩ := by
  cases q with
  | create r =>
    obtain ⟨⟨e, rfl⟩, hs⟩ | ⟨rfl, hvalid, d, id, hd, hid, hnone, hs⟩ := create_ends h
    · exact .quiet trivial hs
    · rw [Record.idOf?_toDocument hd, Option.some.injEq] at hid
      exact .created hvalid hd (hid ▸ hnone) hs
  | update now r =>
    obtain ⟨⟨e, rfl⟩, hs⟩ | ⟨hvalid, before, old, after, stored, u, d, hsplit, hdec, hu, rfl, hd,
      hs⟩ := update_ends h
    · exact .quiet trivial hs
    · exact .updated hvalid hsplit hdec hu hd hs
  | delete id =>
    obtain ⟨⟨e, rfl⟩, hs⟩ | ⟨rfl, before, old, after, hsplit, hs⟩ := delete_ends h
    · exact .quiet trivial hs
    · exact .deleted hsplit hs
  | find filter => exact .quiet trivial (find_ends h)
  | findFirst filter => exact .quiet trivial (findFirst_ends h).1
  | findById id => exact .quiet trivial (findById_ends h)

theorem History.append_inv {es es' : List (Event R)} (h : History v s (es ++ es') s') :
    ∃ s₁, History v s es s₁ ∧ History v s₁ es' s' := by
  induction es generalizing s with
  | nil => exact ⟨s, .nil s, h⟩
  | cons e es ih =>
    obtain ⟨q, x⟩ := e
    cases h with
    | cons run rest =>
      obtain ⟨s₁, h₁, h₂⟩ := ih rest
      exact ⟨s₁, .cons run h₁, h₂⟩

/-- The history of one request to a store as it stands. -/
theorem History.single (q : Request R) (s : Store) :
    History v s [⟨q, ((q.operation v).run s).1⟩] ((q.operation v).run s).2 :=
  .cons (Program.ends_run _ s) (.nil _)

/-- What every effect preserves holds along every history. -/
theorem History.preserves [LawfulRecord R] {P : Store → Prop}
    (hP : ∀ {s s' : Store} {e : Event R}, Effect v s s' e → P s → P s') {es : List (Event R)}
    (h : History v s es s') (hs : P s) : P s' := by
  induction h with
  | nil => exact hs
  | cons run _ ih => exact ih (hP (effect_of_ends run) hs)

/-- No event touches another collection. -/
theorem Effect.frame {e : Event R} (he : Effect v s s' e) {c : String} (hc : c ≠ v.collection) :
    s'.documents c = s.documents c := by
  cases he with
  | quiet _ same => exact documents_congr same c
  | created _ _ _ appended => rw [documents_congr appended, documents_withDocuments_of_ne _ hc]
  | updated _ _ _ _ _ replaced => rw [documents_congr replaced, documents_withDocuments_of_ne _ hc]
  | deleted _ dropped => rw [documents_congr dropped, documents_withDocuments_of_ne _ hc]

/-- What is asked of a vault does not show in other collections. -/
theorem History.frame [LawfulRecord R] {es : List (Event R)} (h : v.History s es s') {c : String}
    (hc : c ≠ v.collection) : s'.documents c = s.documents c :=
  h.preserves (P := fun s₁ => s₁.documents c = s.documents c)
    (fun he hs => (he.frame hc).trans hs) rfl

end Vault

theorem Store.documents_of_collections {s s' : Store} {c : String} {docs : List Document}
    (h : s'.collections = (s.withDocuments c docs).collections) : s'.documents c = docs := by
  rw [documents_congr h, documents_withDocuments_self]

end JobRegistry
