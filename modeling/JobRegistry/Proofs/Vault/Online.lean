import JobRegistry.Proofs.Record.Lawful
import JobRegistry.Proofs.Store.Documents
import JobRegistry.Vault.Basic

/-!
# Operations on an available store

What an operation answers and what it makes of the store when the store is available, as equations:
`run_find` and `run_findById` for any store, `run_create`, `run_update` and `run_delete` where they
succeed, and `run_create_taken`, `run_update_missing`, `run_update_unreadable` and
`run_delete_missing` where the collection stands in the way. `Operation.run_bind` and
`Operation.run_ask` carry a run from one step to the next.

Where the collection holds a single record (`HoldsOnly`), each of them leads to such a collection
again or to an empty one, so that a run of several requests can be followed record by record.
-/

namespace JobRegistry

open Store

namespace Operation

variable {α β ε : Type}

theorem run_lift (report : ε → VaultError) (e : Except ε α) (s : Store) :
    (lift report e).run s = (e.mapError report, s) := by
  cases e <;> rfl

theorem run_ask {s : Store} (h : s.available = true) (c : Call) :
    (ask c).run s = ((s.answer c).1.mapError .ofStore, (s.answer c).2) := by
  show ((s.perform c).1.mapError VaultError.ofStore, (s.perform c).2) = _
  rw [perform, if_pos h]

theorem run_ask_offline {s : Store} (h : s.available = false) (c : Call) :
    (ask c).run s =
      (.error (.storeUnavailable (.unavailable "in-memory store is offline")), s) := by
  show ((s.perform c).1.mapError VaultError.ofStore, (s.perform c).2) = _
  rw [perform, h]
  rfl

theorem runWith_bind {σ : Type} (answer : σ → (c : Call) → Except StoreError c.Reply × σ)
    (p : Program α) (f : α → Program β) (s : σ) : (p.bind f).runWith answer s =
      (f (p.runWith answer s).1).runWith answer (p.runWith answer s).2 := by
  induction p generalizing s with
  | done a => rfl
  | call c next ih => exact ih _ _

theorem run_bind (p : Program α) (f : α → Program β) (s : Store) :
    (p.bind f).run s = (f (p.run s).1).run (p.run s).2 :=
  runWith_bind Store.perform p f s

theorem run_bind_ok {p : Operation α} {f : α → Operation β} {s s' : Store} {a : α}
    (h : p.run s = (.ok a, s')) : (p >>= f).run s = (f a).run s' := by
  refine (run_bind p _ s).trans ?_
  rw [show Program.run p s = (.ok a, s') from h]
  rfl

theorem run_bind_error {p : Operation α} {f : α → Operation β} {s s' : Store} {e : VaultError}
    (h : p.run s = (.error e, s')) : (p >>= f).run s = (.error e, s') := by
  refine (run_bind p _ s).trans ?_
  rw [show Program.run p s = (.error e, s') from h]
  rfl

end Operation

open Operation

theorem Store.available_answer (s : Store) (c : Call) :
    (s.answer c).2.available = s.available := by
  cases c with
  | findOne c filter => rfl
  | find c filter => rfl
  | insertOne c d =>
    obtain ⟨e, he⟩ | ⟨id, -, -, he⟩ := s.insertOne_cases c d <;> rw [answer, he]
    rfl
  | updateOne c filter d =>
    obtain ⟨e, he⟩ | ⟨-, he⟩ | ⟨before, old, after, -, he⟩ := s.updateOne_cases c filter d <;>
      rw [answer, he]
    rfl
  | deleteOne c filter =>
    obtain ⟨-, he⟩ | ⟨before, old, after, -, he⟩ := s.deleteOne_cases c filter <;> rw [answer, he]
    rfl

/-- A run leaves the store as available as it was. -/
theorem Program.available_run {α : Type} (p : Program α) (s : Store) :
    (p.run s).2.available = s.available := by
  induction p generalizing s with
  | done a => rfl
  | call c next ih =>
    refine (ih _ _).trans ?_
    unfold perform
    split
    · exact s.available_answer c
    · rfl

theorem Operation.available_of_run {α : Type} {p : Operation α} {s s' : Store}
    {x : Except VaultError α} (hs : s.available = true) (h : p.run s = (x, s')) :
    s'.available = true := by
  have := Program.available_run p s
  rwa [show Program.run p s = (x, s') from h, hs] at this

namespace Vault

variable {R : Type} [Record R] {v : Vault R} {s : Store}

/-! ## Reading -/

theorem run_find (h : s.available = true) (filter : Filter) : (v.find filter).run s =
    (decodeAll ((s.documents v.collection).filter filter.accepts), s) := by
  refine (run_bind_ok (run_ask h _)).trans ?_
  rw [run_lift]
  cases decodeAll (R := R) ((s.documents v.collection).filter filter.accepts) <;> rfl

theorem run_findAll (h : s.available = true) :
    v.findAll.run s = (decodeAll (s.documents v.collection), s) := by
  rw [findAll, run_find h, List.filter_eq_self.2 fun d _ => Filter.accepts_all d]

theorem run_findFirst_none (h : s.available = true) {filter : Filter}
    (hd : (s.documents v.collection).find? filter.accepts = none) :
    (v.findFirst filter).run s = (.ok none, s) := by
  refine (run_bind_ok (run_ask h _)).trans ?_
  dsimp only [answer]
  rw [hd]
  rfl

theorem run_findFirst_some (h : s.available = true) {filter : Filter} {d : Document}
    (hd : (s.documents v.collection).find? filter.accepts = some d) :
    (v.findFirst filter).run s = ((decode d).map some, s) := by
  refine (run_bind_ok (run_ask h _)).trans ?_
  dsimp only [answer]
  rw [hd]
  cases he : decode (R := R) d with
  | error e => exact run_bind_error (by rw [run_lift, he]; rfl)
  | ok r => exact run_bind_ok (by rw [run_lift, he]; rfl)

/-- The record of an identifier is what the document under it is read as. -/
theorem run_findById (h : s.available = true) {id : RecordId} {d : Document}
    (hd : holding? (s.documents v.collection) id.toHex = some d) :
    (v.findById id).run s = (decode d, s) := by
  have hfirst : (v.findFirst (byId id)).run s = ((decode d).map some, s) :=
    run_findFirst_some h hd
  cases he : decode (R := R) d with
  | error e =>
    rw [he] at hfirst
    exact run_bind_error hfirst
  | ok r =>
    rw [he] at hfirst
    exact run_bind_ok hfirst

/-! ## Writing -/

section

variable {now : Timestamp} {r : R}

/-- A record whose identifier is stored is not created. -/
theorem run_create_taken (h : s.available = true) (hvalid : Record.validate r = .ok ())
    {d : Document} (hold : holding? (s.documents v.collection) (Record.id r).toHex = some d) :
    (v.create r).run s = (.error (v.taken (Record.id r)), s) := by
  refine (run_bind_ok (by rw [run_lift, hvalid]; rfl)).trans ?_
  refine (run_bind_ok (run_ask h _)).trans ?_
  dsimp only [answer]
  rw [show (s.documents v.collection).find? (byId (Record.id r)).accepts = some d from hold]
  rfl

/-- A record whose identifier is not stored is not updated. -/
theorem run_update_missing (h : s.available = true) (hvalid : Record.validate r = .ok ())
    (hnone : holding? (s.documents v.collection) (Record.id r).toHex = none) :
    (v.update now r).run s = (.error (v.missing (Record.id r)), s) := by
  have hfirst : (v.findFirst (byId (Record.id r))).run s = (.ok none, s) :=
    run_findFirst_none h hnone
  refine (run_bind_ok (by rw [run_lift, hvalid]; rfl)).trans ?_
  exact run_bind_ok hfirst

/-- A record whose stored copy cannot be read is not updated. -/
theorem run_update_unreadable (h : s.available = true) (hvalid : Record.validate r = .ok ())
    {old : Document} (hold : holding? (s.documents v.collection) (Record.id r).toHex = some old)
    {e : VaultError} (hdec : decode (R := R) old = .error e) :
    (v.update now r).run s = (.error e, s) := by
  have hfirst : (v.findFirst (byId (Record.id r))).run s = (.error e, s) := by
    rw [byId, run_findFirst_some h hold, hdec]
    rfl
  refine (run_bind_ok (by rw [run_lift, hvalid]; rfl)).trans ?_
  exact run_bind_error hfirst

omit [Record R] in
theorem run_delete_missing (h : s.available = true) {id : RecordId}
    (hnone : holding? (s.documents v.collection) id.toHex = none) :
    (v.delete id).run s = (.error (v.missing id), s) := by
  have hdelete : s.deleteOne v.collection (byId id) = (.ok false, s) := by
    rw [deleteOne, byId, splitAt?_eq_none.2 hnone]
  have hask : (ask (.deleteOne v.collection (byId id))).run s = (.ok false, s) := by
    rw [run_ask h, answer, hdelete]
    rfl
  exact run_bind_ok hask

omit [Record R] in
/-- The document under an identifier is dropped, and all others stay as they are. -/
theorem run_delete (h : s.available = true) {id : RecordId} {d : Document}
    (hold : holding? (s.documents v.collection) id.toHex = some d) :
    ∃ front back, Split (s.documents v.collection) (byId id) front d back ∧
      (v.delete id).run s = (.ok (), s.withDocuments v.collection (front ++ back)) := by
  obtain ⟨hnone, -⟩ | ⟨front, d', back, hsplit, hdelete⟩ :=
    s.deleteOne_cases v.collection (byId id)
  · cases hold.symm.trans hnone
  · obtain rfl := Option.some.inj (hold.symm.trans hsplit.find?_eq)
    have hask : (ask (.deleteOne v.collection (byId id))).run s =
        (.ok true, s.withDocuments v.collection (front ++ back)) := by
      rw [run_ask h, answer, hdelete]
      rfl
    exact ⟨front, back, hsplit, run_bind_ok hask⟩

end

variable [LawfulRecord R]

/-- A valid record whose identifier is not stored is put at the end. -/
theorem run_create (h : s.available = true) {r : R} {d : Document}
    (hvalid : Record.validate r = .ok ()) (hd : Record.toDocument r = .ok d)
    (hfresh : holding? (s.documents v.collection) (Record.id r).toHex = none) :
    (v.create r).run s =
      (.ok r, s.withDocuments v.collection (s.documents v.collection ++ [d])) := by
  have hinsert : s.insertOne v.collection d = (.ok (Record.id r).toHex,
      s.withDocuments v.collection (s.documents v.collection ++ [d])) := by
    rw [insertOne_eq, checkId_eq_ok (Record.idOf?_toDocument hd) (RecordId.toHex_ne_empty _)]
    exact if_neg (by rw [hasId_eq_false.2 hfresh]; nofun)
  have hask : (ask (.insertOne v.collection d)).run s = (.ok (Record.id r).toHex,
      s.withDocuments v.collection (s.documents v.collection ++ [d])) := by
    rw [run_ask h, answer, hinsert]
    rfl
  refine (run_bind_ok (by rw [run_lift, hvalid]; rfl)).trans ?_
  refine (run_bind_ok (run_ask h _)).trans ?_
  dsimp only [answer]
  rw [show (s.documents v.collection).find? (byId (Record.id r)).accepts = none from hfresh]
  refine (run_bind_ok (by rw [run_lift, hd]; rfl)).trans ?_
  exact run_bind_ok hask

/-- A valid record whose identifier is stored takes the place of the stored one, with its time of
creation and a later time of update. -/
theorem run_update (h : s.available = true) {now u : Timestamp} {r stored : R} {old d : Document}
    (hunique : UniqueIds (s.documents v.collection)) (hvalid : Record.validate r = .ok ())
    (hold : holding? (s.documents v.collection) (Record.id r).toHex = some old)
    (hdec : decode old = .ok stored) (hu : updateTime? now (Record.updatedAt stored) = some u)
    (hd : Record.toDocument (Record.withTimes r (Record.createdAt stored) u) = .ok d) :
    ∃ before after, Split (s.documents v.collection) (byId (Record.id r)) before old after ∧
      (v.update now r).run s = (.ok (Record.withTimes r (Record.createdAt stored) u),
        s.withDocuments v.collection (before ++ d :: after)) := by
  have hid : idOf? d = some (Record.id r).toHex := by
    rw [Record.idOf?_toDocument hd, LawfulRecord.id_withTimes]
  obtain ⟨before, after, hsplit, hupdate⟩ :=
    updateOne_byId (RecordId.toHex_ne_empty _) hid hunique hold
  have hfirst : (v.findFirst (byId (Record.id r))).run s = (.ok (some stored), s) := by
    rw [byId, run_findFirst_some h hold, hdec]
    rfl
  have hask : (ask (.updateOne v.collection (byId (Record.id r)) d)).run s =
      (.ok true, s.withDocuments v.collection (before ++ d :: after)) := by
    rw [run_ask h, answer, byId, hupdate]
    rfl
  refine ⟨before, after, hsplit, ?_⟩
  refine (run_bind_ok (by rw [run_lift, hvalid]; rfl)).trans ?_
  refine (run_bind_ok hfirst).trans ?_
  dsimp only
  rw [hu]
  refine (run_bind_ok (by rw [run_lift, hd]; rfl)).trans ?_
  exact run_bind_ok hask

/-! ## A single record -/

/-- The store is available, and the collection holds the document of the record and no other. -/
structure HoldsOnly (v : Vault R) (s : Store) (r : R) : Prop where
  available : s.available = true
  documents : ∃ d, Record.toDocument r = .ok d ∧ s.documents v.collection = [d]

/-- The first record of an empty collection. -/
theorem run_create_first (h : s.available = true) {r : R} (hempty : s.documents v.collection = [])
    (hvalid : Record.validate r = .ok ()) :
    ∃ s', (v.create r).run s = (.ok r, s') ∧ v.HoldsOnly s' r := by
  obtain ⟨d, hd⟩ := Record.exists_toDocument r
  have hrun := run_create (v := v) h hvalid hd (by rw [hempty]; rfl)
  refine ⟨_, hrun, available_of_run h hrun, d, hd, ?_⟩
  rw [documents_withDocuments_self, hempty, List.nil_append]

namespace HoldsOnly

variable {now u : Timestamp} {r stored : R}

theorem found (h : v.HoldsOnly s stored) (hid : Record.id r = Record.id stored) :
    ∃ d, Record.toDocument stored = .ok d ∧
      holding? (s.documents v.collection) (Record.id r).toHex = some d := by
  obtain ⟨d, hd, hdocs⟩ := h.documents
  exact ⟨d, hd, by rw [hdocs, hid, holding?_cons_self (Record.idOf?_toDocument hd)]⟩

theorem fresh (h : v.HoldsOnly s stored) (hid : Record.id r ≠ Record.id stored) :
    Store.holding? (s.documents v.collection) (Record.id r).toHex = none := by
  obtain ⟨d, hd, hdocs⟩ := h.documents
  rw [hdocs, holding?_cons_of_ne]
  · rfl
  · rw [Record.idOf?_toDocument hd]
    exact fun heq => hid (RecordId.toHex_inj.1 (Option.some.inj heq)).symm

/-- It is not created again. -/
theorem run_create (h : v.HoldsOnly s stored) (hid : Record.id r = Record.id stored)
    (hvalid : Record.validate r = .ok ()) :
    (v.create r).run s = (.error (v.taken (Record.id r)), s) := by
  obtain ⟨d, -, hold⟩ := h.found hid
  exact run_create_taken h.available hvalid hold

/-- An update takes its place. -/
theorem run_update (h : v.HoldsOnly s stored) (hid : Record.id r = Record.id stored)
    (hvalid : Record.validate r = .ok ()) (hlegible : Record.Legible stored)
    (hu : updateTime? now (Record.updatedAt stored) = some u) :
    ∃ s', (v.update now r).run s = (.ok (Record.withTimes r (Record.createdAt stored) u), s') ∧
      v.HoldsOnly s' (Record.withTimes r (Record.createdAt stored) u) := by
  obtain ⟨old, hold, hdocs⟩ := h.documents
  obtain ⟨d, hd⟩ := Record.exists_toDocument (Record.withTimes r (Record.createdAt stored) u)
  obtain ⟨_, hold', hfound⟩ := h.found hid
  obtain rfl := Except.ok.inj (hold.symm.trans hold')
  have hread : decode old = .ok stored :=
    ((Record.ofDocument_answers hold).mapError VaultError.mapping).eq_ok hlegible
  obtain ⟨before, after, hsplit, hrun⟩ := Vault.run_update (v := v) h.available
    (by rw [hdocs]; exact List.pairwise_singleton _ _) hvalid hfound hread hu hd
  obtain ⟨rfl, rfl⟩ := (hdocs ▸ hsplit).nil_of_singleton
  exact ⟨_, hrun, available_of_run h.available hrun, d, hd, documents_withDocuments_self ..⟩

/-- Its deletion leaves nothing. -/
theorem run_delete (h : v.HoldsOnly s stored) :
    ∃ s', (v.delete (Record.id stored)).run s = (.ok (), s') ∧ s'.available = true ∧
      s'.documents v.collection = [] := by
  obtain ⟨old, -, hdocs⟩ := h.documents
  obtain ⟨d, -, hfound⟩ := h.found rfl
  obtain ⟨front, back, hsplit, hrun⟩ := Vault.run_delete (v := v) h.available hfound
  obtain ⟨rfl, rfl⟩ := (hdocs ▸ hsplit).nil_of_singleton
  exact ⟨_, hrun, available_of_run h.available hrun, documents_withDocuments_self ..⟩

end HoldsOnly

end Vault

end JobRegistry
