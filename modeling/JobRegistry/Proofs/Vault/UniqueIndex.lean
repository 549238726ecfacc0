import JobRegistry.Proofs.Store.Changes
import JobRegistry.Proofs.Vault.Soundness

/-!
# Requests that share a collection

Any number of requests work on one collection of an available store, and their calls come in any
order (`Vault.Interleaved`). With each request stand the calls that it has made with their answers,
so that it can be said what came of them.

The store keeps the account (`interleaved_account`): an identifier is stored exactly when one
insertion of it more has succeeded than deletions of it. So without deletions of it at most one
creation succeeds, and all others end with the fault that the record exists, whether they saw it
when they looked or were overtaken after that.

`Program.Obeys` follows a program through its calls. A request reads, writes at most once, and ends
with that (`proceeds_operation`); what a write does to the account is `accounts_perform`.
-/

namespace JobRegistry

open Store

/-! ## Programs and what they have been answered -/

/-- A call and its answer. -/
structure Exchange where
  call : Call
  reply : Except StoreError call.Reply

/-- The call only looks at the store. -/
def Call.Reads : Call → Prop
  | .findOne _ _ => True
  | .find _ _ => True
  | _ => False

/-- Every call of the program agrees with a rule, as does the result, given what was called and
answered before; what it is answered comes from stores with an invariant. -/
def Program.Obeys {α : Type} (I : Store → Prop) (rule : List Exchange → Call → Prop)
    (Q : List Exchange → α → Prop) : List Exchange → Program α → Prop
  | made, .done a => Q made a
  | made, .call c next => rule made c ∧ ∀ s, I s →
    Obeys I rule Q (made ++ [⟨c, (s.perform c).1⟩]) (next (s.perform c).1)

/-! ## The calls of operations -/

namespace Vault

variable {R : Type} [Record R] {v : Vault R}

theorem create_eq {r : R} {d : Document} (hvalid : Record.validate r = .ok ())
    (hd : Record.toDocument r = .ok d) :
    v.create r = .call (.findOne v.collection (byId (Record.id r))) fun
      | .error e => .done (.error (.ofStore e))
      | .ok (some _) => .done (.error (v.taken (Record.id r)))
      | .ok none => .call (.insertOne v.collection d) fun
        | .error e => .done (.error (.ofStore e))
        | .ok _ => .done (.ok r) := by
  rw [create, hvalid, hd]
  refine congrArg (Program.call _) (funext fun reply => ?_)
  match reply with
  | .error e => rfl
  | .ok (some found) => rfl
  | .ok none =>
    refine congrArg (Program.call _) (funext fun reply => ?_)
    cases reply <;> rfl

theorem update_eq {now : Timestamp} {r : R} (hvalid : Record.validate r = .ok ()) :
    v.update now r = .call (.findOne v.collection (byId (Record.id r))) fun
      | .error e => .done (.error (.ofStore e))
      | .ok none => .done (.error (v.missing (Record.id r)))
      | .ok (some old) =>
        match decode (R := R) old with
        | .error e => .done (.error e)
        | .ok stored =>
          match updateTime? now (Record.updatedAt stored) with
          | none => .done (.error (cannotAdvance R))
          | some u =>
            match Record.toDocument (Record.withTimes r (Record.createdAt stored) u) with
            | .error e => .done (.error (.mapping e))
            | .ok d => .call (.updateOne v.collection (byId (Record.id r)) d) fun
              | .error e => .done (.error (.ofStore e))
              | .ok false => .done (.error (v.missing (Record.id r)))
              | .ok true => .done (.ok (Record.withTimes r (Record.createdAt stored) u)) := by
  rw [update, hvalid, findFirst]
  refine congrArg (Program.call _) (funext fun reply => ?_)
  match reply with
  | .error e => rfl
  | .ok none => rfl
  | .ok (some old) =>
    dsimp only [Bind.bind, Operation.bind, Program.bind, Except.mapError]
    cases decode (R := R) old with
    | error e => rfl
    | ok stored =>
      dsimp only [Operation.lift, Operation.pure, Pure.pure, Program.bind]
      cases updateTime? now (Record.updatedAt stored) with
      | none => rfl
      | some u =>
        dsimp only
        cases Record.toDocument (Record.withTimes r (Record.createdAt stored) u) with
        | error e => rfl
        | ok d =>
          refine congrArg (Program.call _) (funext fun reply => ?_)
          match reply with
          | .error e => rfl
          | .ok true => rfl
          | .ok false => rfl

omit [Record R] in
theorem delete_eq (id : RecordId) :
    v.delete id = .call (.deleteOne v.collection (byId id)) fun
      | .error e => .done (.error (.ofStore e))
      | .ok true => .done (.ok ())
      | .ok false => .done (.error (v.missing id)) := by
  refine congrArg (Program.call _) (funext fun reply => ?_)
  match reply with
  | .error e => rfl
  | .ok true => rfl
  | .ok false => rfl

end Vault

/-! ## Requests and the account -/

namespace Request

variable {R : Type} [Record R]

/-- The exchange is the insertion of a record that was to be created under an identifier. -/
def creates (id : RecordId) : Request R → Exchange → Bool
  | .create r, ⟨.insertOne _ _, .ok _⟩ => Record.id r == id
  | _, _ => false

omit [Record R] in
/-- The exchange is the deletion of a record under an identifier. -/
def deletes (id : RecordId) : Request R → Exchange → Bool
  | .delete j, ⟨.deleteOne _ _, .ok true⟩ => j == id
  | _, _ => false

/-- The call by which a request changes the collection. -/
inductive Writes (v : Vault R) : Request R → Call → Prop
  | insert {r : R} {d : Document} (valid : Record.validate r = .ok ())
    (toDocument : Record.toDocument r = .ok d) :
    Writes v (.create r) (.insertOne v.collection d)
  | replace {now : Timestamp} {r next : R} {d : Document} (same : Record.id next = Record.id r)
    (valid : Record.validate next = .ok ()) (toDocument : Record.toDocument next = .ok d) :
    Writes v (.update now r) (.updateOne v.collection (Vault.byId (Record.id r)) d)
  | drop (id : RecordId) :
    Writes v (.delete id) (.deleteOne v.collection (Vault.byId id))

/-- What a request calls: it looks at the store before it changes it, and does nothing after. -/
def Rule (v : Vault R) (q : Request R) (made : List Exchange) (c : Call) : Prop :=
  (∀ e ∈ made, e.call.Reads) ∧ (c.Reads ∨ q.Writes v c)

/-- What a request ends with. A creation succeeds by an insertion, and of a valid record it does or
the record exists. -/
def Outcome (v : Vault R) : (q : Request R) → List Exchange → Except VaultError q.Reply → Prop
  | .create r, made, x =>
    (∀ r', x = .ok r' → made.any ((create r).creates (Record.id r)) = true) ∧
      (Record.validate r = .ok () → x = .ok r ∨ x = .error (v.taken (Record.id r)))
  | _, _, _ => True

end Request

namespace Vault

variable {R : Type} [Record R] {v : Vault R} {s : Store}

/-- The store is available, and the collection of the vault is sound. -/
structure Ready (v : Vault R) (s : Store) : Prop where
  available : s.available = true
  sound : Sound R (s.documents v.collection)

/-- A program of a request that goes on after some calls in keeping with the rules. -/
def Proceeds (v : Vault R) (q : Request R) (made : List Exchange)
    (rest : Program (Except VaultError q.Reply)) : Prop :=
  rest.Obeys v.Ready (q.Rule v) (q.Outcome v) made

/-! ## Requests obey -/

variable [LawfulRecord R]

theorem proceeds_create (v : Vault R) (r : R) : v.Proceeds (.create r) [] (v.create r) := by
  cases hvalid : Record.validate r with
  | error e =>
    rw [create, hvalid]
    refine ⟨by rintro _ ⟨⟩, fun h => ?_⟩
    rw [hvalid] at h
    cases h
  | ok u =>
    obtain ⟨d, hd⟩ := Record.exists_toDocument r
    rw [create_eq hvalid hd]
    refine ⟨⟨List.forall_mem_nil _, .inl trivial⟩, fun s hs => ?_⟩
    rw [perform, if_pos hs.available, answer]
    dsimp only
    cases (s.documents v.collection).find? (byId (Record.id r)).accepts with
    | some found => exact ⟨by rintro _ ⟨⟩, fun _ => .inr rfl⟩
    | none =>
      refine ⟨⟨List.forall_mem_singleton.2 trivial, .inr (.insert hvalid hd)⟩, fun s hs => ?_⟩
      rw [perform, if_pos hs.available, answer, insertOne_eq,
        checkId_eq_ok (Record.idOf?_toDocument hd) (RecordId.toHex_ne_empty _)]
      dsimp only
      split
      · exact ⟨by rintro _ ⟨⟩, fun _ => .inr rfl⟩
      · exact ⟨fun _ _ => by simp [Request.creates], fun _ => .inl rfl⟩

/-- Other requests may have changed or deleted the stored record between the reading and the writing
of an update. What is written is valid all the same, because what was read was. -/
theorem proceeds_update (v : Vault R) (now : Timestamp) (r : R) :
    v.Proceeds (.update now r) [] (v.update now r) := by
  cases hvalid : Record.validate r with
  | error e =>
    rw [update, hvalid]
    exact trivial
  | ok u =>
    rw [update_eq hvalid]
    refine ⟨⟨List.forall_mem_nil _, .inl trivial⟩, fun s hs => ?_⟩
    rw [perform, if_pos hs.available, answer]
    dsimp only
    cases hfound : (s.documents v.collection).find? (byId (Record.id r)).accepts with
    | none => exact trivial
    | some old =>
      dsimp only
      split
      · exact trivial
      · next stored hstored =>
        obtain ⟨r₀, hd₀, hvalid₀⟩ := hs.sound.records old (List.mem_of_find?_eq_some hfound)
        obtain rfl := eq_of_decode hd₀ hstored
        split
        · exact trivial
        · next u hu =>
          split
          · exact trivial
          · next d hd =>
            refine ⟨⟨List.forall_mem_singleton.2 trivial,
              .inr (.replace (LawfulRecord.id_withTimes ..) (validate_updated hvalid hvalid₀ hu)
                hd)⟩, fun s _ => ?_⟩
            rcases (s.perform (.updateOne v.collection (byId (Record.id r)) d)).1 with e | found
            · exact trivial
            · cases (found : Bool) <;> exact trivial

omit [LawfulRecord R] in
theorem proceeds_delete (v : Vault R) (id : RecordId) :
    v.Proceeds (.delete id) [] (v.delete id) := by
  rw [delete_eq]
  refine ⟨⟨List.forall_mem_nil _, .inr (.drop id)⟩, fun s _ => ?_⟩
  rcases (s.perform (.deleteOne v.collection (byId id))).1 with e | found
  · exact trivial
  · cases (found : Bool) <;> exact trivial

/-- **A request looks at the collection, changes it at most once, and ends.** -/
theorem proceeds_operation (v : Vault R) (q : Request R) : v.Proceeds q [] (q.operation v) := by
  cases q with
  | create r => exact proceeds_create v r
  | update now r => exact proceeds_update v now r
  | delete id => exact proceeds_delete v id
  | find filter =>
    refine ⟨⟨nofun, .inl trivial⟩, fun s _ => ?_⟩
    match (s.perform (.find v.collection filter)).1 with
    | .error e => exact trivial
    | .ok docs =>
      show v.Proceeds (.find filter) _ (Operation.lift id (decodeAll docs))
      cases decodeAll (R := R) docs <;> exact trivial
  | findFirst filter =>
    refine ⟨⟨nofun, .inl trivial⟩, fun s _ => ?_⟩
    match (s.perform (.findOne v.collection filter)).1 with
    | .error e => exact trivial
    | .ok none => exact trivial
    | .ok (some d) =>
      show v.Proceeds (.findFirst filter) _ (Operation.bind (Operation.lift id (decode d)) fun r =>
        Operation.pure (some r))
      cases decode (R := R) d <;> exact trivial
  | findById id =>
    refine ⟨⟨nofun, .inl trivial⟩, fun s _ => ?_⟩
    match (s.perform (.findOne v.collection (byId id))).1 with
    | .error e => exact trivial
    | .ok none => exact trivial
    | .ok (some d) =>
      show v.Proceeds (.findById id) _ (Operation.bind (Operation.bind (Operation.lift _ (decode d))
        fun r => Operation.pure (some r)) _)
      cases decode (R := R) d <;> exact trivial

end Vault

/-! ## The account -/

namespace Request

variable {R : Type} [Record R] {id : RecordId} {q : Request R} {e : Exchange}

theorem creates_of_reads (h : e.call.Reads) : q.creates id e = false := by
  obtain ⟨c, reply⟩ := e
  cases q <;> cases c <;> first | rfl | cases h

omit [Record R] in
theorem deletes_of_reads (h : e.call.Reads) : q.deletes id e = false := by
  obtain ⟨c, reply⟩ := e
  cases q <;> cases c <;> first | rfl | cases h

omit [Record R] in
theorem eq_delete_of_deletes (h : q.deletes id e = true) : q = .delete id := by
  unfold deletes at h
  split at h
  · rw [eq_of_beq h]
  · cases h

end Request

namespace Vault

variable {R : Type} [Record R] {v : Vault R} {s : Store} {q : Request R} {c : Call}

/-- Whether an identifier is stored, as a number. -/
def stored (v : Vault R) (s : Store) (id : RecordId) : Nat :=
  (holding? (s.documents v.collection) id.toHex).isSome.toNat

/-- A call and what it makes of the store: an identifier that was not stored is if it is inserted,
and one that was is not if it is deleted. -/
structure Accounts (v : Vault R) (q : Request R) (s : Store) (e : Exchange) (s' : Store) :
    Prop where
  ready : v.Ready s'
  balance (id : RecordId) :
    (q.creates id e).toNat + v.stored s id = (q.deletes id e).toNat + v.stored s' id

theorem accounts_unchanged (hs : v.Ready s) {e : Exchange} (hc : ∀ id, q.creates id e = false)
    (hd : ∀ id, q.deletes id e = false) : v.Accounts q s e s where
  ready := hs
  balance id := by rw [hc, hd]

/-- The account of a call that has changed the collection. -/
theorem accounts_withDocuments (hs : v.Ready s) {e : Exchange} {docs : List Document}
    (hdocs : Sound R docs) (hbalance : ∀ id, (q.creates id e).toNat +
      (holding? (s.documents v.collection) id.toHex).isSome.toNat =
        (q.deletes id e).toNat + (holding? docs id.toHex).isSome.toNat) :
    v.Accounts q s e (s.withDocuments v.collection docs) where
  ready := ⟨hs.available, by rwa [documents_withDocuments_self]⟩
  balance id := by
    rw [stored, stored, documents_withDocuments_self]
    exact hbalance id

variable [LawfulRecord R]

theorem accounts_insert {r : R} {d : Document} (hs : v.Ready s)
    (hvalid : Record.validate r = .ok ()) (hd : Record.toDocument r = .ok d) :
    v.Accounts (.create r) s ⟨.insertOne v.collection d, (s.insertOne v.collection d).1⟩
      (s.insertOne v.collection d).2 := by
  obtain ⟨e, he⟩ | ⟨id, hid, hfresh, he⟩ := s.insertOne_cases v.collection d
  · rw [he]
    exact accounts_unchanged hs (fun _ => rfl) fun _ => rfl
  · rw [he]
    obtain rfl : (Record.id r).toHex = id :=
      Option.some.inj ((Record.idOf?_toDocument hd).symm.trans hid)
    refine accounts_withDocuments hs (hs.sound.append hvalid hd hfresh) fun j => ?_
    show (Record.id r == j).toNat + _ = 0 + _
    rw [holding?_append_singleton hid hfresh]
    by_cases hj : j = Record.id r
    · subst hj
      rw [beq_self_eq_true, hfresh, if_pos rfl]
      rfl
    · rw [beq_false_of_ne (Ne.symm hj), if_neg (mt RecordId.toHex_inj.1 hj)]
      rfl

theorem accounts_replace {now : Timestamp} {r next : R} {d : Document} (hs : v.Ready s)
    (hsame : Record.id next = Record.id r) (hvalid : Record.validate next = .ok ())
    (hd : Record.toDocument next = .ok d) :
    v.Accounts (.update now r) s ⟨.updateOne v.collection (byId (Record.id r)) d,
        (s.updateOne v.collection (byId (Record.id r)) d).1⟩
      (s.updateOne v.collection (byId (Record.id r)) d).2 := by
  rw [← hsame]
  obtain ⟨e, he⟩ | ⟨-, he⟩ | ⟨before, old, after, hsplit, he⟩ :=
    s.updateOne_cases v.collection (byId (Record.id next)) d
  · rw [he]
    exact accounts_unchanged hs (fun _ => rfl) fun _ => rfl
  · rw [he]
    exact accounts_unchanged hs (fun _ => rfl) fun _ => rfl
  · rw [he]
    refine accounts_withDocuments hs (hs.sound.replace hsplit hvalid hd) fun j => ?_
    show 0 + _ = 0 + _
    rw [byId] at hsplit
    rw [hsplit.holding?_replace (Record.idOf?_toDocument hd)]
    split
    · next hj =>
      have hold : holding? (s.documents v.collection) (Record.id next).toHex = some old :=
        hsplit.find?_eq
      rw [hj, hold]
      rfl
    · rfl

omit [LawfulRecord R] in
theorem accounts_drop (hs : v.Ready s) (id : RecordId) :
    v.Accounts (.delete id) s ⟨.deleteOne v.collection (byId id),
        (s.deleteOne v.collection (byId id)).1⟩ (s.deleteOne v.collection (byId id)).2 := by
  obtain ⟨-, he⟩ | ⟨before, old, after, hsplit, he⟩ := s.deleteOne_cases v.collection (byId id)
  · rw [he]
    exact accounts_unchanged hs (fun _ => rfl) fun _ => rfl
  · rw [he]
    refine accounts_withDocuments hs (hs.sound.drop hsplit) fun j => ?_
    show 0 + _ = (id == j).toNat + _
    by_cases hj : j = id
    · subst hj
      have hold : holding? (s.documents v.collection) j.toHex = some old := hsplit.find?_eq
      have hgone : holding? (before ++ after) j.toHex = none := by
        rw [holding?_append, hsplit.after_none hs.sound.unique]
        exact Option.or_eq_none_iff.2 ⟨hsplit.before_none, rfl⟩
      rw [beq_self_eq_true, hold, hgone]
      rfl
    · rw [beq_false_of_ne (Ne.symm hj), hsplit.holding?_drop_of_ne (mt RecordId.toHex_inj.1 hj)]
      rfl

/-- **Every call that a request makes keeps the account.** -/
theorem accounts_perform (hs : v.Ready s) (hc : c.Reads ∨ q.Writes v c) :
    v.Accounts q s ⟨c, (s.perform c).1⟩ (s.perform c).2 := by
  rw [perform, if_pos hs.available]
  rcases hc with hc | hc
  · have hsame : (s.answer c).2 = s := by
      cases c <;> first | rfl | cases hc
    rw [hsame]
    exact accounts_unchanged hs (fun _ => Request.creates_of_reads hc) fun _ =>
      Request.deletes_of_reads hc
  · cases hc with
    | insert hvalid hd => exact accounts_insert hs hvalid hd
    | replace hsame hvalid hd => exact accounts_replace hs hsame hvalid hd
    | drop id => exact accounts_drop hs id

end Vault

/-! ## Requests side by side -/

/-- A request under way: what it has called, with the answers, and what it has still to do. -/
structure Task (R : Type) where
  request : Request R
  made : List Exchange
  rest : Program (Except VaultError request.Reply)

namespace Task

variable {R : Type} [Record R]

/-- The task is a creation under an identifier whose insertion has succeeded. -/
def created (id : RecordId) (t : Task R) : Bool :=
  t.made.any (t.request.creates id)

omit [Record R] in
/-- The task is a deletion under an identifier that has dropped a document. -/
def deleted (id : RecordId) (t : Task R) : Bool :=
  t.made.any (t.request.deletes id)

/-- The task is a creation under an identifier that has ended with its record. -/
def succeeded (id : RecordId) : Task R → Bool
  | ⟨.create r, _, .done (.ok _)⟩ => Record.id r == id
  | _ => false

end Task

namespace Vault

variable {R : Type} [Record R]

/-- The states of an available store on which a vault works, from the time on when its collection is
empty, with the tasks that it has been given. -/
inductive Interleaved (v : Vault R) : List (Task R) → Store → Prop
  | start {s : Store} (available : s.available = true) (empty : s.documents v.collection = []) :
    Interleaved v [] s
  /-- The vault is asked for something. -/
  | ask {tasks : List (Task R)} {s : Store} (h : Interleaved v tasks s) (q : Request R) :
    Interleaved v (⟨q, [], q.operation v⟩ :: tasks) s
  /-- One of the tasks makes its next call. -/
  | call {before after : List (Task R)} {q : Request R} {made : List Exchange} {c : Call}
    {next : Except StoreError c.Reply → Program (Except VaultError q.Reply)} {s : Store}
    (h : Interleaved v (before ++ ⟨q, made, .call c next⟩ :: after) s) :
    Interleaved v
      (before ++ ⟨q, made ++ [⟨c, (s.perform c).1⟩], next (s.perform c).1⟩ :: after) (s.perform c).2

namespace Interleaved

variable [LawfulRecord R] {v : Vault R} {tasks before after : List (Task R)} {s : Store}

/-- What holds of a store and of the tasks that work on it. -/
structure Invariant (v : Vault R) (tasks : List (Task R)) (s : Store) : Prop where
  ready : v.Ready s
  proceeds : ∀ t ∈ tasks, v.Proceeds t.request t.made t.rest
  account (id : RecordId) :
    tasks.countP (Task.created id) = tasks.countP (Task.deleted id) + v.stored s id

omit [Record R] [LawfulRecord R] in
theorem countP_middle (p : Task R → Bool) (t : Task R) :
    (before ++ t :: after).countP p = (before ++ after).countP p + (p t).toNat := by
  rw [List.perm_middle.countP_eq, List.countP_cons]
  cases p t <;> rfl

/-- What the tasks have done so far decides on the account of a step. -/
theorem Invariant.call {q : Request R} {made : List Exchange} {c : Call}
    {next : Except StoreError c.Reply → Program (Except VaultError q.Reply)}
    (h : Invariant v (before ++ ⟨q, made, .call c next⟩ :: after) s) :
    Invariant v (before ++ ⟨q, made ++ [⟨c, (s.perform c).1⟩], next (s.perform c).1⟩ :: after)
      (s.perform c).2 := by
  have hall := h.proceeds
  simp only [List.forall_mem_append, List.forall_mem_cons] at hall
  obtain ⟨hbefore, ⟨⟨hmade, hc⟩, hnext⟩, hafter⟩ := hall
  have hstep := accounts_perform h.ready hc
  refine ⟨hstep.ready, ?_, fun id => ?_⟩
  · simp only [List.forall_mem_append, List.forall_mem_cons]
    exact ⟨hbefore, hnext s h.ready, hafter⟩
  · have hcreated : made.any (q.creates id) = false :=
      List.any_eq_false.2 fun e he => by rw [Request.creates_of_reads (hmade e he)]; nofun
    have hdeleted : made.any (q.deletes id) = false :=
      List.any_eq_false.2 fun e he => by rw [Request.deletes_of_reads (hmade e he)]; nofun
    have haccount := h.account id
    have hbalance := hstep.balance id
    simp only [countP_middle, Task.created, Task.deleted, List.any_append, hcreated, hdeleted,
      List.any_cons, List.any_nil, Bool.false_or, Bool.or_false, Bool.toNat_false] at haccount ⊢
    omega

theorem invariant (h : v.Interleaved tasks s) : Invariant v tasks s := by
  induction h with
  | start available empty =>
    refine ⟨⟨available, ?_⟩, List.forall_mem_nil _, fun id => ?_⟩
    · rw [empty]
      exact ⟨nofun, .nil⟩
    · rw [stored, empty]
      rfl
  | ask h q ih =>
    refine ⟨ih.ready, List.forall_mem_cons.2 ⟨proceeds_operation v q, ih.proceeds⟩, fun id => ?_⟩
    have hcreated : Task.created id ⟨q, [], q.operation v⟩ = false := rfl
    have hdeleted : Task.deleted id ⟨q, [], q.operation v⟩ = false := rfl
    rw [List.countP_cons, List.countP_cons, hcreated, hdeleted]
    exact ih.account id
  | call h ih => exact ih.call

omit [LawfulRecord R] in
/-- A creation that has ended with its record has inserted it. -/
theorem created_of_succeeded {id : RecordId} {t : Task R}
    (ht : v.Proceeds t.request t.made t.rest) (h : t.succeeded id = true) :
    t.created id = true := by
  obtain ⟨q, made, rest⟩ := t
  cases q with
  | create r =>
    cases rest with
    | call c next => cases h
    | done x =>
      cases x with
      | error e => cases h
      | ok r' =>
        obtain rfl : Record.id r = id := eq_of_beq h
        exact ht.1 r' rfl
  | update now r => cases h
  | delete j => cases h
  | find filter => cases h
  | findFirst filter => cases h
  | findById j => cases h

omit [Record R] [LawfulRecord R] in
/-- Where there is no deletion under an identifier, none has dropped a document. -/
theorem countP_deleted_eq_zero {id : RecordId} (h : ∀ t ∈ tasks, t.request ≠ .delete id) :
    tasks.countP (Task.deleted id) = 0 := by
  refine List.countP_eq_zero.2 fun t ht hdeleted => ?_
  obtain ⟨e, -, he⟩ := List.any_eq_true.1 hdeleted
  exact h t ht (Request.eq_delete_of_deletes he)

end Interleaved

/-- **The account of a collection.** However the calls of the requests to a vault are interleaved,
from an empty collection of an available store on, an identifier is stored exactly when one
insertion of it more has succeeded than deletions of it, and all documents are those of valid
records. Without deletions of an identifier at most one creation under it succeeds, and every other
of a valid record ends with the fault that the record exists. -/
theorem interleaved_account (k : RecordKind) (v : Vault k.Carrier) {tasks : List (Task k.Carrier)}
    {s : Store} (h : v.Interleaved tasks s) :
    (∀ id, tasks.countP (Task.created id) = tasks.countP (Task.deleted id) + v.stored s id) ∧
    (∀ d ∈ s.documents v.collection, ∃ r : k.Carrier, Record.toDocument r = .ok d ∧
      Record.validate r = .ok ()) ∧
    ∀ id, (∀ t ∈ tasks, t.request ≠ .delete id) →
      tasks.countP (Task.succeeded id) ≤ 1 ∧
      ∀ r made x, ⟨.create r, made, .done x⟩ ∈ tasks → Record.id r = id →
        Record.validate r = .ok () → x = .ok r ∨ x = .error (v.taken id) := by
  obtain ⟨hready, hproceeds, haccount⟩ := h.invariant
  refine ⟨haccount, hready.sound.records, fun id hkept => ⟨?_, ?_⟩⟩
  · have hle : tasks.countP (Task.succeeded id) ≤ tasks.countP (Task.created id) :=
      List.countP_mono_left fun t ht => Interleaved.created_of_succeeded (hproceeds t ht)
    have hstored : v.stored s id ≤ 1 := Bool.toNat_le _
    have := haccount id
    rw [Interleaved.countP_deleted_eq_zero hkept] at this
    omega
  · rintro r made x ht rfl hvalid
    exact (hproceeds _ ht).2 hvalid

/-- Two creations of one input both look before either inserts it. The second insertion is refused,
and the creation ends with the fault that the record exists. -/
theorem interleaved_account_specimen :
    let v : Vault RecordKind.input.Carrier := ⟨"inputs"⟩
    let r : RecordKind.input.Carrier := Input.specimen .lastLegible
    let looked : Exchange := ⟨.findOne v.collection (byId (Record.id r)), .ok none⟩
    ∃ s inserted refused,
      let tasks : List (Task RecordKind.input.Carrier) :=
        [⟨.create r, [looked, inserted], .done (.ok r)⟩,
          ⟨.create r, [looked, refused], .done (.error (v.taken (Record.id r)))⟩]
      v.Interleaved tasks s ∧ v.stored s (Record.id r) = 1 ∧
      tasks.countP (Task.created (Record.id r)) =
        tasks.countP (Task.deleted (Record.id r)) + v.stored s (Record.id r) ∧
      tasks.countP (Task.succeeded (Record.id r)) ≤ 1 := by
  intro v r looked
  have hvalid : Record.validate r = .ok () := Input.validate_specimen _
  obtain ⟨d, hd⟩ := Record.exists_toDocument r
  have hid := Record.idOf?_toDocument hd
  let s : Store := Store.empty.withDocuments v.collection [d]
  have hdocs : s.documents v.collection = [d] := documents_withDocuments_self ..
  have hlook : Store.empty.perform looked.call = (looked.reply, Store.empty) := rfl
  have hinsert : Store.empty.perform (.insertOne v.collection d) =
      (.ok (Record.id r).toHex, s) := by
    show Store.empty.insertOne v.collection d = _
    rw [insertOne_eq, checkId_eq_ok hid (RecordId.toHex_ne_empty _)]
    rfl
  have hrefuse : s.perform (.insertOne v.collection d) =
      (.error (.duplicateKey v.collection (Record.id r).toHex), s) := by
    show s.insertOne v.collection d = _
    rw [insertOne_eq, checkId_eq_ok hid (RecordId.toHex_ne_empty _), hdocs]
    exact if_pos (by rw [hasId, List.any_cons, hid, beq_self_eq_true, Bool.true_or])
  have h := ((Interleaved.start (v := v) (s := Store.empty) rfl rfl).ask (.create r)).ask
    (.create r)
  simp only [Request.operation, create_eq hvalid hd] at h
  have h₁ := @Interleaved.call _ _ v [] _ _ _ _ _ _ h
  rw [hlook] at h₁
  have h₂ := @Interleaved.call _ _ v [_] [] _ _ _ _ _ h₁
  rw [hlook] at h₂
  have h₃ := @Interleaved.call _ _ v [] _ _ _ _ _ _ h₂
  rw [hinsert] at h₃
  have h₄ := @Interleaved.call _ _ v [_] [] _ _ _ _ _ h₃
  rw [hrefuse] at h₄
  obtain ⟨haccount, -, hwinner⟩ := interleaved_account .input v h₄
  refine ⟨s, _, _, h₄, ?_, haccount _, (hwinner _ ?_).1⟩
  · rw [stored, hdocs, holding?_cons_self hid]
    rfl
  · intro t ht
    rcases List.mem_cons.1 ht with rfl | ht
    · exact fun h => by cases h
    · rw [List.mem_singleton.1 ht]
      exact fun h => by cases h

end Vault

end JobRegistry
