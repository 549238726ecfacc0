import JobRegistry.Proofs.Store.Changes
import JobRegistry.Proofs.Vault.History
import JobRegistry.Proofs.Vault.Online
import JobRegistry.Record.Input

/-!
# Failures leave no trace

Whatever fails leaves the store as it was, with the same collections and the same documents in the
same order (`failures_leave_no_trace`): a call that is refused, a call that finds nothing to change,
and an operation of a vault that ends with a fault, wherever in its course the fault arises.

An operation makes at most one call that changes the store, and that call is its last. So there are
two things to see: that the call says so when it changes nothing, and that the operation succeeds
when it changes something. The second is read off what the runs of an operation can end with.
-/

namespace JobRegistry

open Program (Ends)
open Operation Store

/-- Where a run of the operation ends with a fault, all collections are as they were. -/
def Operation.LeavesNoTrace {α : Type} (p : Operation α) : Prop :=
  ∀ (s : Store) (e : VaultError) (s' : Store), Ends p s (.error e) s' →
    s'.collections = s.collections

theorem Operation.LeavesNoTrace.run {α : Type} {p : Operation α} (h : p.LeavesNoTrace) {s : Store}
    {e : VaultError} (he : (p.run s).1 = .error e) : (p.run s).2 = s := by
  have hends : Ends p s (.error e) (p.run s).2 := by
    rw [← he]
    exact Program.ends_run p s
  have hcollections := h s e _ hends
  have havailable : (p.run s).2.available = s.available := Program.available_run p s
  calc (p.run s).2 = ⟨(p.run s).2.collections, (p.run s).2.available⟩ := rfl
    _ = s := by rw [hcollections, havailable]

namespace Vault

variable {P R : Type} [Record R]

/-- What can be asked of a vault. The queries are searches with filters of their own. -/
inductive Offers (v : Vault R) : {α : Type} → Operation α → Prop
  | request (q : Request R) : v.Offers (q.operation v)
  | register {P : Type} [Properties P R] (now : Timestamp) (p : P) : v.Offers (v.register now p)
  | revise {P : Type} [Properties P R] (made now : Timestamp) (p : P) :
    v.Offers (v.revise made p now)

theorem leavesNoTrace_request (v : Vault R) (q : Request R) : (q.operation v).LeavesNoTrace := by
  intro s e s' h
  cases q with
  | create r =>
    obtain ⟨-, hs⟩ | ⟨hx, -⟩ := create_ends h
    · exact hs
    · cases hx
  | update now r =>
    obtain ⟨-, hs⟩ | ⟨-, before, old, after, stored, u, d, -, -, -, hx, -⟩ := update_ends h
    · exact hs
    · cases hx
  | delete id =>
    obtain ⟨-, hs⟩ | ⟨hx, -⟩ := delete_ends h
    · exact hs
    · cases hx
  | find filter => exact find_ends h
  | findFirst filter => exact (findFirst_ends h).1
  | findById id => exact findById_ends h

/-- Making a record of properties calls no store. -/
theorem leavesNoTrace_of_properties [Properties P R] {now : Timestamp} {p : P}
    {next : R → Operation R} (hnext : ∀ r, (next r).LeavesNoTrace) :
    (lift .validation (Properties.create p now) >>= next).LeavesNoTrace := by
  intro s e s' h
  obtain ⟨e', -, hlift⟩ | ⟨r, s₁, hlift, hrest⟩ := ends_bind.1 h
  · rw [(ends_lift.1 hlift).2]
  · obtain ⟨-, rfl⟩ := ends_lift.1 hlift
    exact hnext r s₁ e s' hrest

theorem Offers.leavesNoTrace {v : Vault R} {α : Type} {p : Operation α} (h : v.Offers p) :
    p.LeavesNoTrace := by
  cases h with
  | request q => exact leavesNoTrace_request v q
  | register now p =>
    exact leavesNoTrace_of_properties fun r => leavesNoTrace_request v (.create r)
  | revise made now p =>
    exact leavesNoTrace_of_properties fun r => leavesNoTrace_request v (.update now r)

/-- **What fails leaves no trace.** On any store, available or not, a call that is refused leaves
the store as it was, and so does an update or a deletion that finds no document. An operation of a
vault that ends with a fault leaves the store as it was, and all collections as they were even if
the store goes offline and comes back between its calls. -/
theorem failures_leave_no_trace (v : Vault R) (s : Store) :
    (∀ (call : Call) (e : StoreError), (s.perform call).1 = .error e → (s.perform call).2 = s) ∧
    (∀ (c : String) (filter : Filter) (d : Document),
      (s.perform (.updateOne c filter d)).1 = .ok false →
        (s.perform (.updateOne c filter d)).2 = s) ∧
    (∀ (c : String) (filter : Filter), (s.perform (.deleteOne c filter)).1 = .ok false →
      (s.perform (.deleteOne c filter)).2 = s) ∧
    ∀ {α : Type} (p : Operation α), v.Offers p →
      (∀ e, (p.run s).1 = .error e → (p.run s).2 = s) ∧
      ∀ e s', Ends p s (.error e) s' → s'.collections = s.collections := by
  refine ⟨fun call e he => ?_, fun c filter d hfalse => ?_, fun c filter hfalse => ?_,
    fun p hp => ⟨fun e he => hp.leavesNoTrace.run he, hp.leavesNoTrace s⟩⟩
  · apply s.perform_unchanged
    rw [he]
    cases call <;> rfl
  · apply s.perform_unchanged
    rw [hfalse]
    rfl
  · apply s.perform_unchanged
    rw [hfalse]
    rfl

/-- A collection refuses a second document of one identifier, and neither a deletion of a record
that is not there nor a registration without a service succeeds. While the store is offline no
search does. -/
theorem failures_leave_no_trace_specimen :
    let v : Vault Input := ⟨"inputs"⟩
    let d : Document := ⟨[("_id", .text "a")]⟩
    let s : Store := ⟨[("inputs", [d])], true⟩
    let offline : Store := ⟨[("inputs", [d])], false⟩
    let p : InputProps := ⟨"", "inbox", "imap", "box/1", "eml"⟩
    ((s.perform (.insertOne "inputs" d)).1 = .error (.duplicateKey "inputs" "a") ∧
      (s.perform (.insertOne "inputs" d)).2 = s) ∧
    ((s.perform (.updateOne "inputs" (Filter.byId "b") d)).1 = .ok false ∧
      (s.perform (.updateOne "inputs" (Filter.byId "b") d)).2 = s) ∧
    ((s.perform (.deleteOne "inputs" (Filter.byId "b"))).1 = .ok false ∧
      (s.perform (.deleteOne "inputs" (Filter.byId "b"))).2 = s) ∧
    (((v.delete .null).run s).1 = .error (v.missing .null) ∧ ((v.delete .null).run s).2 = s) ∧
    (((v.register .lastLegible p).run s).1 =
      .error (.validation ⟨"input", [⟨"service", "is required"⟩]⟩) ∧
      ((v.register .lastLegible p).run s).2 = s) ∧
    (v.findAll.run offline).1 = .error (.ofStore (.unavailable "in-memory store is offline")) ∧
      (v.findAll.run offline).2 = offline := by
  intro v d s offline p
  obtain ⟨hcall, hupdate, hdelete, hoperation⟩ := failures_leave_no_trace v s
  have hinsert : (s.perform (.insertOne "inputs" d)).1 = .error (.duplicateKey "inputs" "a") := rfl
  have hmissing : (s.perform (.updateOne "inputs" (Filter.byId "b") d)).1 = .ok false := rfl
  have hgone : (s.perform (.deleteOne "inputs" (Filter.byId "b"))).1 = .ok false := rfl
  have hdrop : ((v.delete .null).run s).1 = .error (v.missing .null) := rfl
  have hviolations : Check.violations (Record.checks (Properties.draft p .lastLegible)) =
    [⟨"service", "is required"⟩] := by decide +kernel
  have hcreate : Properties.create p .lastLegible =
      .error ⟨"input", [⟨"service", "is required"⟩]⟩ := by
    rw [Properties.create, Record.identify, Check.run, hviolations]
    rfl
  have hregister : ((v.register .lastLegible p).run s).1 =
      .error (.validation ⟨"input", [⟨"service", "is required"⟩]⟩) := by
    rw [register, hcreate]
    rfl
  have hfind : (v.findAll.run offline).1 =
    .error (.ofStore (.unavailable "in-memory store is offline")) := rfl
  obtain ⟨-, -, -, hsearch⟩ := failures_leave_no_trace v offline
  exact ⟨⟨hinsert, hcall _ _ hinsert⟩, ⟨hmissing, hupdate _ _ _ hmissing⟩,
    ⟨hgone, hdelete _ _ hgone⟩,
    ⟨hdrop, (hoperation _ (.request (.delete .null))).1 _ hdrop⟩,
    ⟨hregister, (hoperation _ (.register .lastLegible p)).1 _ hregister⟩,
    hfind, (hsearch _ (.request (.find .all))).1 _ hfind⟩

end Vault

end JobRegistry
