import Mathlib.Data.Fin.VecNotation
import Mathlib.Data.List.Nodup
import Mathlib.Logic.Function.Basic
import JobRegistry.Proofs.Record.Kinds
import JobRegistry.Proofs.Settings.Soundness
import JobRegistry.Proofs.Store.Locality
import JobRegistry.Proofs.Vault.Failure
import JobRegistry.Registry

/-!
# Vaults do not show in each other

The four vaults of a registry share one store, and requests to them may take turns in any way
(`Move`): each makes its next call, or runs to its end, while the store goes offline and comes back.
Sound settings keep the collections of the vaults apart, and every request to a vault calls for its
own collection only (`Offers.uses`). So what becomes of the requests to one vault, and of its
collection, is the same as if there had been no requests to the others (`vaults_isolated`).

The step is `Alike.turn` for a request that is made in both runs and `Alike.skip` for one that is
made in one of them, and the run is `Alike.afterAll`.
-/

namespace JobRegistry

open Store (AgreeOn)

/-! ## Requests use one collection -/

namespace Operation

variable {α β ε : Type} {c : String}

theorem uses_lift {report : ε → VaultError} {e : Except ε α} :
    Program.Uses c (lift report e) := by
  cases e <;> exact trivial

theorem uses_ask {asked : Call} (h : asked.collection = c) : Program.Uses c (ask asked) :=
  ⟨h, fun _ => trivial⟩

theorem uses_bind {p : Operation α} {f : α → Operation β} (hp : Program.Uses c p)
    (hf : ∀ a, Program.Uses c (f a)) : Program.Uses c (p >>= f : Operation β) := by
  apply Program.uses_bind hp
  intro x
  cases x with
  | error e => exact trivial
  | ok a => exact hf a

end Operation

namespace Vault

open Operation

variable {R : Type} [Record R] (v : Vault R)

theorem uses_find (filter : Filter) : Program.Uses v.collection (v.find filter) :=
  uses_bind (uses_ask rfl) fun _ => uses_lift

theorem uses_findFirst (filter : Filter) : Program.Uses v.collection (v.findFirst filter) := by
  apply uses_bind (uses_ask rfl)
  intro found
  cases found with
  | none => exact trivial
  | some d => exact uses_bind uses_lift fun _ => trivial

theorem uses_findById (id : RecordId) : Program.Uses v.collection (v.findById id) := by
  apply uses_bind (v.uses_findFirst (byId id))
  intro found
  cases found <;> exact trivial

theorem uses_create (r : R) : Program.Uses v.collection (v.create r) := by
  apply uses_bind uses_lift
  intro _
  apply uses_bind (uses_ask rfl)
  intro found
  cases found with
  | some d => exact trivial
  | none => exact uses_bind uses_lift fun _ => uses_bind (uses_ask rfl) fun _ => trivial

theorem uses_update (now : Timestamp) (r : R) : Program.Uses v.collection (v.update now r) := by
  apply uses_bind uses_lift
  intro _
  apply uses_bind (v.uses_findFirst _)
  intro found
  cases found with
  | none => exact trivial
  | some stored =>
    dsimp only
    split
    · exact trivial
    · apply uses_bind uses_lift
      intro d
      apply uses_bind (uses_ask rfl)
      intro replaced
      cases replaced <;> exact trivial

omit [Record R] in
theorem uses_delete (id : RecordId) : Program.Uses v.collection (v.delete id) := by
  apply uses_bind (uses_ask rfl)
  intro deleted
  cases deleted <;> exact trivial

theorem uses_request (q : Request R) : Program.Uses v.collection (q.operation v) := by
  cases q with
  | create r => exact v.uses_create r
  | update now r => exact v.uses_update now r
  | delete id => exact v.uses_delete id
  | find filter => exact v.uses_find filter
  | findFirst filter => exact v.uses_findFirst filter
  | findById id => exact v.uses_findById id

variable {v}

/-- **What is asked of a vault calls for the collection of the vault only.** -/
theorem Offers.uses {α : Type} {p : Operation α} (h : v.Offers p) :
    Program.Uses v.collection p := by
  cases h with
  | request q => exact v.uses_request q
  | register now p => exact uses_bind uses_lift fun r => v.uses_create r
  | revise made now p => exact uses_bind uses_lift fun r => v.uses_update now r

end Vault

/-! ## Requests that take turns -/

namespace Program

variable {α : Type}

/-- The next call of a program, or all calls that are left, with what is to do after that. -/
def proceed (whole : Bool) (p : Program α) (s : Store) : Program α × Store :=
  match whole, p with
  | true, p => (.done (p.run s).1, (p.run s).2)
  | false, .done a => (.done a, s)
  | false, .call asked next => (next (s.perform asked).1, (s.perform asked).2)

variable {c : String} {p : Program α} {s s' : Store}

theorem Uses.proceed (hp : p.Uses c) (whole : Bool) (s : Store) : (p.proceed whole s).1.Uses c := by
  cases whole with
  | true => exact trivial
  | false =>
    cases p with
    | done a => exact trivial
    | call asked next => exact hp.2 _

theorem Uses.proceed_agree (hp : p.Uses c) (whole : Bool) (h : AgreeOn c s s') :
    (p.proceed whole s).1 = (p.proceed whole s').1 ∧
      AgreeOn c (p.proceed whole s).2 (p.proceed whole s').2 := by
  cases whole with
  | true =>
    obtain ⟨hresult, hafter⟩ := hp.run_agree h
    exact ⟨congrArg Program.done hresult, hafter⟩
  | false =>
    cases p with
    | done a => exact ⟨rfl, h⟩
    | call asked next =>
      obtain ⟨hreply, hafter⟩ := h.perform hp.1
      exact ⟨congrArg next hreply, hafter⟩

theorem Uses.proceed_elsewhere {j : String} (hp : p.Uses j) (hj : j ≠ c) (whole : Bool)
    (s : Store) : AgreeOn c (p.proceed whole s).2 s := by
  cases whole with
  | true => exact hp.run_elsewhere hj s
  | false =>
    cases p with
    | done a => exact .refl c s
    | call asked next => exact Store.perform_elsewhere (hp.1 ▸ hj) s

end Program

/-- What happens next. -/
inductive Move (ι : Type)
  /-- The store goes offline or comes back. -/
  | switch (available : Bool)
  /-- A request makes its next call, or all calls that are left. -/
  | turn (i : ι) (whole : Bool)

/-- Whether a move is one of certain requests, or of the store itself. -/
def Move.concerns {ι : Type} (own : ι → Bool) : Move ι → Bool
  | .switch _ => true
  | .turn i _ => own i

/-- A store, and what each of a number of requests has still to do on it. -/
structure Scene {ι : Type} (α : ι → Type) where
  left : (i : ι) → Program (α i)
  store : Store

namespace Scene

variable {ι : Type} [DecidableEq ι] {α : ι → Type}

/-- The scene after a move. -/
def after (sc : Scene α) : Move ι → Scene α
  | .switch available => { sc with store := { sc.store with available } }
  | .turn i whole =>
    let next := (sc.left i).proceed whole sc.store
    ⟨Function.update sc.left i next.1, next.2⟩

/-- The scene after some moves. -/
def afterAll (sc : Scene α) (moves : List (Move ι)) : Scene α :=
  moves.foldl after sc

/-- The scenes cannot be told apart by certain requests, which in the first of them are those that
use a collection. -/
structure Alike (own : ι → Bool) (c : String) (sc sc' : Scene α) : Prop where
  left : ∀ i, own i = true → sc.left i = sc'.left i
  uses : ∀ i, ∃ j, (sc.left i).Uses j ∧ (own i = true ↔ j = c)
  store : AgreeOn c sc.store sc'.store

variable {own : ι → Bool} {c : String} {sc sc' : Scene α}

theorem Alike.switch (h : Alike own c sc sc') (available : Bool) :
    Alike own c (sc.after (.switch available)) (sc'.after (.switch available)) :=
  ⟨h.left, h.uses, h.store.switch available⟩

/-- A request keeps using its collection. -/
theorem Alike.uses_after (h : Alike own c sc sc') (i : ι) (whole : Bool) (i' : ι) :
    ∃ j, ((sc.after (.turn i whole)).left i').Uses j ∧ (own i' = true ↔ j = c) := by
  obtain ⟨j, huses, hown⟩ := h.uses i'
  refine ⟨j, ?_, hown⟩
  by_cases hi : i' = i
  · subst hi
    simp only [after, Function.update_self]
    exact huses.proceed whole sc.store
  · simp only [after, Function.update_of_ne hi]
    exact huses

/-- One of the requests moves in both scenes. -/
theorem Alike.turn (h : Alike own c sc sc') {i : ι} (hi : own i = true) (whole : Bool) :
    Alike own c (sc.after (.turn i whole)) (sc'.after (.turn i whole)) := by
  obtain ⟨j, huses, hown⟩ := h.uses i
  obtain rfl := hown.1 hi
  obtain ⟨hleft, hstore⟩ := huses.proceed_agree whole h.store
  rw [h.left i hi] at hleft hstore
  refine ⟨fun i' hi' => ?_, h.uses_after i whole, ?_⟩
  · by_cases heq : i' = i
    · subst heq
      simp only [after, Function.update_self, h.left i' hi, hleft]
    · simp only [after, Function.update_of_ne heq, h.left i' hi']
  · simp only [after, h.left i hi]
    exact hstore

/-- Another request moves in the first scene only. -/
theorem Alike.skip (h : Alike own c sc sc') {i : ι} (hi : own i = false) (whole : Bool) :
    Alike own c (sc.after (.turn i whole)) sc' := by
  obtain ⟨j, huses, hown⟩ := h.uses i
  have hj : j ≠ c := fun hj => absurd (hown.2 hj) (by simp [hi])
  refine ⟨fun i' hi' => ?_, h.uses_after i whole, ?_⟩
  · have hne : i' ≠ i := by
      rintro rfl
      rw [hi] at hi'
      cases hi'
    simp only [after, Function.update_of_ne hne, h.left i' hi']
  · exact (huses.proceed_elsewhere hj whole sc.store).trans h.store

/-- **The moves of other requests make no difference.** -/
theorem Alike.afterAll (h : Alike own c sc sc') (moves : List (Move ι)) :
    Alike own c (sc.afterAll moves) (sc'.afterAll (moves.filter (Move.concerns own))) := by
  induction moves generalizing sc sc' with
  | nil => exact h
  | cons move moves ih =>
    cases move with
    | switch available => exact ih (h.switch available)
    | turn i whole =>
      cases hi : own i with
      | true =>
        rw [List.filter_cons_of_pos (show Move.concerns own (.turn i whole) = true from hi)]
        exact ih (h.turn hi whole)
      | false =>
        rw [List.filter_cons_of_neg (by simp [Move.concerns, hi])]
        exact ih (h.skip hi whole)

end Scene

/-! ## The vaults of a registry -/

namespace CollectionNames

/-- The name of the collection for a kind of records. -/
def ofKind (c : CollectionNames) : RecordKind → String
  | .config => c.configs
  | .output => c.outputs
  | .schema => c.schemas
  | .input => c.inputs

/-- Names that are apart tell the kinds apart. -/
theorem ofKind_inj {c : CollectionNames} (h : c.all.Nodup) {k k' : RecordKind} :
    c.ofKind k = c.ofKind k' ↔ k = k' := by
  refine ⟨fun he => ?_, congrArg _⟩
  have hmem (k : RecordKind) : k ∈ [RecordKind.config, .output, .schema, .input] := by
    cases k <;> decide
  have hnodup : ([RecordKind.config, .output, .schema, .input].map c.ofKind).Nodup := h
  exact List.inj_on_of_nodup_map hnodup (hmem k) (hmem k') he

end CollectionNames

namespace Registry

/-- The vault for a kind of records. -/
def vault (r : Registry) : (k : RecordKind) → Vault k.Carrier
  | .config => r.configs
  | .output => r.outputs
  | .schema => r.schemas
  | .input => r.inputs

theorem collection_vault (s : Settings) (k : RecordKind) :
    ((ofSettings s).vault k).collection = s.collections.ofKind k := by
  cases k <;> rfl

/-- **Vaults are isolated.** Settings that are read from a document are sound, and settings pass the
check exactly if they are. With sound settings, let any requests be made to the four vaults, with
whatever readings of the clock, and let them take turns in any way on any store, which goes offline
and comes back at times. Then the requests to one vault have come as far and to the same results,
and its collection holds the same documents in the same order, as if no other request had made a
move. -/
theorem vaults_isolated :
    (∀ (text : String) (s : Settings), Settings.ofToml text = .ok s → s.Sound) ∧
    (∀ s : Settings, s.checked = .ok s ↔ s.Sound) ∧
    ∀ s : Settings, s.Sound → ∀ {ι : Type} [DecidableEq ι] {α : ι → Type} (kind : ι → RecordKind)
      (requests : (i : ι) → Operation (α i)),
      (∀ i, ((ofSettings s).vault (kind i)).Offers (requests i)) →
      ∀ (store : Store) (moves : List (Move ι)) (k : RecordKind),
        let mixed := (Scene.mk requests store).afterAll moves
        let alone := (Scene.mk requests store).afterAll
          (moves.filter (Move.concerns fun i => kind i = k))
        (∀ i, kind i = k → mixed.left i = alone.left i) ∧
          mixed.store.documents? ((ofSettings s).vault k).collection =
            alone.store.documents? ((ofSettings s).vault k).collection := by
  refine ⟨fun _ _ => Settings.sound_of_ofToml, fun _ => Settings.checked_eq_ok, ?_⟩
  intro s hs ι _ α kind requests hoffered store moves k mixed alone
  have huses (i : ι) : ∃ c, (requests i).Uses c ∧
      (decide (kind i = k) = true ↔ c = ((ofSettings s).vault k).collection) := by
    refine ⟨_, (hoffered i).uses, ?_⟩
    rw [collection_vault, collection_vault, CollectionNames.ofKind_inj hs.apart, decide_eq_true_eq]
  have hstart : Scene.Alike (fun i => kind i = k) ((ofSettings s).vault k).collection
      (Scene.mk requests store) (Scene.mk requests store) :=
    ⟨fun _ _ => rfl, huses, .refl _ _⟩
  have hend := hstart.afterAll moves
  exact ⟨fun i hi => hend.left i (decide_eq_true hi), hend.store.documents?⟩

/-- Two deletions of one identifier from the inputs, with one from the configurations between them.
Before the last the store goes offline, so that it is refused. -/
theorem vaults_isolated_specimen :
    let r := ofSettings .standard
    let kind : Fin 3 → RecordKind := ![.input, .config, .input]
    let requests : Fin 3 → Operation Unit :=
      ![r.inputs.delete .null, r.configs.delete .null, r.inputs.delete .null]
    let d : Document := ⟨[("_id", .text RecordId.null.toHex)]⟩
    let store : Store := ⟨[("configs", [d]), ("inputs", [d])], true⟩
    let moves : List (Move (Fin 3)) := [.turn 0 false, .turn 1 true, .switch false, .turn 2 true]
    let mixed := (Scene.mk requests store).afterAll moves
    let alone := (Scene.mk requests store).afterAll
      (moves.filter (Move.concerns fun i => kind i = .input))
    Settings.standard.Sound ∧ (∀ i, (r.vault (kind i)).Offers (requests i)) ∧
      mixed.store.size "configs" = 0 ∧ alone.left 0 = .done (.ok ()) ∧
      alone.left 2 = .done (.error (.ofStore (.unavailable "in-memory store is offline"))) ∧
      alone.store.size "inputs" = 0 ∧ alone.store.size "configs" = 1 := by
  intro r kind requests d store moves mixed alone
  have hsound : Settings.standard.Sound := Settings.fault?_eq_none.1 (by decide)
  have hoffered (i : Fin 3) : (r.vault (kind i)).Offers (requests i) :=
    match i with
    | 0 => .request (.delete .null)
    | 1 => .request (.delete .null)
    | 2 => .request (.delete .null)
  obtain ⟨hleft, hdocuments⟩ :=
    vaults_isolated.2.2 .standard hsound kind requests hoffered store moves .input
  have hsize : alone.store.size "inputs" = mixed.store.size "inputs" :=
    congrArg (fun docs => (docs.getD []).length) hdocuments.symm
  have hempty : mixed.store.size "inputs" = 0 := by decide +kernel
  exact ⟨hsound, hoffered, by decide +kernel, (hleft 0 rfl).symm.trans rfl,
    (hleft 2 rfl).symm.trans rfl, hsize.trans hempty, by decide +kernel⟩

end Registry

end JobRegistry
