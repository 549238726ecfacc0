import JobRegistry.Proofs.Vault.Soundness

/-!
# Vaults side by side

Requests need not wait for each other: a request is a program that calls the store a few times, and
between its calls other requests call it, on the same collection or on others. `Division.Reachable`
lists the states in which a store can be while vaults work on it in this way, with what every
request that is under way has still to do. The store goes offline and comes back as it likes, and a
request may be dropped halfway: it is then just never continued.

`Program.Keeps` says that every call of a program keeps an invariant of the store, from whatever
store with that invariant it is made. Since all requests keep all collections sound
(`keeps_operation`), every reachable store is sound (`Reachable.sound`).
-/

namespace JobRegistry

open Store

/-! ## Programs that keep an invariant -/

namespace Program

variable {α β : Type} {I : Store → Prop} {Q : α → Prop} {Q' : β → Prop}

/-- Every call of the program keeps an invariant of the store, and its result has a property, if
others that call the store in between keep the invariant too. -/
def Keeps (I : Store → Prop) (Q : α → Prop) : Program α → Prop
  | .done a => Q a
  | .call c next => ∀ s, I s → I (s.perform c).2 ∧ Keeps I Q (next (s.perform c).1)

theorem keeps_bind {p : Program α} {f : α → Program β} (hp : p.Keeps I Q)
    (hf : ∀ a, Q a → (f a).Keeps I Q') : (p.bind f).Keeps I Q' := by
  induction p with
  | done a => exact hf a hp
  | call c next ih =>
    intro s hs
    obtain ⟨hI, hnext⟩ := hp s hs
    exact ⟨hI, ih _ hnext⟩

theorem Keeps.map {p : Program α} (hp : p.Keeps I Q) (f : α → β) :
    (p.map f).Keeps I fun _ => True :=
  keeps_bind hp fun _ _ => trivial

theorem Keeps.mono {p : Program α} {Q' : α → Prop} (hp : p.Keeps I Q) (hQ : ∀ a, Q a → Q' a) :
    p.Keeps I Q' := by
  induction p with
  | done a => exact hQ a hp
  | call c next ih => exact fun s hs => ⟨(hp s hs).1, ih _ (hp s hs).2⟩

/-- One call of a program that keeps an invariant. -/
theorem Keeps.step {p p' : Program α} {s s' : Store} (h : p.Keeps I Q) (hs : I s)
    (hstep : Step (p, s) (p', s')) : I s' ∧ p'.Keeps I Q := by
  cases hstep with
  | call c next => exact h s hs

end Program

namespace Operation

variable {α β ε : Type} {I : Store → Prop} {Q : α → Prop} {Q' : β → Prop}

/-- Every call of the operation keeps an invariant, and if it succeeds its result has a property. -/
def Keeps (I : Store → Prop) (Q : α → Prop) (p : Operation α) : Prop :=
  Program.Keeps I (fun x => ∀ a, x = .ok a → Q a) p

theorem keeps_pure {a : α} (h : Q a) : Keeps I Q (pure a) := by
  rintro _ ⟨⟩
  exact h

theorem keeps_fail {e : VaultError} : Keeps I Q (fail e) :=
  nofun

theorem keeps_lift {report : ε → VaultError} {e : Except ε α} (h : ∀ a, e = .ok a → Q a) :
    Keeps I Q (lift report e) := by
  cases e with
  | error e => exact keeps_fail
  | ok a => exact keeps_pure (h a rfl)

theorem keeps_ask {c : Call} {Q : c.Reply → Prop}
    (h : ∀ s, I s → I (s.perform c).2 ∧ ∀ a, (s.perform c).1 = .ok a → Q a) :
    Keeps I Q (ask c) := by
  intro s hs
  obtain ⟨hI, hQ⟩ := h s hs
  refine ⟨hI, fun a ha => hQ a ?_⟩
  cases hr : (s.perform c).1 with
  | error e =>
    rw [hr] at ha
    cases ha
  | ok b =>
    rw [hr] at ha
    rw [Except.ok.inj ha]

theorem keeps_bind {p : Operation α} {f : α → Operation β} (hp : Keeps I Q p)
    (hf : ∀ a, Q a → Keeps I Q' (f a)) : Keeps I Q' (p >>= f) := by
  apply Program.keeps_bind hp
  intro x hx
  cases x with
  | error e => exact keeps_fail
  | ok a => exact hf a (hx a rfl)

end Operation

/-! ## The collections of vaults -/

/-- Which kind of records each collection is for. -/
def Division : Type := String → RecordKind

namespace Division

/-- The vault over a collection. -/
def vault (g : Division) (c : String) : Vault (g c).Carrier := ⟨c⟩

/-- Every collection holds documents of valid records of its kind, no two with one identifier. -/
def Sound (g : Division) (s : Store) : Prop :=
  ∀ c, JobRegistry.Sound (g c).Carrier (s.documents c)

variable {g : Division} {s s' : Store} {c : String}

theorem sound_empty (g : Division) : g.Sound Store.empty :=
  fun _ => ⟨nofun, .nil⟩

theorem Sound.withDocuments (h : g.Sound s) {docs : List Document}
    (hdocs : JobRegistry.Sound (g c).Carrier docs) : g.Sound (s.withDocuments c docs) := by
  intro j
  by_cases hj : j = c
  · subst hj
    rwa [documents_withDocuments_self]
  · rw [documents_withDocuments_of_ne s hj]
    exact h j

/-- A call that keeps its collection sound when it is answered keeps all of them sound. -/
theorem Sound.perform (h : g.Sound s) {call : Call} (ha : g.Sound (s.answer call).2) :
    g.Sound (s.perform call).2 := by
  unfold Store.perform
  split
  · exact ha
  · exact h

/-! ## Requests keep collections sound -/

open Operation Vault

theorem Sound.insertOne (h : g.Sound s) {r : (g c).Carrier} {d : Document}
    (hvalid : Record.validate r = .ok ()) (hd : Record.toDocument r = .ok d) :
    g.Sound (s.insertOne c d).2 := by
  obtain ⟨e, he⟩ | ⟨id, hid, hfresh, he⟩ := s.insertOne_cases c d
  · rwa [he]
  · rw [he]
    rw [Record.idOf?_toDocument hd, Option.some.injEq] at hid
    exact h.withDocuments ((h c).append hvalid hd (hid ▸ hfresh))

theorem Sound.updateOne (h : g.Sound s) {r : (g c).Carrier} {d : Document}
    (hvalid : Record.validate r = .ok ()) (hd : Record.toDocument r = .ok d) :
    g.Sound (s.updateOne c (byId (Record.id r)) d).2 := by
  obtain ⟨e, he⟩ | ⟨-, he⟩ | ⟨before, old, after, hsplit, he⟩ :=
    s.updateOne_cases c (byId (Record.id r)) d
  · rwa [he]
  · rwa [he]
  · rw [he]
    exact h.withDocuments ((h c).replace hsplit hvalid hd)

theorem Sound.deleteOne (h : g.Sound s) (id : RecordId) : g.Sound (s.deleteOne c (byId id)).2 := by
  obtain ⟨-, he⟩ | ⟨before, old, after, hsplit, he⟩ := s.deleteOne_cases c (byId id)
  · rwa [he]
  · rw [he]
    exact h.withDocuments ((h c).drop hsplit)

theorem keeps_find (g : Division) (c : String) (filter : Filter) :
    Keeps g.Sound (fun _ => True) ((g.vault c).find filter) := by
  unfold find
  apply keeps_bind (Q := fun _ => True)
  · exact keeps_ask fun s hs => ⟨hs.perform hs, fun _ _ => trivial⟩
  · intro docs _
    exact keeps_lift fun _ _ => trivial

/-- What a search reads is a valid record. -/
theorem keeps_findFirst (g : Division) (c : String) (filter : Filter) :
    Keeps g.Sound (fun found => ∀ r, found = some r → Record.validate r = .ok ())
      ((g.vault c).findFirst filter) := by
  unfold findFirst
  apply keeps_bind (Q := fun found : Option Document => ∀ d, found = some d →
    ∃ r : (g c).Carrier, Record.toDocument r = .ok d ∧ Record.validate r = .ok ())
  · apply keeps_ask
    intro s hs
    refine ⟨hs.perform hs, fun found hfound d hd => ?_⟩
    subst hd
    unfold Store.perform at hfound
    split at hfound
    · exact (hs c).records d (List.mem_of_find?_eq_some (Except.ok.inj hfound))
    · cases hfound
  · intro found hfound
    cases found with
    | none => exact keeps_pure nofun
    | some d =>
      apply keeps_bind (Q := fun r : (g c).Carrier => Record.validate r = .ok ())
      · apply keeps_lift
        intro r hr
        obtain ⟨r₀, hd, hvalid⟩ := hfound d rfl
        rwa [eq_of_decode hd hr]
      · intro r hr
        apply keeps_pure
        rintro _ ⟨⟩
        exact hr

theorem keeps_findById (g : Division) (c : String) (id : RecordId) :
    Keeps g.Sound (fun _ => True) ((g.vault c).findById id) := by
  unfold findById
  apply keeps_bind (keeps_findFirst g c (byId id))
  intro found _
  cases found with
  | none => exact keeps_fail
  | some r => exact keeps_pure trivial

theorem keeps_create (g : Division) (c : String) (r : (g c).Carrier) :
    Keeps g.Sound (fun _ => True) ((g.vault c).create r) := by
  unfold create
  apply keeps_bind (Q := fun _ => Record.validate r = .ok ())
  · exact keeps_lift fun _ h => h
  intro _ hvalid
  apply keeps_bind (Q := fun _ => True)
  · exact keeps_ask fun s hs => ⟨hs.perform hs, fun _ _ => trivial⟩
  intro found _
  cases found with
  | some d => exact keeps_fail
  | none =>
    apply keeps_bind (Q := fun d => Record.toDocument r = .ok d)
    · exact keeps_lift fun _ h => h
    intro d hd
    apply keeps_bind (Q := fun _ => True)
    · exact keeps_ask fun s hs =>
        ⟨hs.perform (hs.insertOne hvalid hd), fun _ _ => trivial⟩
    · intro _ _
      exact keeps_pure trivial

/-- Other requests may have changed or deleted the stored record between the reading and the writing
of an update. What is written is valid all the same, because what was read was. -/
theorem keeps_update (g : Division) (c : String) (now : Timestamp) (r : (g c).Carrier) :
    Keeps g.Sound (fun _ => True) ((g.vault c).update now r) := by
  unfold update
  apply keeps_bind (Q := fun _ => Record.validate r = .ok ())
  · exact keeps_lift fun _ h => h
  intro _ hvalid
  apply keeps_bind (keeps_findFirst g c (byId (Record.id r)))
  intro found hfound
  cases found with
  | none => exact keeps_fail
  | some stored =>
    have hstored := hfound stored rfl
    cases hu : updateTime? now (Record.updatedAt stored) with
    | none =>
      simp only [hu]
      exact keeps_fail
    | some u =>
      simp only [hu]
      apply keeps_bind (Q := fun d =>
        Record.toDocument (Record.withTimes r (Record.createdAt stored) u) = .ok d)
      · exact keeps_lift fun _ h => h
      intro d hd
      apply keeps_bind (Q := fun _ => True)
      · apply keeps_ask
        intro s hs
        have hnext := hs.updateOne (validate_updated hvalid hstored hu) hd
        rw [LawfulRecord.id_withTimes] at hnext
        exact ⟨hs.perform hnext, fun _ _ => trivial⟩
      · intro replaced _
        cases replaced with
        | true => exact keeps_pure trivial
        | false => exact keeps_fail

theorem keeps_delete (g : Division) (c : String) (id : RecordId) :
    Keeps g.Sound (fun _ => True) ((g.vault c).delete id) := by
  unfold delete
  apply keeps_bind (Q := fun _ => True)
  · exact keeps_ask fun s hs => ⟨hs.perform (hs.deleteOne id), fun _ _ => trivial⟩
  · intro deleted _
    cases deleted with
    | true => exact keeps_pure trivial
    | false => exact keeps_fail

/-- **Every call of every request keeps all collections sound.** -/
theorem keeps_operation (g : Division) (c : String) (q : Request (g c).Carrier) :
    Keeps g.Sound (fun _ => True) (q.operation (g.vault c)) := by
  cases q with
  | create r => exact keeps_create g c r
  | update now r => exact keeps_update g c now r
  | delete id => exact keeps_delete g c id
  | find filter => exact keeps_find g c filter
  | findFirst filter => exact (keeps_findFirst g c filter).mono fun _ _ _ _ => trivial
  | findById id => exact keeps_findById g c id

/-! ## Reachable stores -/

/-- A request, with its result left aside. -/
def request (g : Division) (c : String) (q : Request (g c).Carrier) : Program Unit :=
  Program.map (fun _ => ()) (q.operation (g.vault c))

/-- The states of a store on which vaults work, from an empty store on, with what the requests under
way have still to do. -/
inductive Reachable (g : Division) : List (Program Unit) → Store → Prop
  | start : Reachable g [] Store.empty
  /-- A vault is asked for something. -/
  | ask {running : List (Program Unit)} {s : Store} (h : Reachable g running s) (c : String)
    (q : Request (g c).Carrier) : Reachable g (g.request c q :: running) s
  /-- One of the requests makes its next call. -/
  | call {before after : List (Program Unit)} {p p' : Program Unit} {s s' : Store}
    (h : Reachable g (before ++ p :: after) s) (step : Program.Step (p, s) (p', s')) :
    Reachable g (before ++ p' :: after) s'
  /-- The store goes offline or comes back. -/
  | switch {running : List (Program Unit)} {s : Store} (h : Reachable g running s)
    (available : Bool) : Reachable g running { s with available }

variable {running : List (Program Unit)}

theorem Reachable.invariant (h : g.Reachable running s) :
    g.Sound s ∧ ∀ p ∈ running, p.Keeps g.Sound fun _ => True := by
  induction h with
  | start => exact ⟨g.sound_empty, nofun⟩
  | ask h c q ih =>
    refine ⟨ih.1, List.forall_mem_cons.2 ⟨?_, ih.2⟩⟩
    exact (keeps_operation g c q).map _
  | call h step ih =>
    obtain ⟨hs, hrunning⟩ := ih
    simp only [List.forall_mem_append, List.forall_mem_cons] at hrunning ⊢
    obtain ⟨hs', hp'⟩ := hrunning.2.1.step hs step
    exact ⟨hs', hrunning.1, hp', hrunning.2.2⟩
  | switch h available ih => exact ih

/-- **Every reachable store is sound.** -/
theorem Reachable.sound (h : g.Reachable running s) : g.Sound s :=
  h.invariant.1

/-- A request under way may run to its end. -/
theorem Reachable.ends {p : Program Unit} {a : Unit} (h : g.Reachable (p :: running) s)
    (hp : p.Ends s a s') : g.Reachable (.done a :: running) s' := by
  induction hp with
  | done a s => exact h
  | call available rest ih =>
    apply ih
    exact @Reachable.call g [] running _ _ _ _ (h.switch available) (.call ..)

/-- A request that is made and runs to its end. -/
theorem Reachable.run {k : RecordKind} (h : g.Reachable running s) (hk : g c = k)
    {q : Request k.Carrier} {x : Except VaultError q.Reply}
    (hq : (q.operation (⟨c⟩ : Vault k.Carrier)).run s = (x, s')) :
    g.Reachable (.done () :: running) s' := by
  subst hk
  exact (h.ask c q).ends (Program.ends_bind.2 ⟨x, s', Program.ends_of_run hq, .done ..⟩)

end Division

end JobRegistry
