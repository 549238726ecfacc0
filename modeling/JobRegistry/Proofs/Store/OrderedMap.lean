import JobRegistry.Proofs.Store.Changes

/-!
# A collection as an ordered map

A store is used by calls, it can be emptied, and it can go offline and come back (`Command`). After
any run of such commands a collection is an ordered map from identifiers to documents
(`collection_is_ordered_map`): its documents have identifiers, no two the same, a search by
identifier finds what was last written under it, and a search lists documents in the order in which
they were inserted, each as the last update of it left it.

What a command means for one collection is a `Change`. A change deals with each document on its own
(`Change.fate`), and adds at most one, at the end; so what becomes of a document in a run is found
by following it through the changes (`Change.fates`), and what a run has inserted is listed by
`Change.survivors`. What was last written under an identifier is a matter of the changes alone as
well (`Change.lastWritten`).
-/

namespace JobRegistry

/-- What is done to a store. -/
inductive Command
  | call (c : Call)
  | clear
  | setAvailable (available : Bool)

namespace Store

/-- The store after a command. -/
def execute (s : Store) : Command → Store
  | .call c => (s.perform c).2
  | .clear => s.clear
  | .setAvailable available => { s with available }

/-- The store after a run of commands. -/
def executeAll (s : Store) (commands : List Command) : Store :=
  commands.foldl execute s

end Store

/-! ## Changes of a collection -/

/-- What happens to a collection. -/
inductive Change
  | nothing
  | appended (d : Document)
  | replaced (old new : Document)
  | dropped (old : Document)
  | cleared

namespace Change

open Store (idOf? holding?)

/-- What becomes of a document of the collection. -/
def fate : Change → Document → Option Document
  | .nothing, d => some d
  | .appended _, d => some d
  | .replaced old new, d => if idOf? d = idOf? old then some new else some d
  | .dropped old, d => if idOf? d = idOf? old then none else some d
  | .cleared, _ => none

/-- What becomes of a document after a list of changes. -/
def fates : List Change → Document → Option Document
  | [], d => some d
  | change :: later, d => (change.fate d).bind (fates later)

/-- The document that a change inserts. -/
def inserted? : Change → Option Document
  | .appended d => some d
  | _ => none

/-- What is left of the documents that a list of changes inserts, in the order of insertion. -/
def survivors : List Change → List Document
  | [] => []
  | change :: later => change.inserted?.toList.filterMap (fates later) ++ survivors later

/-- The last document written under an identifier that is neither dropped nor replaced by one with
another identifier, given the one before the change. -/
def written (id : String) (last : Option Document) : Change → Option Document
  | .nothing => last
  | .appended d => if idOf? d = some id then some d else last
  | .replaced old new =>
    if idOf? new = some id then some new else if idOf? old = some id then none else last
  | .dropped old => if idOf? old = some id then none else last
  | .cleared => none

/-- The same after a list of changes, where there was none before. -/
def lastWritten (id : String) (changes : List Change) : Option Document :=
  changes.foldl (written id) none

end Change

/-- What a call that succeeds means for the documents of a collection. Of the documents that the
filter accepts it is the first that is replaced or dropped. -/
def Call.change (c : String) (docs : List Document) : Call → Change
  | .insertOne c' d => if c' = c then .appended d else .nothing
  | .updateOne c' filter d =>
    if c' = c then ((docs.find? filter.accepts).map (Change.replaced · d)).getD .nothing
    else .nothing
  | .deleteOne c' filter =>
    if c' = c then ((docs.find? filter.accepts).map Change.dropped).getD .nothing else .nothing
  | _ => .nothing

namespace Store

/-- What a command means for a collection. -/
def change (s : Store) (c : String) : Command → Change
  | .call call =>
    if call.changed (s.perform call).1 then call.change c (s.documents c) else .nothing
  | .clear => .cleared
  | .setAvailable _ => .nothing

/-- What a run of commands means for a collection. -/
def changes (c : String) : Store → List Command → List Change
  | _, [] => []
  | s, command :: later => s.change c command :: changes c (s.execute command) later

/-- A collection with an identifier for each document, no two the same. -/
structure Keyed (docs : List Document) : Prop where
  named : ∀ d ∈ docs, ∃ id, idOf? d = some id ∧ id ≠ ""
  unique : UniqueIds docs

end Store

namespace Change

open Store

/-- How the documents of a collection change. -/
inductive Acts : Change → List Document → List Document → Prop
  | nothing (docs : List Document) : Acts .nothing docs docs
  | appended {docs : List Document} {d : Document} {id : String} (hid : idOf? d = some id)
    (hne : id ≠ "") (hnone : holding? docs id = none) : Acts (.appended d) docs (docs ++ [d])
  | replaced {before after : List Document} {old new : Document} {id : String}
    (hid : idOf? new = some id) (hne : id ≠ "") (hbefore : holding? before id = none)
    (hafter : holding? after id = none) :
    Acts (.replaced old new) (before ++ old :: after) (before ++ new :: after)
  | dropped (before after : List Document) (old : Document) :
    Acts (.dropped old) (before ++ old :: after) (before ++ after)
  | cleared (docs : List Document) : Acts .cleared docs []

end Change

/-! ## What a command does -/

namespace Store

open Change

variable {s s' : Store} {c' : String} {filter : Filter} {d : Document}

/-- A new list of documents for one collection means nothing for the others. -/
theorem acts_withDocuments {change : Change} {docs : List Document} (c : String)
    (h : c' = c → change.Acts (s.documents c) docs) :
    (if c' = c then change else .nothing).Acts (s.documents c)
      ((s.withDocuments c' docs).documents c) := by
  split
  · next hc =>
    have hacts := h hc
    subst hc
    rwa [documents_withDocuments_self]
  · next hc =>
    rw [documents_withDocuments_of_ne s (Ne.symm hc)]
    exact .nothing _

theorem acts_insertOne {id : String} (h : s.insertOne c' d = (.ok id, s')) (c : String) :
    ((Call.insertOne c' d).change c (s.documents c)).Acts (s.documents c) (s'.documents c) := by
  obtain ⟨hid, hne, hnone, rfl⟩ := insertOne_ok h
  refine acts_withDocuments c ?_
  rintro rfl
  exact .appended hid hne hnone

theorem acts_updateOne (h : s.updateOne c' filter d = (.ok true, s')) (c : String) :
    ((Call.updateOne c' filter d).change c (s.documents c)).Acts (s.documents c)
      (s'.documents c) := by
  obtain ⟨id, before, old, after, hid, hne, hsplit, hbefore, hafter, rfl⟩ := updateOne_true h
  refine acts_withDocuments c ?_
  rintro rfl
  rw [hsplit.find?_eq, hsplit.eq]
  exact .replaced hid hne hbefore hafter

theorem acts_deleteOne (h : s.deleteOne c' filter = (.ok true, s')) (c : String) :
    ((Call.deleteOne c' filter).change c (s.documents c)).Acts (s.documents c)
      (s'.documents c) := by
  obtain ⟨before, old, after, hsplit, rfl⟩ := deleteOne_true h
  refine acts_withDocuments c ?_
  rintro rfl
  rw [hsplit.find?_eq, hsplit.eq]
  exact .dropped before after old

/-- A call that says that it has changed something does what it means. -/
theorem acts_answer {call : Call} (h : call.changed (s.answer call).1 = true) (c : String) :
    (call.change c (s.documents c)).Acts (s.documents c) ((s.answer call).2.documents c) := by
  cases call with
  | findOne c' filter => cases h
  | find c' filter => cases h
  | insertOne c' d =>
    rw [answer] at h ⊢
    cases hreply : s.insertOne c' d with
    | mk reply s' =>
      rw [hreply] at h
      cases reply with
      | error e => cases h
      | ok id => exact acts_insertOne hreply c
  | updateOne c' filter d =>
    rw [answer] at h ⊢
    cases hreply : s.updateOne c' filter d with
    | mk reply s' =>
      rw [hreply] at h
      cases reply with
      | error e => cases h
      | ok replaced =>
        obtain rfl : replaced = true := h
        exact acts_updateOne hreply c
  | deleteOne c' filter =>
    rw [answer] at h ⊢
    cases hreply : s.deleteOne c' filter with
    | mk reply s' =>
      rw [hreply] at h
      cases reply with
      | error e => cases h
      | ok dropped =>
        obtain rfl : dropped = true := h
        exact acts_deleteOne hreply c

/-- A command does to a collection what it means for it. -/
theorem acts_execute (s : Store) (c : String) (command : Command) :
    (s.change c command).Acts (s.documents c) ((s.execute command).documents c) := by
  cases command with
  | clear => exact .cleared _
  | setAvailable available => exact .nothing _
  | call call =>
    rw [change, execute]
    split
    · next h =>
      have hperform := (perform_of_changed h).2
      rw [hperform] at h ⊢
      exact acts_answer h c
    · next h =>
      rw [perform_unchanged s call (eq_false_of_ne_true h)]
      exact .nothing _

/-! ## What a change keeps, and what it does to each document -/

theorem keyed_nil : Keyed [] :=
  ⟨nofun, List.Pairwise.nil⟩

section Keyed

variable {docs before after : List Document} {old new : Document} {id : String}

/-- No other document has the identifier of a document. -/
theorem Keyed.ne_of_mem (h : Keyed (before ++ old :: after)) {d : Document}
    (hd : d ∈ before ++ after) : idOf? d ≠ idOf? old := by
  have hnodup : (idOf? old :: (before ++ after).map idOf?).Nodup :=
    (List.perm_middle.map idOf?).nodup_iff.1 h.unique
  intro heq
  refine (List.nodup_cons.1 hnodup).1 ?_
  rw [← heq]
  exact List.mem_map_of_mem hd

theorem Keyed.drop (h : Keyed (before ++ old :: after)) : Keyed (before ++ after) where
  named d hd := h.named d (List.perm_middle.mem_iff.2 (List.mem_cons_of_mem _ hd))
  unique := h.unique.sublist (((List.sublist_cons_self old after).append_left before).map idOf?)

theorem Keyed.add (h : Keyed (before ++ after)) (hid : idOf? new = some id) (hne : id ≠ "")
    (hbefore : holding? before id = none) (hafter : holding? after id = none) :
    Keyed (before ++ new :: after) where
  named d hd := by
    rcases List.mem_cons.1 (List.perm_middle.mem_iff.1 hd) with rfl | hd
    · exact ⟨id, hid, hne⟩
    · exact h.named d hd
  unique := by
    refine (List.perm_middle.map idOf?).nodup_iff.2 (List.nodup_cons.2 ⟨?_, h.unique⟩)
    intro hmem
    obtain ⟨d, hd, heq⟩ := List.mem_map.1 hmem
    rcases List.mem_append.1 hd with hd | hd
    · exact holding?_eq_none.1 hbefore d hd (heq.trans hid)
    · exact holding?_eq_none.1 hafter d hd (heq.trans hid)

/-- A document under another identifier can be left out. -/
theorem holding?_middle_of_ne (h : idOf? old ≠ some id) :
    holding? (before ++ old :: after) id = holding? (before ++ after) id := by
  rw [holding?_append, holding?_cons_of_ne h, ← holding?_append]

theorem Keyed.holding?_middle (h : Keyed (before ++ old :: after)) (hid : idOf? old = some id) :
    holding? (before ++ old :: after) id = some old ∧ holding? (before ++ after) id = none := by
  have hnone : ∀ d ∈ before ++ after, idOf? d ≠ some id := by
    intro d hd
    rw [← hid]
    exact h.ne_of_mem hd
  refine ⟨?_, holding?_eq_none.2 hnone⟩
  rw [holding?_append, holding?_cons_self hid,
    holding?_eq_none.2 fun d hd => hnone d (List.mem_append_left _ hd)]
  rfl

end Keyed

end Store

namespace Change

open Store

variable {change : Change} {docs docs' : List Document}

/-- **A change keeps identifiers apart.** -/
theorem Acts.keyed (h : change.Acts docs docs') (hk : Keyed docs) : Keyed docs' := by
  cases h with
  | nothing => exact hk
  | appended hid hne hnone =>
    rw [← List.append_nil docs] at hk
    exact hk.add hid hne hnone rfl
  | replaced hid hne hbefore hafter => exact hk.drop.add hid hne hbefore hafter
  | dropped => exact hk.drop
  | cleared => exact keyed_nil

theorem filterMap_fate_eq_self {part : List Document} (h : ∀ d ∈ part, change.fate d = some d) :
    part.filterMap change.fate = part := by
  induction part with
  | nil => rfl
  | cons d rest ih =>
    rw [List.filterMap_cons_some (h d List.mem_cons_self),
      ih fun e he => h e (List.mem_cons_of_mem d he)]

/-- **A change deals with each document on its own**, and what it inserts comes last. -/
theorem Acts.eq_filterMap (h : change.Acts docs docs') (hk : Keyed docs) :
    docs' = docs.filterMap change.fate ++ change.inserted?.toList := by
  cases h with
  | nothing =>
    rw [filterMap_fate_eq_self fun _ _ => rfl]
    exact (List.append_nil docs).symm
  | appended =>
    rw [filterMap_fate_eq_self fun _ _ => rfl]
    rfl
  | @replaced before after old new =>
    have hother : ∀ d ∈ before ++ after, fate (.replaced old new) d = some d := fun d hd =>
      if_neg (hk.ne_of_mem hd)
    have hself : fate (.replaced old new) old = some new := if_pos rfl
    rw [List.filterMap_append, List.filterMap_cons_some hself,
      filterMap_fate_eq_self fun d hd => hother d (List.mem_append_left _ hd),
      filterMap_fate_eq_self fun d hd => hother d (List.mem_append_right _ hd)]
    exact (List.append_nil _).symm
  | dropped before after old =>
    have hother : ∀ d ∈ before ++ after, fate (.dropped old) d = some d := fun d hd =>
      if_neg (hk.ne_of_mem hd)
    have hself : fate (.dropped old) old = none := if_pos rfl
    rw [List.filterMap_append, List.filterMap_cons_none hself,
      filterMap_fate_eq_self fun d hd => hother d (List.mem_append_left _ hd),
      filterMap_fate_eq_self fun d hd => hother d (List.mem_append_right _ hd)]
    exact (List.append_nil _).symm
  | cleared =>
    have hgone : docs.filterMap (fate .cleared) = [] := List.filterMap_eq_nil_iff.2 fun _ _ => rfl
    rw [hgone]
    rfl

/-- **What is held under an identifier after a change is what was last written under it.** -/
theorem Acts.holding?_eq (h : change.Acts docs docs') (hk : Keyed docs) (id : String) :
    holding? docs' id = change.written id (holding? docs id) := by
  cases h with
  | nothing => rfl
  | @appended _ d j hid hne hnone =>
    rw [holding?_append_singleton hid hnone, written, hid]
    simp only [Option.some.injEq, eq_comm]
  | @replaced before after old new j hid hne hbefore hafter =>
    rw [written]
    split
    · next hnew =>
      obtain rfl : j = id := Option.some.inj (hid.symm.trans hnew)
      rw [holding?_append, hbefore, holding?_cons_self hnew]
      rfl
    · next hnew =>
      rw [holding?_middle_of_ne hnew]
      split
      · next hold => exact (hk.holding?_middle hold).2
      · next hold => rw [holding?_middle_of_ne hold]
  | dropped before after old =>
    rw [written]
    split
    · next hold => exact (hk.holding?_middle hold).2
    · next hold => rw [holding?_middle_of_ne hold]
  | cleared => rfl

end Change

/-! ## Runs -/

namespace Store

open Change

theorem executeAll_cons (s : Store) (command : Command) (later : List Command) :
    s.executeAll (command :: later) = (s.execute command).executeAll later :=
  rfl

variable {s : Store} {c : String}

theorem keyed_execute (h : Keyed (s.documents c)) (command : Command) :
    Keyed ((s.execute command).documents c) :=
  (acts_execute s c command).keyed h

theorem keyed_executeAll (h : Keyed (s.documents c)) (commands : List Command) :
    Keyed ((s.executeAll commands).documents c) := by
  induction commands generalizing s with
  | nil => exact h
  | cons command later ih => exact ih (keyed_execute h command)

/-- After a run, a collection lists what is left of the documents it had, and then what is left of
those that the run has inserted. -/
theorem documents_executeAll (h : Keyed (s.documents c)) (commands : List Command) :
    (s.executeAll commands).documents c =
      (s.documents c).filterMap (fates (changes c s commands)) ++
        survivors (changes c s commands) := by
  induction commands generalizing s with
  | nil =>
    rw [changes, survivors, show fates [] = some from rfl, List.filterMap_some]
    exact (List.append_nil _).symm
  | cons command later ih =>
    rw [executeAll_cons, ih (keyed_execute h command), (acts_execute s c command).eq_filterMap h,
      List.filterMap_append, List.filterMap_filterMap, List.append_assoc]
    rfl

theorem holding?_executeAll (h : Keyed (s.documents c)) (commands : List Command) (id : String) :
    holding? ((s.executeAll commands).documents c) id =
      (changes c s commands).foldl (written id) (holding? (s.documents c) id) := by
  induction commands generalizing s with
  | nil => rfl
  | cons command later ih =>
    rw [executeAll_cons, ih (keyed_execute h command), (acts_execute s c command).holding?_eq h]
    rfl

/-! ## A collection as an ordered map -/

theorem perform_find (hs : s.available = true) (filter : Filter) :
    (s.perform (.find c filter)).1 = .ok ((s.documents c).filter filter.accepts) := by
  rw [perform, if_pos hs]
  rfl

theorem perform_findOne (hs : s.available = true) (filter : Filter) :
    (s.perform (.findOne c filter)).1 = .ok ((s.documents c).find? filter.accepts) := by
  rw [perform, if_pos hs]
  rfl

/-- **A collection is an ordered map.** After any run of commands on an empty store, the documents
of a collection have identifiers that are not empty, no two the same. While the store is available,
a search lists the documents that the filter accepts in the order in which they were inserted, each
as its last update left it; a search for one document finds the first of these, and a search by
identifier finds what was last written under it. An update that succeeds replaces the document that
a search for one would have found, a deletion drops it, and all else stays in its place. -/
theorem collection_is_ordered_map (commands : List Command) (c : String) :
    let s := Store.empty.executeAll commands
    let history := changes c .empty commands
    (∀ d ∈ s.documents c, ∃ id, idOf? d = some id ∧ id ≠ "") ∧
    (s.documents c).Pairwise (fun d e => idOf? d ≠ idOf? e) ∧
    (s.available = true → ∀ filter : Filter,
      (s.perform (.find c filter)).1 = .ok ((survivors history).filter filter.accepts) ∧
      (s.perform (.findOne c filter)).1 =
        .ok ((survivors history).filter filter.accepts).head?) ∧
    (s.available = true → ∀ id : String,
      (s.perform (.findOne c (Filter.byId id))).1 = .ok (lastWritten id history)) ∧
    (∀ (filter : Filter) (d : Document) (s' : Store),
      s.perform (.updateOne c filter d) = (.ok true, s') →
      ∃ before old after, (s.perform (.findOne c filter)).1 = .ok (some old) ∧
        s.documents c = before ++ old :: after ∧ s'.documents c = before ++ d :: after ∧
        ∀ j ≠ c, s'.documents j = s.documents j) ∧
    ∀ (filter : Filter) (s' : Store), s.perform (.deleteOne c filter) = (.ok true, s') →
      ∃ before old after, (s.perform (.findOne c filter)).1 = .ok (some old) ∧
        s.documents c = before ++ old :: after ∧ s'.documents c = before ++ after ∧
        ∀ j ≠ c, s'.documents j = s.documents j := by
  intro s history
  have hempty : Keyed (Store.empty.documents c) := keyed_nil
  have hkeyed : Keyed (s.documents c) := keyed_executeAll hempty commands
  have hdocs : s.documents c = survivors history := documents_executeAll hempty commands
  refine ⟨hkeyed.named, List.pairwise_map.1 hkeyed.unique, fun hs filter => ⟨?_, ?_⟩,
    fun hs id => ?_, fun filter d s' h => ?_, fun filter s' h => ?_⟩
  · rw [perform_find hs, hdocs]
  · rw [perform_findOne hs, hdocs, List.head?_filter]
  · rw [perform_findOne hs]
    exact congrArg _ (holding?_executeAll hempty commands id)
  · have hchanged : (Call.updateOne c filter d).changed (s.perform (.updateOne c filter d)).1 := by
      rw [h]
      rfl
    obtain ⟨hs, hanswer⟩ := perform_of_changed hchanged
    obtain ⟨id, before, old, after, -, -, hsplit, -, -, rfl⟩ :=
      updateOne_true (hanswer.symm.trans h)
    refine ⟨before, old, after, ?_, hsplit.eq, documents_withDocuments_self s c _,
      fun j hj => documents_withDocuments_of_ne s hj _⟩
    rw [perform_findOne hs, hsplit.find?_eq]
  · have hchanged : (Call.deleteOne c filter).changed (s.perform (.deleteOne c filter)).1 := by
      rw [h]
      rfl
    obtain ⟨hs, hanswer⟩ := perform_of_changed hchanged
    obtain ⟨before, old, after, hsplit, rfl⟩ := deleteOne_true (hanswer.symm.trans h)
    refine ⟨before, old, after, ?_, hsplit.eq, documents_withDocuments_self s c _,
      fun j hj => documents_withDocuments_of_ne s hj _⟩
    rw [perform_findOne hs, hsplit.find?_eq]

/-- Two documents are inserted; the first is given another identifier and the second is dropped and
inserted again, so that a search by the first's old identifier finds nothing. -/
theorem collection_is_ordered_map_specimen :
    let a : Document := ⟨[("_id", .text "a")]⟩
    let b : Document := ⟨[("_id", .text "b")]⟩
    let z : Document := ⟨[("_id", .text "z")]⟩
    let commands : List Command :=
      [.call (.insertOne "c" a), .call (.insertOne "c" b),
        .call (.updateOne "c" (Filter.byId "a") z), .call (.deleteOne "c" (Filter.byId "b")),
        .call (.insertOne "c" b)]
    let s := Store.empty.executeAll commands
    s.available = true ∧
    (s.perform (.find "c" .all)).1 = .ok [z, b] ∧
    (s.perform (.findOne "c" (Filter.byId "a"))).1 = .ok none ∧
    (∃ s', s.perform (.updateOne "c" .all a) = (.ok true, s') ∧ ∃ before old after,
      (s.perform (.findOne "c" .all)).1 = .ok (some old) ∧
      s.documents "c" = before ++ old :: after ∧ s'.documents "c" = before ++ a :: after) ∧
    ∃ s', s.perform (.deleteOne "c" .all) = (.ok true, s') ∧ ∃ before old after,
      (s.perform (.findOne "c" .all)).1 = .ok (some old) ∧
      s.documents "c" = before ++ old :: after ∧ s'.documents "c" = before ++ after := by
  intro a b z commands s
  obtain ⟨-, -, hsearch, hbyId, hupdate, hdelete⟩ := collection_is_ordered_map commands "c"
  -- one store after the other, as each occurs in the run several times
  have h₁ : Store.empty.execute (.call (.insertOne "c" a)) = ⟨[("c", [a])], true⟩ := rfl
  have h₂ : Store.execute ⟨[("c", [a])], true⟩ (.call (.insertOne "c" b)) =
    ⟨[("c", [a, b])], true⟩ := rfl
  have h₃ : Store.execute ⟨[("c", [a, b])], true⟩ (.call (.updateOne "c" (Filter.byId "a") z)) =
    ⟨[("c", [z, b])], true⟩ := rfl
  have h₄ : Store.execute ⟨[("c", [z, b])], true⟩ (.call (.deleteOne "c" (Filter.byId "b"))) =
    ⟨[("c", [z])], true⟩ := rfl
  have h₅ : Store.execute ⟨[("c", [z])], true⟩ (.call (.insertOne "c" b)) =
    ⟨[("c", [z, b])], true⟩ := rfl
  have hs : s = ⟨[("c", [z, b])], true⟩ := by
    simp only [s, commands, executeAll_cons, h₁, h₂, h₃, h₄, h₅]
    rfl
  have hhistory : changes "c" .empty commands =
      [.appended a, .appended b, .replaced a z, .dropped b, .appended b] := by
    simp only [commands, changes, h₁, h₂, h₃, h₄]
    rfl
  rw [hhistory] at hsearch hbyId
  have havailable : s.available = true := by rw [hs]
  refine ⟨havailable, (hsearch havailable .all).1, hbyId havailable "a", ?_, ?_⟩
  · have hperform : s.perform (.updateOne "c" .all a) = (.ok true, ⟨[("c", [a, b])], true⟩) := by
      rw [hs]
      rfl
    obtain ⟨before, old, after, hfound, hdocs, hdocs', -⟩ := hupdate .all a _ hperform
    exact ⟨_, hperform, before, old, after, hfound, hdocs, hdocs'⟩
  · have hperform : s.perform (.deleteOne "c" .all) = (.ok true, ⟨[("c", [b])], true⟩) := by
      rw [hs]
      rfl
    obtain ⟨before, old, after, hfound, hdocs, hdocs', -⟩ := hdelete .all _ hperform
    exact ⟨_, hperform, before, old, after, hfound, hdocs, hdocs'⟩

end Store

end JobRegistry
