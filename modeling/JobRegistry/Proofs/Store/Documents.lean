import JobRegistry.Proofs.Filter
import JobRegistry.Proofs.Sorted

/-!
# Collections as maps from identifiers

A collection is a list of documents, and a call that names an identifier looks for the first
document that has it (`Store.holding?`). This module says how that document changes as documents
are appended, replaced and dropped, so that what happens under one identifier can be followed
without looking at the others.

Replacing and dropping go by a split of the list at the first document with the identifier
(`Store.Split`), which is what the store computes.
-/

namespace JobRegistry

namespace Store

/-! ## Documents under an identifier -/

/-- The first document with an identifier. -/
def holding? (docs : List Document) (id : String) : Option Document :=
  docs.find? (Filter.byId id).accepts

theorem holding?_append (docs docs' : List Document) (id : String) :
    holding? (docs ++ docs') id = (holding? docs id).or (holding? docs' id) :=
  List.find?_append

theorem holding?_cons_self {d : Document} {id : String} (h : idOf? d = some id)
    (rest : List Document) : holding? (d :: rest) id = some d :=
  List.find?_cons_of_pos (Filter.accepts_byId.2 h)

theorem holding?_cons_of_ne {d : Document} {id : String} (h : idOf? d ≠ some id)
    (rest : List Document) : holding? (d :: rest) id = holding? rest id :=
  List.find?_cons_of_neg (mt Filter.accepts_byId.1 h)

theorem holding?_eq_none {docs : List Document} {id : String} :
    holding? docs id = none ↔ ∀ d ∈ docs, idOf? d ≠ some id := by
  simp only [holding?, List.find?_eq_none, Filter.accepts_byId]

theorem mem_of_holding? {docs : List Document} {id : String} {d : Document}
    (h : holding? docs id = some d) : d ∈ docs :=
  List.mem_of_find?_eq_some h

theorem hasId_eq_false {docs : List Document} {id : String} :
    hasId id docs = false ↔ holding? docs id = none := by
  simp [hasId, holding?_eq_none]

/-- A list of documents, split at the first that a filter accepts. -/
structure Split (docs : List Document) (filter : Filter) (before : List Document) (d : Document)
    (after : List Document) : Prop where
  eq : docs = before ++ d :: after
  accepts : filter.accepts d = true
  before_none : before.find? filter.accepts = none

theorem splitAt?_eq_none {docs : List Document} {filter : Filter} :
    splitAt? filter docs = none ↔ docs.find? filter.accepts = none := by
  induction docs with
  | nil => exact iff_of_true rfl rfl
  | cons d rest ih =>
    rw [splitAt?]
    by_cases h : filter.accepts d = true
    · rw [if_pos h, List.find?_cons_of_pos h]
      simp
    · rw [if_neg h, List.find?_cons_of_neg h, Option.map_eq_none_iff, ih]

theorem splitAt?_eq_some {docs before after : List Document} {filter : Filter} {d : Document}
    (h : splitAt? filter docs = some (before, d, after)) : Split docs filter before d after := by
  induction docs generalizing before with
  | nil => cases h
  | cons e rest ih =>
    rw [splitAt?] at h
    by_cases he : filter.accepts e = true
    · rw [if_pos he] at h
      cases h
      exact ⟨rfl, he, rfl⟩
    · rw [if_neg he, Option.map_eq_some_iff] at h
      obtain ⟨⟨before', d', after'⟩, h, heq⟩ := h
      cases heq
      obtain ⟨rfl, hd, hb⟩ := ih h
      exact ⟨rfl, hd, (List.find?_cons_of_neg he).trans hb⟩

namespace Split

theorem find?_eq {docs before after : List Document} {filter : Filter} {d : Document}
    (h : Split docs filter before d after) : docs.find? filter.accepts = some d := by
  rw [h.eq, List.find?_append, h.before_none, List.find?_cons_of_pos h.accepts]
  rfl

/-- Around the only document there is nothing. -/
theorem nil_of_singleton {before after : List Document} {filter : Filter} {d e : Document}
    (h : Split [e] filter before d after) : before = [] ∧ after = [] := by
  obtain ⟨hb, ha⟩ | ⟨-, ha⟩ := List.append_eq_singleton_iff.1 h.eq.symm
  · exact ⟨hb, (List.cons.inj ha).2⟩
  · cases ha

variable {docs before after : List Document} {id : String} {d : Document}

theorem idOf?_eq (h : Split docs (Filter.byId id) before d after) : idOf? d = some id :=
  Filter.accepts_byId.1 h.accepts

/-- Replacing the document changes what is held under its identifier only. -/
theorem holding?_replace (h : Split docs (Filter.byId id) before d after) {e : Document}
    (he : idOf? e = some id) (j : String) :
    holding? (before ++ e :: after) j = if j = id then some e else holding? docs j := by
  split
  · next hj =>
    subst hj
    exact (Split.mk rfl (Filter.accepts_byId.2 he) h.before_none).find?_eq
  · next hj =>
    have hne {x : Document} (hx : idOf? x = some id) : idOf? x ≠ some j := by
      rw [hx]
      rintro ⟨⟩
      exact hj rfl
    rw [h.eq, holding?_append, holding?_append, holding?_cons_of_ne (hne he),
      holding?_cons_of_ne (hne h.idOf?_eq)]

/-- Dropping the document changes nothing under other identifiers. -/
theorem holding?_drop_of_ne (h : Split docs (Filter.byId id) before d after) {j : String}
    (hj : j ≠ id) : holding? (before ++ after) j = holding? docs j := by
  have hne : idOf? d ≠ some j := by
    rw [h.idOf?_eq]
    rintro ⟨⟩
    exact hj rfl
  rw [h.eq, holding?_append, holding?_append, holding?_cons_of_ne hne]

theorem map_idOf?_replace (h : Split docs (Filter.byId id) before d after) {e : Document}
    (he : idOf? e = some id) : (before ++ e :: after).map idOf? = docs.map idOf? := by
  rw [h.eq, List.map_append, List.map_append, List.map_cons, List.map_cons, he, h.idOf?_eq]

/-- What is left after replacing the document was there before, the replacement apart. -/
theorem mem_replace (h : Split docs (Filter.byId id) before d after) {e x : Document}
    (hx : x ∈ before ++ e :: after) : x = e ∨ x ∈ docs := by
  rw [h.eq]
  rcases List.mem_append.1 hx with hx | hx
  · exact .inr (List.mem_append_left _ hx)
  · rcases List.mem_cons.1 hx with rfl | hx
    · exact .inl rfl
    · exact .inr (List.mem_append_right _ (List.mem_cons_of_mem _ hx))

theorem drop_sublist (h : Split docs (Filter.byId id) before d after) :
    (before ++ after).Sublist docs := by
  rw [h.eq]
  exact (List.sublist_cons_self d after).append_left before

end Split

/-- Appending a document changes what is held under its identifier only. -/
theorem holding?_append_singleton {docs : List Document} {id : String} {d : Document}
    (hd : idOf? d = some id) (h : holding? docs id = none) (j : String) :
    holding? (docs ++ [d]) j = if j = id then some d else holding? docs j := by
  rw [holding?_append]
  split
  · next hj =>
    subst hj
    rw [h, holding?_cons_self hd]
    rfl
  · next hj =>
    rw [holding?_cons_of_ne (by rw [hd]; rintro ⟨⟩; exact hj rfl)]
    exact Option.or_none

/-- A collection without two documents of one identifier. -/
def UniqueIds (docs : List Document) : Prop :=
  (docs.map idOf?).Nodup

theorem UniqueIds.append_singleton {docs : List Document} {id : String} {d : Document}
    (h : UniqueIds docs) (hd : idOf? d = some id) (hnone : holding? docs id = none) :
    UniqueIds (docs ++ [d]) := by
  rw [UniqueIds, List.map_append, List.nodup_append]
  refine ⟨h, List.pairwise_singleton _ _, fun a ha b hb hab => ?_⟩
  obtain ⟨e, he, rfl⟩ := List.mem_map.1 ha
  rw [List.map_singleton, List.mem_singleton] at hb
  exact holding?_eq_none.1 hnone e he (hab.trans (hb.trans hd))

/-- After the first document with an identifier there is no other. -/
theorem Split.after_none {docs before after : List Document} {id : String} {d : Document}
    (h : Split docs (Filter.byId id) before d after) (hu : UniqueIds docs) :
    holding? after id = none := by
  rw [UniqueIds, h.eq, List.map_append, List.nodup_append] at hu
  have := (List.nodup_cons.1 hu.2.1).1
  refine holding?_eq_none.2 fun e he heq => this ?_
  rw [h.idOf?_eq, ← heq]
  exact List.mem_map_of_mem he

/-! ## Collections -/

theorem documents_withDocuments_self (s : Store) (c : String) (docs : List Document) :
    (s.withDocuments c docs).documents c = docs := by
  rw [documents, documents?, withDocuments, Sorted.lookup_insert_self]
  rfl

theorem documents_withDocuments_of_ne (s : Store) {c j : String} (h : j ≠ c)
    (docs : List Document) : (s.withDocuments c docs).documents j = s.documents j := by
  rw [documents, documents?, withDocuments, Sorted.lookup_insert_of_ne h, documents, documents?]

theorem documents_congr {s s' : Store} (h : s'.collections = s.collections) (c : String) :
    s'.documents c = s.documents c := by
  rw [documents, documents?, h, documents, documents?]

theorem documents_opened (s : Store) (c : String) : (s.opened c).documents c = s.documents c := by
  unfold opened
  split
  · rfl
  · next h =>
    rw [documents_withDocuments_self, documents, h]
    rfl

/-- A collection that holds a document need not be made. -/
theorem opened_of_ne_nil {s : Store} {c : String} (h : s.documents c ≠ []) : s.opened c = s := by
  unfold opened
  split
  · rfl
  · next hnone => exact absurd (by rw [documents, hnone]; rfl) h

theorem withDocuments_opened (s : Store) (c : String) (docs : List Document) :
    (s.opened c).withDocuments c docs = s.withDocuments c docs := by
  unfold opened
  split
  · rfl
  · rw [withDocuments, withDocuments, withDocuments, Sorted.insert_insert]

/-! ## Calls that change a collection -/

theorem checkId_eq_ok {c : String} {d : Document} {id : String} (h : idOf? d = some id)
    (hne : id ≠ "") : checkId c d = .ok id := by
  rw [checkId, h]
  exact if_neg (by rwa [String.isEmpty_iff])

/-- An insertion comes down to one change of the collection, or to none: an identifier that is
taken is that of a document, so that the collection had been made before. -/
theorem insertOne_eq (s : Store) (c : String) (d : Document) : s.insertOne c d =
    match checkId c d with
    | .error e => (.error e, s)
    | .ok id =>
      if hasId id (s.documents c) then (.error (.duplicateKey c id), s)
      else (.ok id, s.withDocuments c (s.documents c ++ [d])) := by
  unfold insertOne
  cases checkId c d with
  | error e => rfl
  | ok id =>
    simp only [documents_opened]
    split
    · next h =>
      rw [opened_of_ne_nil]
      rintro hnil
      rw [hnil] at h
      cases h
    · rw [withDocuments_opened]

theorem insertOne_cases (s : Store) (c : String) (d : Document) :
    (∃ e, s.insertOne c d = (.error e, s)) ∨ ∃ id, idOf? d = some id ∧
      holding? (s.documents c) id = none ∧
      s.insertOne c d = (.ok id, s.withDocuments c (s.documents c ++ [d])) := by
  rw [insertOne_eq]
  unfold checkId
  cases hid : idOf? d with
  | none => exact .inl ⟨_, rfl⟩
  | some id =>
    by_cases hempty : id.isEmpty = true
    · exact .inl ⟨.missingId c, by simp only [if_pos hempty]⟩
    · simp only [if_neg hempty]
      by_cases hdup : hasId id (s.documents c) = true
      · exact .inl ⟨_, if_pos hdup⟩
      · exact .inr ⟨id, rfl, hasId_eq_false.1 (eq_false_of_ne_true hdup), if_neg hdup⟩

/-- An update under an identifier keeps identifiers apart if they were. -/
theorem updateOne_byId {s : Store} {c id : String} {d old : Document} (hne : id ≠ "")
    (hd : idOf? d = some id) (hu : UniqueIds (s.documents c))
    (hold : holding? (s.documents c) id = some old) :
    ∃ before after, Split (s.documents c) (Filter.byId id) before old after ∧
      s.updateOne c (Filter.byId id) d = (.ok true, s.withDocuments c (before ++ d :: after)) := by
  cases hsplit : splitAt? (Filter.byId id) (s.documents c) with
  | none =>
    have := splitAt?_eq_none.1 hsplit
    cases hold.symm.trans this
  | some split =>
    obtain ⟨before, old', after⟩ := split
    have h := splitAt?_eq_some hsplit
    obtain rfl := Option.some.inj (hold.symm.trans h.find?_eq)
    refine ⟨before, after, h, ?_⟩
    simp only [updateOne, checkId_eq_ok hd hne, hsplit, hasId_eq_false.2 h.before_none,
      hasId_eq_false.2 (h.after_none hu)]
    rfl

theorem updateOne_cases (s : Store) (c : String) (filter : Filter) (d : Document) :
    (∃ e, s.updateOne c filter d = (.error e, s)) ∨
      ((s.documents c).find? filter.accepts = none ∧
        s.updateOne c filter d = (.ok false, s)) ∨
      ∃ before old after, Split (s.documents c) filter before old after ∧
        s.updateOne c filter d = (.ok true, s.withDocuments c (before ++ d :: after)) := by
  unfold updateOne
  cases checkId c d with
  | error e => exact .inl ⟨e, rfl⟩
  | ok id =>
    cases hsplit : splitAt? filter (s.documents c) with
    | none => exact .inr (.inl ⟨splitAt?_eq_none.1 hsplit, rfl⟩)
    | some split =>
      obtain ⟨before, old, after⟩ := split
      by_cases hdup : (hasId id before || hasId id after) = true
      · exact .inl ⟨_, if_pos hdup⟩
      · exact .inr (.inr ⟨before, old, after, splitAt?_eq_some hsplit, if_neg hdup⟩)

theorem deleteOne_cases (s : Store) (c : String) (filter : Filter) :
    ((s.documents c).find? filter.accepts = none ∧ s.deleteOne c filter = (.ok false, s)) ∨
      ∃ before old after, Split (s.documents c) filter before old after ∧
        s.deleteOne c filter = (.ok true, s.withDocuments c (before ++ after)) := by
  unfold deleteOne
  cases hsplit : splitAt? filter (s.documents c) with
  | none => exact .inl ⟨splitAt?_eq_none.1 hsplit, rfl⟩
  | some split =>
    obtain ⟨before, old, after⟩ := split
    exact .inr ⟨before, old, after, splitAt?_eq_some hsplit, rfl⟩

end Store

end JobRegistry
