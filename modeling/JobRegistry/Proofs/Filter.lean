import JobRegistry.Proofs.Document.Path
import JobRegistry.Store.Basic

/-!
# Filters and their conjunctions

However a conjunction is put together, it lists its parts one level deep: `Filter.parts` are the
parts of a filter, and `Filter.and` appends them (`and_eq`), but for the filter that accepts every
document and has no parts. So conjunctions that differ only in how they were put together are the
same filter (`and_and`), and what a conjunction accepts and the identifier that it asks for can be
said of its two sides (`accepts_and`, `id?_and`).

A document that a filter accepts has the identifier that the filter asks for
(`get?_idKey_of_id?`). A filter on the items of an array asks for none, for those items are not the
document.
-/

namespace JobRegistry

theorem Value.beq_text {v : Value} {s : String} : (v == .text s) = true ↔ v = .text s := by
  show v.eqv (.text s) = true ↔ _
  cases v <;> simp [Value.eqv]

namespace Filter

/-! ## Filters for identifiers -/

theorem accepts_byId {id : String} {d : Document} :
    (byId id).accepts d = true ↔ Store.idOf? d = some id := by
  have hpath : d.getPath? idKey = d.get? idKey := Document.getPath?_of_not_mem (by decide)
  rw [byId, eqText, accepts, hpath, Store.idOf?]
  cases d.get? idKey with
  | none => simp
  | some v =>
    rw [Option.bind_some]
    exact Value.beq_text.trans (by cases v <;> simp [Value.text?])

/-! ## Conjunctions -/

/-- What a filter is the conjunction of. -/
def parts : Filter → List Filter
  | .all => []
  | .allOf fs => fs
  | f => [f]

theorem all_and (f : Filter) : all.and f = f := rfl

theorem and_all (f : Filter) : f.and all = f := by
  cases f <;> rfl

/-- A conjunction has the parts of both sides. -/
theorem and_eq {f g : Filter} (hf : f ≠ all) (hg : g ≠ all) :
    f.and g = allOf (f.parts ++ g.parts) := by
  cases f with
  | all => exact absurd rfl hf
  | _ =>
    cases g with
    | all => exact absurd rfl hg
    | _ => rfl

/-- One side of a conjunction has nothing to say, or the conjunction has the parts of both. -/
theorem and_cases (f g : Filter) : f = all ∧ f.and g = g ∨ g = all ∧ f.and g = f ∨
    f.and g = allOf (f.parts ++ g.parts) := by
  by_cases hf : f = all
  · exact .inl ⟨hf, by rw [hf, all_and]⟩
  by_cases hg : g = all
  · exact .inr (.inl ⟨hg, by rw [hg, and_all]⟩)
  exact .inr (.inr (and_eq hf hg))

/-- **Conjunctions do not depend on how they are put together.** -/
theorem and_and (f g h : Filter) : (f.and g).and h = f.and (g.and h) := by
  by_cases hf : f = all
  · rw [hf, all_and, all_and]
  by_cases hg : g = all
  · rw [hg, and_all, all_and]
  by_cases hh : h = all
  · rw [hh, and_all, and_all]
  have hne (fs : List Filter) : allOf fs ≠ all := nofun
  rw [and_eq hf hg, and_eq hg hh, and_eq (hne _) hh, and_eq hf (hne _)]
  exact congrArg allOf (List.append_assoc ..)

theorem accepts_all (d : Document) : all.accepts d = true := by
  rw [accepts]

theorem allAccept_append (fs gs : List Filter) (d : Document) :
    allAccept (fs ++ gs) d = (allAccept fs d && allAccept gs d) := by
  induction fs with
  | nil => rfl
  | cons f fs ih => rw [List.cons_append, allAccept, allAccept, ih, Bool.and_assoc]

theorem allAccept_parts (f : Filter) (d : Document) : allAccept f.parts d = f.accepts d := by
  cases f <;> simp [parts, allAccept, accepts]

/-- A conjunction accepts what both of its sides accept. -/
theorem accepts_and (f g : Filter) (d : Document) :
    (f.and g).accepts d = (f.accepts d && g.accepts d) := by
  obtain ⟨rfl, h⟩ | ⟨rfl, h⟩ | h := and_cases f g
  · rw [h, accepts_all, Bool.true_and]
  · rw [h, accepts_all, Bool.and_true]
  · rw [h, accepts, allAccept_append, allAccept_parts, allAccept_parts]

/-! ## The identifier that a filter asks for -/

theorem id?_all : all.id? = none := by
  rw [id?] <;> nofun

theorem firstId?_append (fs gs : List Filter) :
    firstId? (fs ++ gs) = (firstId? fs).or (firstId? gs) := by
  induction fs with
  | nil => rfl
  | cons f fs ih => rw [List.cons_append, firstId?, firstId?, ih, Option.or_assoc]

theorem firstId?_parts (f : Filter) : firstId? f.parts = f.id? := by
  cases f <;> simp [parts, firstId?, id?]

/-- A conjunction asks for the identifier that its first side asks for, or else its second. -/
theorem id?_and (f g : Filter) : (f.and g).id? = f.id?.or g.id? := by
  obtain ⟨rfl, h⟩ | ⟨rfl, h⟩ | h := and_cases f g
  · rw [h, id?_all, Option.none_or]
  · rw [h, id?_all, Option.or_none]
  · rw [h, id?, firstId?_append, firstId?_parts, firstId?_parts]

theorem idOf?_eq_some {d : Document} {id : String} :
    Store.idOf? d = some id ↔ d.get? idKey = some (.text id) := by
  rw [Store.idOf?]
  cases d.get? idKey with
  | none => simp
  | some v => cases v <;> simp [Value.text?]

mutual

/-- The identifier that a filter asks for is that of every document it accepts. -/
theorem get?_idKey_of_id? {id : String} {d : Document} : (f : Filter) → f.id? = some id →
    f.accepts d = true → d.get? idKey = some (.text id)
  | .all, h, _ => nomatch h
  | .eq path v, h, hd => by
    rw [id?] at h
    split at h
    · next hpath =>
      obtain rfl : v = .text id := by cases v <;> simp_all [Value.text?]
      rw [hpath] at hd
      exact idOf?_eq_some.1 (accepts_byId.1 hd)
    · cases h
  | .allOf fs, h, hd => by
    rw [id?] at h
    rw [accepts] at hd
    exact get?_idKey_of_firstId? fs h hd
  | .elem _ _, h, _ => nomatch h

/-- The same for filters that all accept a document. -/
theorem get?_idKey_of_firstId? {id : String} {d : Document} : (fs : List Filter) →
    firstId? fs = some id → allAccept fs d = true → d.get? idKey = some (.text id)
  | [], h, _ => nomatch h
  | f :: fs, h, hd => by
    rw [firstId?] at h
    rw [allAccept, Bool.and_eq_true] at hd
    cases hf : f.id? with
    | some i =>
      rw [hf, Option.some_or] at h
      exact get?_idKey_of_id? f (hf.trans h) hd.1
    | none =>
      rw [hf, Option.none_or] at h
      exact get?_idKey_of_firstId? fs h hd.2

end

/-! ## The laws of conjunctions -/

/-- **The algebra of filters.** Conjunctions accept what both sides accept, are the same filter
however they are put together, with the filter for every document as their unit, and ask for the
first identifier that one of their sides asks for. A document that a filter accepts has under `_id`
the identifier that the filter asks for, if it asks for one. -/
theorem conjunction_laws (f g h : Filter) (d : Document) :
    ((f.and g).accepts d = true ↔ f.accepts d = true ∧ g.accepts d = true) ∧
    (f.and g).and h = f.and (g.and h) ∧ all.and f = f ∧ f.and all = f ∧
    (f.and g).id? = f.id?.or g.id? ∧
    ∀ id, f.id? = some id → f.accepts d = true → d.get? idKey = some (.text id) :=
  ⟨by rw [accepts_and, Bool.and_eq_true], and_and f g h, all_and f, and_all f, id?_and f g,
    fun _ => get?_idKey_of_id? f⟩

/-- A filter that asks for one identifier of the document and for another of an item in it. -/
theorem conjunction_laws_nested :
    let f := (elem "dependsOn" (byId "auth")).and ((eqText "service" "billing").and (byId "c1"))
    let d := Document.ofList [("service", .text "billing"),
      ("dependsOn", .array [.document [(idKey, .text "auth")]]), (idKey, .text "c1")]
    f.id? = some "c1" ∧ f.accepts d = true ∧ d.get? idKey = some (.text "c1") := by
  intro f d
  have hid : f.id? = some "c1" := by decide
  have haccepts : f.accepts d = true := by decide
  exact ⟨hid, haccepts, (conjunction_laws f .all .all d).2.2.2.2.2 "c1" hid haccepts⟩

end Filter

end JobRegistry
