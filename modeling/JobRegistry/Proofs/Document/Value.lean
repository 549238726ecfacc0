import JobRegistry.Proofs.Document.Entries

/-!
# Values

Values are built from arrays and documents of values, and what holds of a value whenever it holds of
the values in it holds of all values (`Value.induction`). A value is distinct (`Value.Distinct`) if
no document in it has a key twice; entries that are put, dropped or put one after another keep it so
(`Distinct.put`, `Distinct.drop`, `distinct_ofList`).
-/

namespace JobRegistry.Value

/-- Induction over values: arrays and documents by what they hold. -/
@[elab_as_elim]
theorem induction {motive : Value → Prop} (null : motive .null) (bool : ∀ b, motive (.bool b))
    (int : ∀ n, motive (.int n)) (float : ∀ x, motive (.float x)) (text : ∀ s, motive (.text s))
    (array : ∀ items, (∀ v ∈ items, motive v) → motive (.array items))
    (document : ∀ entries : Entries, (∀ e ∈ entries, motive e.2) → motive (.document entries)) :
    ∀ v, motive v :=
  @Value.rec motive (fun items => ∀ v ∈ items, motive v) (fun entries => ∀ e ∈ entries, motive e.2)
    (fun e => motive e.2) null bool int float text array document (List.forall_mem_nil _)
    (fun _ _ hv hrest => List.forall_mem_cons.2 ⟨hv, hrest⟩) (List.forall_mem_nil _)
    (fun _ _ he hrest => List.forall_mem_cons.2 ⟨he, hrest⟩) (fun _ _ h => h)

/-! ## Item by item -/

theorem treeItems_eq_map (items : List Value) : treeItems items = items.map tree := by
  induction items with
  | nil => rfl
  | cons v rest ih => rw [treeItems, ih, List.map_cons]

theorem treeMembers_eq_map (entries : List (String × Value)) :
    treeMembers entries = entries.map fun e => (e.1, e.2.tree) := by
  induction entries with
  | nil => rfl
  | cons e rest ih => rw [treeMembers, ih, List.map_cons]

theorem ofItems_eq_map (items : List Json) : ofItems items = items.map ofJson := by
  induction items with
  | nil => rfl
  | cons j rest ih => rw [ofItems, ih, List.map_cons]

theorem ofMembers_eq_map (members : List (String × Json)) :
    ofMembers members = members.map fun m => (m.1, ofJson m.2) := by
  induction members with
  | nil => rfl
  | cons m rest ih => rw [ofMembers, ih, List.map_cons]

theorem ofWrittenItems_eq_map (items : List Json) : ofWrittenItems items = items.map ofWritten := by
  induction items with
  | nil => rfl
  | cons j rest ih => rw [ofWrittenItems, ih, List.map_cons]

theorem ofWrittenMembers_eq_map (members : List (String × Json)) :
    ofWrittenMembers members = members.map fun m => (m.1, ofWritten m.2) := by
  induction members with
  | nil => rfl
  | cons m rest ih => rw [ofWrittenMembers, ih, List.map_cons]

/-! ## Distinct values -/

/-- No document in the value has a key twice. -/
inductive Distinct : Value → Prop
  | null : Distinct .null
  | bool (b : Bool) : Distinct (.bool b)
  | int (n : Number.Signed64) : Distinct (.int n)
  | float (x : Number.Double) : Distinct (.float x)
  | text (s : String) : Distinct (.text s)
  | array {items : List Value} (h : ∀ v ∈ items, Distinct v) : Distinct (.array items)
  | document {entries : Entries} (keys : (entries.map Prod.fst).Nodup)
    (h : ∀ e ∈ entries, Distinct e.2) : Distinct (.document entries)

theorem distinct_empty : (document []).Distinct :=
  .document List.nodup_nil (List.forall_mem_nil _)

theorem Distinct.put {entries : Entries} (h : (Value.document entries).Distinct) (key : String)
    {v : Value} (hv : v.Distinct) : (Value.document (Entries.put key v entries)).Distinct := by
  cases h with
  | document keys h =>
    refine .document (Entries.nodup_put keys key v) fun e he => ?_
    rcases Entries.mem_put he with rfl | he
    · exact hv
    · exact h e he

theorem Distinct.drop {entries : Entries} (h : (Value.document entries).Distinct) (key : String) :
    (Value.document (Entries.drop key entries)).Distinct := by
  cases h with
  | document keys h =>
    exact .document (Entries.nodup_drop keys key) fun e he => h e (Entries.mem_drop he)

theorem distinct_ofList {pairs : List (String × Value)} (h : ∀ p ∈ pairs, p.2.Distinct) :
    (document (Entries.ofList pairs)).Distinct :=
  .document (Entries.nodup_ofList pairs) fun e he => h e (Entries.mem_ofList he)

theorem distinct_singleton (key : String) {v : Value} (h : v.Distinct) :
    (document [(key, v)]).Distinct :=
  distinct_empty.put key h

end JobRegistry.Value

namespace JobRegistry.Document

theorem ofValue_eq_ok {v : Value} {d : Document} : ofValue v = .ok d ↔ v = d.toValue := by
  obtain ⟨entries⟩ := d
  cases v <;> simp [ofValue, toValue]

end JobRegistry.Document
