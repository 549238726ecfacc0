import JobRegistry.Proofs.Document.Made
import JobRegistry.Proofs.Json.Compact

/-!
# Documents on the wire

A document travels as the compact JSON text of its tree, with its entries in their own order. The
tree of a value without repeated keys is read as that value (`ofWritten_tree`), with every integer
an integer and every float a float, unless a float has no place in JSON. Arrays and documents are
nested in the value as deep as they are in the tree (`depth_tree`), and the tree is read from its
text if that is no deeper than the reader goes and its floats are given back from their numerals. So
a document is received as it was sent (`ofWire_wire`).
-/

namespace JobRegistry

open Number

namespace Value

/-! ## Floats and depth -/

mutual

/-- The floats in a value, from its front to its end. -/
def floats : Value → List Double
  | .float x => [x]
  | .array items => floatsOfItems items
  | .document entries => floatsOfEntries entries
  | _ => []

/-- The floats in items. -/
def floatsOfItems : List Value → List Double
  | [] => []
  | v :: rest => floats v ++ floatsOfItems rest

/-- The floats in entries. -/
def floatsOfEntries : List (String × Value) → List Double
  | [] => []
  | (_, v) :: rest => floats v ++ floatsOfEntries rest

end

mutual

/-- How deep arrays and documents are nested in a value. -/
def depth : Value → Nat
  | .array items => depthOfItems items + 1
  | .document entries => depthOfEntries entries + 1
  | _ => 0

/-- How deep they are nested in items. -/
def depthOfItems : List Value → Nat
  | [] => 0
  | v :: rest => max (depth v) (depthOfItems rest)

/-- How deep they are nested in entries. -/
def depthOfEntries : List (String × Value) → Nat
  | [] => 0
  | (_, v) :: rest => max (depth v) (depthOfEntries rest)

end

theorem mem_floats_array {items : List Value} {x : Double} :
    x ∈ (array items).floats ↔ ∃ v ∈ items, x ∈ v.floats := by
  have hitems : floatsOfItems items = items.flatMap floats := by
    induction items with
    | nil => rfl
    | cons v rest ih => rw [floatsOfItems, ih, List.flatMap_cons]
  rw [floats, hitems, List.mem_flatMap]

theorem mem_floats_document {entries : Entries} {x : Double} :
    x ∈ (document entries).floats ↔ ∃ e ∈ entries, x ∈ e.2.floats := by
  have hentries : floatsOfEntries entries = entries.flatMap fun e => e.2.floats := by
    induction entries with
    | nil => rfl
    | cons e rest ih => rw [floatsOfEntries, ih, List.flatMap_cons]
  rw [floats, hentries, List.mem_flatMap]

/-! ## The tree of a value -/

mutual

/-- The tree of a value is nested as deep as the value. -/
theorem depth_tree : (v : Value) → v.tree.depth = v.depth
  | .null => rfl
  | .bool _ => rfl
  | .int _ => rfl
  | .float x => by
    rw [tree, realTree]
    split <;> rfl
  | .text _ => rfl
  | .array items => congrArg (· + 1) (depthItems_tree items)
  | .document entries => congrArg (· + 1) (depthMembers_tree entries)

theorem depthItems_tree : (items : List Value) →
    Json.depthItems (treeItems items) = depthOfItems items
  | [] => rfl
  | v :: rest => congrArg₂ max (depth_tree v) (depthItems_tree rest)

theorem depthMembers_tree : (entries : List (String × Value)) →
    Json.depthMembers (treeMembers entries) = depthOfEntries entries
  | [] => rfl
  | (_, v) :: rest => congrArg₂ max (depth_tree v) (depthMembers_tree rest)

end

/-- The tree of a value can be printed if its floats are given back from their numerals. Those that
are not finite are written as null. -/
theorem printable_tree {v : Value}
    (h : ∀ x ∈ v.floats, x.isFinite = true → Json.GivenBack x) : v.tree.Printable := by
  induction v using Value.induction with
  | null => exact Json.printable_null
  | bool b => exact Json.printable_bool b
  | int n => exact Json.printable_whole _
  | float x =>
    rw [tree, realTree]
    split
    · next hfinite => exact Json.printable_real hfinite (h x (List.mem_singleton_self x) hfinite)
    · exact Json.printable_null
  | text s => exact Json.printable_text s
  | array items ih =>
    rw [tree, treeItems_eq_map]
    exact .array (List.forall_mem_map.2 fun v hv =>
      ih v hv fun x hx => h x (mem_floats_array.2 ⟨v, hv, hx⟩))
  | document entries ih =>
    rw [tree, treeMembers_eq_map]
    exact .object (List.forall_mem_map.2 fun e he =>
      ih e he fun x hx => h x (mem_floats_document.2 ⟨e, he, hx⟩))

/-- **The tree of a value is read as that value**, with its entries in the same order, if no key is
there twice and all floats are finite. -/
theorem ofWritten_tree {v : Value} (h : v.Distinct)
    (hfinite : ∀ x ∈ v.floats, x.isFinite = true) : ofWritten v.tree = v := by
  induction h with
  | null => rfl
  | bool b => rfl
  | int n =>
    show ofInteger _ = _
    rw [ofInteger_eq_ofWhole, ofWhole_of_le n.2.2]
  | float x => rw [tree, realTree, if_pos (hfinite x (List.mem_singleton_self x)), ofWritten]
  | text s => rfl
  | @array items _ ih =>
    have hitems : items.map (fun v => ofWritten v.tree) = items :=
      (List.map_congr_left fun v hv =>
        ih v hv fun x hx => hfinite x (mem_floats_array.2 ⟨v, hv, hx⟩)).trans (List.map_id' _)
    rw [tree, ofWritten, treeItems_eq_map, ofWrittenItems_eq_map, List.map_map]
    exact congrArg array hitems
  | @document entries keys _ ih =>
    have hentries : entries.map (fun e => (e.1, ofWritten e.2.tree)) = entries :=
      Sorted.map_snd_eq_self (f := fun v => ofWritten v.tree) fun e he =>
        ih e he fun x hx => hfinite x (mem_floats_document.2 ⟨e, he, hx⟩)
    rw [tree, ofWritten, treeMembers_eq_map, ofWrittenMembers_eq_map, List.map_map]
    exact congrArg document ((congrArg Entries.ofList hentries).trans
      (Entries.ofList_of_nodup keys))

end Value

/-! ## From sender to receiver -/

/-- **A document is received as it was sent.** If no key is there twice in it, if it is nested no
deeper than 127 levels, itself included, and if its floats are finite and the reader of numbers
gives the value of each of them back from its numeral, the document is read from its compact text:
with the same keys in the same order at every level, with its integers as integers and its floats as
floats, also where these are whole numbers. -/
theorem Document.ofWire_wire {d : Document} (hkeys : d.toValue.Distinct)
    (hdepth : d.toValue.depth ≤ 127)
    (hfloats : ∀ x ∈ d.toValue.floats, x.isFinite = true ∧ Json.GivenBack x) :
    Document.ofWire d.wire = .ok d := by
  have hread : Json.read? d.wire = some d.toValue.tree :=
    Json.read?_compact (Value.printable_tree fun x hx _ => (hfloats x hx).2)
      (by rwa [Value.depth_tree])
  refine Document.ofWire_eq_ok.2 ⟨_, hread, Document.ofValue_eq_ok.2 ?_⟩
  exact Value.ofWritten_tree hkeys fun x hx => (hfloats x hx).1

/-! ## A document that travels -/

/-- The zero with a minus sign. -/
def negativeZero : Double :=
  ⟨true, 0, by decide⟩

/-- The double nearest to a tenth. -/
def tenth : Double :=
  ⟨false, 4591870180066957722, by decide⟩

theorem givenBack_negativeZero : Json.GivenBack negativeZero := by
  have hnumeral : negativeZero.numeral .compact = ['-', '0', '.', '0'] := by decide +kernel
  have hvalue : Json.Numeral.value? ⟨true, ['0'], some ['0'], none⟩ =
      some (.real negativeZero) := by
    have hscale : Json.scale? 0 (-1) = some ⟨false, 0, by decide⟩ := by decide +kernel
    show (Json.scale? 0 (-1)).map (Json.signed true) = _
    rw [hscale]
    rfl
  have hnumber : Json.number? ['-', '0', '.', '0'] = some (.real negativeZero, []) := by
    show (Json.Numeral.value? ⟨true, ['0'], some ['0'], none⟩).bind (fun j => some (j, [])) = _
    rw [hvalue]
    rfl
  rw [Json.GivenBack, hnumeral, Json.spelledDouble?, hnumber]

theorem givenBack_tenth : Json.GivenBack tenth := by
  have hnumeral : tenth.numeral .compact = ['0', '.', '1'] := by decide +kernel
  have hvalue : Json.Numeral.value? ⟨false, ['0'], some ['1'], none⟩ = some (.real tenth) := by
    have hscale : Json.scale? 1 (-1) = some tenth := by decide +kernel
    show (Json.scale? 1 (-1)).map (Json.signed false) = _
    rw [hscale]
    rfl
  have hnumber : Json.number? ['0', '.', '1'] = some (.real tenth, []) := by
    show (Json.Numeral.value? ⟨false, ['0'], some ['1'], none⟩).bind (fun j => some (j, [])) = _
    rw [hvalue]
    rfl
  rw [Json.GivenBack, hnumeral, Json.spelledDouble?, hnumber]

/-- A document with keys that need escapes and out of order, the integers at the ends of the range,
and arrays and documents without anything in them. -/
def Document.parcel : Document :=
  ⟨[("\n\"", .array [.int ⟨-9223372036854775808, by decide⟩, .float negativeZero, .array []]),
    ("", .document [("b", .int ⟨9223372036854775807, by decide⟩), ("a", .float tenth)]),
    ("A", .document [])]⟩

theorem Document.distinct_parcel : Document.parcel.toValue.Distinct := by
  have hnumbers : ∀ v ∈ [Value.int ⟨-9223372036854775808, by decide⟩, .float negativeZero,
      .array []], v.Distinct :=
    List.forall_mem_cons.2 ⟨.int _, List.forall_mem_cons.2 ⟨.float _,
      List.forall_mem_singleton.2 (.array (List.forall_mem_nil _))⟩⟩
  have hnested : (Value.document [("b", .int ⟨9223372036854775807, by decide⟩),
      ("a", .float tenth)]).Distinct :=
    .document (by decide) (List.forall_mem_cons.2 ⟨.int _, List.forall_mem_singleton.2 (.float _)⟩)
  exact .document (by decide) (List.forall_mem_cons.2 ⟨.array hnumbers,
    List.forall_mem_cons.2 ⟨hnested, List.forall_mem_singleton.2 Value.distinct_empty⟩⟩)

theorem Document.givenBack_parcel :
    ∀ x ∈ Document.parcel.toValue.floats, x.isFinite = true ∧ Json.GivenBack x :=
  List.forall_mem_cons.2 ⟨⟨by decide, givenBack_negativeZero⟩,
    List.forall_mem_singleton.2 ⟨by decide, givenBack_tenth⟩⟩

theorem Document.ofWire_wire_parcel :
    Document.parcel.wire = "\x7b\"\\n\\\"\":[-9223372036854775808,-0.0,[]]," ++
      "\"\":\x7b\"b\":9223372036854775807,\"a\":0.1\x7d,\"A\":\x7b\x7d\x7d" ∧
    Document.parcel.toValue.Distinct ∧ Document.parcel.toValue.depth ≤ 127 ∧
      (∀ x ∈ Document.parcel.toValue.floats, x.isFinite = true ∧ Json.GivenBack x) ∧
      Document.ofWire Document.parcel.wire = .ok Document.parcel := by
  have hdepth : Document.parcel.toValue.depth ≤ 127 := by decide
  exact ⟨by decide +kernel, Document.distinct_parcel, hdepth, Document.givenBack_parcel,
    Document.ofWire_wire Document.distinct_parcel hdepth Document.givenBack_parcel⟩

end JobRegistry
