import JobRegistry.Proofs.Mapper.Regular
import JobRegistry.Proofs.Sorted

/-!
# Maps in the order of their keys

The entries of a map are written in the order in which they are met and read into the order of
their keys. `arrange` puts the entries of all maps in a value into that order. This leaves every map
what it is, for what is found under a key stays the same (`lookup_arrange`), and a value whose maps
are in order as it is (`arrange_of_arranged`).
-/

namespace JobRegistry.Layout

/-! ## Arranging -/

mutual

/-- The value with the entries of all its maps in the order of their keys. -/
def arrange : (l : Layout) → l.Carrier → l.Carrier
  | .option _, none => none
  | .option inner, some x => some (arrange inner x)
  | .newtype _ inner, x => arrange inner x
  | .list item, xs => List.map (arrange item) xs
  | .tuple _ items, xs => arrangeItems items xs
  | .map key item, entries =>
    Sorted.ofList (keyBefore key) (List.map (fun e => (e.1, arrange item e.2)) entries)
  | .record _ _ fields, xs => arrangeFields fields xs
  | .choice _ variants, x => arrangeVariant variants x
  | _, x => x

/-- The items of a tuple, each arranged. -/
def arrangeItems : (is : Items) → ItemsCarrier is → ItemsCarrier is
  | .nil, _ => ()
  | .cons item rest, (x, xs) => (arrange item x, arrangeItems rest xs)

/-- The fields of a record, each arranged. -/
def arrangeFields : (fs : Fields) → FieldsCarrier fs → FieldsCarrier fs
  | .nil, _ => ()
  | .cons _ _ layout rest, (x, xs) => (arrange layout x, arrangeFields rest xs)

/-- A variant with its payload arranged. -/
def arrangeVariant : (vs : Variants) → VariantsCarrier vs → VariantsCarrier vs
  | .cons _ payload _, .inl x => .inl (arrangePayload payload x)
  | .cons _ _ rest, .inr x => .inr (arrangeVariant rest x)

/-- What a variant carries, arranged. -/
def arrangePayload : (p : Payload) → PayloadCarrier p → PayloadCarrier p
  | .none, _ => ()
  | .one layout, x => arrange layout x
  | .many items, xs => arrangeItems items xs
  | .fields fields, xs => arrangeFields fields xs

end

/-- What is found under a key does not depend on the order of the entries. -/
theorem lookup_arrange {item : Layout} {entries : List (String × item.Carrier)}
    (h : (entries.map Prod.fst).Nodup) (k : String) :
    List.lookup k (arrange (.map .text item) entries) = (entries.lookup k).map (arrange item) := by
  rw [← Sorted.last?_eq_lookup h k, ← Sorted.last?_map_snd]
  exact Sorted.lookup_ofList k _

example : arrange (.map .text .bool) [("b", true), ("a", false)] = [("a", false), ("b", true)] :=
  rfl

/-! ## Values in order -/

/-- A map in the order of its keys. -/
def ArrangedAt : (l : Layout) → l.Carrier → Prop
  | .map key _, entries => List.Pairwise (fun a b => keyBefore key a.1 b.1 = true) entries
  | _, _ => True

/-- All maps in a value are in the order of their keys. -/
def Arranged : (l : Layout) → l.Carrier → Prop :=
  Every ArrangedAt

theorem map_of_each {α : Type} {P : α → Prop} {f : α → α} (hf : ∀ x, P x → f x = x) {xs : List α}
    (h : Each P xs) : xs.map f = xs :=
  (List.map_congr_left fun x hmem => hf x (h x hmem)).trans (List.map_id xs)

mutual

/-- **A value whose maps are in order stays as it is.** -/
theorem arrange_of_arranged :
    (l : Layout) → l.Regular → (x : l.Carrier) → l.Arranged x → l.arrange x = x
  | .bool, _, _, _ => rfl
  | .integer _ _, _, _, _ => rfl
  | .single, _, _, _ => rfl
  | .double, _, _, _ => rfl
  | .char, _, _, _ => rfl
  | .text, _, _, _ => rfl
  | .unit, _, _, _ => rfl
  | .unitStruct _, _, _, _ => rfl
  | .option _, _, none, _ => rfl
  | .option inner, hl, some x, hx => congrArg some (arrange_of_arranged inner hl.2 x hx)
  | .newtype _ inner, hl, x, hx => arrange_of_arranged inner hl x hx
  | .list item, hl, _, hx => map_of_each (fun x hx => arrange_of_arranged item hl x hx) hx
  | .tuple _ items, hl, xs, hx => arrangeItems_of_arranged items hl xs hx
  | .map key item, hl, entries, hx => by
    obtain ⟨rfl, hl⟩ := hl
    have hitems : List.map (fun e => (e.1, arrange item e.2)) entries = entries :=
      map_of_each (fun e he => congrArg (Prod.mk e.1) (arrange_of_arranged item hl e.2 he)) hx.2
    exact (congrArg _ hitems).trans (Sorted.ofList_of_ordered hx.1)
  | .record _ _ fields, hl, xs, hx => arrangeFields_of_arranged fields hl.2 xs hx
  | .choice _ variants, hl, x, hx => arrangeVariant_of_arranged variants hl.2 x hx
  | .recordId, _, _, _ => rfl
  | .timestamp, _, _, _ => rfl

theorem arrangeItems_of_arranged : (is : Items) → RegularItems is → (xs : ItemsCarrier is) →
    EveryItem ArrangedAt is xs → arrangeItems is xs = xs
  | .nil, _, _, _ => rfl
  | .cons item rest, hl, (x, xs), hx =>
    Prod.ext (arrange_of_arranged item hl.1 x hx.1) (arrangeItems_of_arranged rest hl.2 xs hx.2)

theorem arrangeFields_of_arranged : (fs : Fields) → RegularFields fs → (xs : FieldsCarrier fs) →
    EveryField ArrangedAt fs xs → arrangeFields fs xs = xs
  | .nil, _, _, _ => rfl
  | .cons _ _ layout rest, hl, (x, xs), hx =>
    Prod.ext (arrange_of_arranged layout hl.1 x hx.1) (arrangeFields_of_arranged rest hl.2 xs hx.2)

theorem arrangeVariant_of_arranged : (vs : Variants) → RegularVariants vs →
    (x : VariantsCarrier vs) → EveryVariant ArrangedAt vs x → arrangeVariant vs x = x
  | .cons _ payload _, hl, .inl x, hx =>
    congrArg Sum.inl (arrangePayload_of_arranged payload hl.1 x hx)
  | .cons _ _ rest, hl, .inr x, hx => congrArg Sum.inr (arrangeVariant_of_arranged rest hl.2 x hx)

theorem arrangePayload_of_arranged : (p : Payload) → RegularPayload p → (x : PayloadCarrier p) →
    EveryPayload ArrangedAt p x → arrangePayload p x = x
  | .none, _, _, _ => rfl
  | .one layout, hl, x, hx => arrange_of_arranged layout hl x hx
  | .many items, hl, xs, hx => arrangeItems_of_arranged items hl xs hx
  | .fields fields, hl, xs, hx => arrangeFields_of_arranged fields hl.2 xs hx

end

/-! ## Settled values -/

theorem writableAt_of_settledAt : Entails SettledAt WritableAt := by
  intro l hl x h
  cases l with
  | map key item =>
    obtain ⟨rfl, -⟩ := hl
    exact List.pairwise_map.2 (h.imp Sorted.ne_of_textBefore)
  | _ => exact h

theorem arrangedAt_of_settledAt : Entails SettledAt ArrangedAt := by
  intro l _ x h
  cases l with
  | map key item => exact h
  | _ => trivial

variable {l : Layout} {x : l.Carrier}

theorem Settled.writable (hl : l.Regular) (h : l.Settled x) : l.Writable x :=
  Every.imp writableAt_of_settledAt l hl x h

theorem Settled.arrange_eq (hl : l.Regular) (h : l.Settled x) : l.arrange x = x :=
  arrange_of_arranged l hl x (Every.imp arrangedAt_of_settledAt l hl x h)

end JobRegistry.Layout
