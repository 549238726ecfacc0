import JobRegistry.Mapper.Decode
import JobRegistry.Mapper.Encode
import JobRegistry.Proofs.Timestamp

/-!
# Layouts whose values survive in documents

Not every layout keeps its values apart: an option of an option has two ways to be null, and a
choice with two variants of one tag has two ways to be that tag. `Layout.Regular` leaves those
layouts out, and those that documents keep in a form of their own.

Three properties of values matter besides. A value is writable (`Layout.Writable`) when documents
have a place for its numbers and no key of its maps is there twice. It is settled (`Layout.Settled`)
when the keys of its maps are in order besides; every value of the records is. It is legible
(`Layout.Legible`) when the years of all its timestamps have four digits. Each of them is a property
of the scalars and maps that a value is made of, and one follows from another if it does for those
(`Every.imp`).
-/

namespace JobRegistry.Layout

open Number

/-! ## Regular layouts -/

/-- No value of the layout is written as null. -/
def NeverNull : Layout → Prop
  | .unit => False
  | .unitStruct _ => False
  | .option _ => False
  | .newtype _ inner => NeverNull inner
  | .value => False
  | _ => True

mutual

/-- Different values of the layout have different document forms. -/
def Regular : Layout → Prop
  | .integer _ bits => bits ≤ 64
  | .option inner => inner.NeverNull ∧ Regular inner
  | .newtype _ inner => Regular inner
  | .list item => Regular item
  | .tuple _ items => RegularItems items
  | .map key item => key = .text ∧ Regular item
  | .record _ _ fields => fields.tags.Nodup ∧ RegularFields fields
  | .choice _ variants => variants.tags.Nodup ∧ RegularVariants variants
  | .bytes => False
  | .value => False
  | .document => False
  | _ => True

/-- The layouts of all items are regular. -/
def RegularItems : Items → Prop
  | .nil => True
  | .cons item rest => Regular item ∧ RegularItems rest

/-- The layouts of all fields are regular. -/
def RegularFields : Fields → Prop
  | .nil => True
  | .cons _ _ layout rest => Regular layout ∧ RegularFields rest

/-- The payloads of all variants are regular. -/
def RegularVariants : Variants → Prop
  | .nil => True
  | .cons _ payload rest => RegularPayload payload ∧ RegularVariants rest

/-- What a variant carries is regular. -/
def RegularPayload : Payload → Prop
  | .none => True
  | .one layout => Regular layout
  | .many items => RegularItems items
  | .fields fields => fields.tags.Nodup ∧ RegularFields fields

end

/-! ## Properties of values -/

/-- All elements of a list have a property. -/
def Each {α : Type} (P : α → Prop) (xs : List α) : Prop :=
  ∀ x ∈ xs, P x

theorem each_cons {α : Type} {P : α → Prop} {x : α} {xs : List α} :
    Each P (x :: xs) ↔ P x ∧ Each P xs :=
  List.forall_mem_cons

mutual

/-- A property of a value and of all values it is made of. -/
def Every (P : (l : Layout) → l.Carrier → Prop) : (l : Layout) → l.Carrier → Prop
  | .option _, none => True
  | .option inner, some x => Every P inner x
  | .newtype _ inner, x => Every P inner x
  | .list item, xs => Each (Every P item) xs
  | .tuple _ items, xs => EveryItem P items xs
  | .map key item, entries => P (.map key item) entries ∧ Each (fun e => Every P item e.2) entries
  | .record _ _ fields, xs => EveryField P fields xs
  | .choice _ variants, x => EveryVariant P variants x
  | l, x => P l x

/-- The property of all items of a tuple. -/
def EveryItem (P : (l : Layout) → l.Carrier → Prop) : (is : Items) → ItemsCarrier is → Prop
  | .nil, _ => True
  | .cons item rest, (x, xs) => Every P item x ∧ EveryItem P rest xs

/-- The property of all fields of a record. -/
def EveryField (P : (l : Layout) → l.Carrier → Prop) : (fs : Fields) → FieldsCarrier fs → Prop
  | .nil, _ => True
  | .cons _ _ layout rest, (x, xs) => Every P layout x ∧ EveryField P rest xs

/-- The property of what the variant carries. -/
def EveryVariant (P : (l : Layout) → l.Carrier → Prop) :
    (vs : Variants) → VariantsCarrier vs → Prop
  | .cons _ payload _, .inl x => EveryPayload P payload x
  | .cons _ _ rest, .inr x => EveryVariant P rest x

/-- The property of a payload. -/
def EveryPayload (P : (l : Layout) → l.Carrier → Prop) : (p : Payload) → PayloadCarrier p → Prop
  | .none, _ => True
  | .one layout, x => Every P layout x
  | .many items, xs => EveryItem P items xs
  | .fields fields, xs => EveryField P fields xs

end

/-- One property follows from another, of the values of regular layouts. -/
def Entails (P Q : (l : Layout) → l.Carrier → Prop) : Prop :=
  ∀ l : Layout, l.Regular → ∀ x, P l x → Q l x

variable {P Q : (l : Layout) → l.Carrier → Prop}

mutual

/-- A property of all that a value is made of follows from one that entails it. -/
theorem Every.imp (h : Entails P Q) : (l : Layout) → l.Regular → (x : l.Carrier) →
    Every P l x → Every Q l x
  | .bool, hl, x, hx => h _ hl x hx
  | .integer _ _, hl, x, hx => h _ hl x hx
  | .single, hl, x, hx => h _ hl x hx
  | .double, hl, x, hx => h _ hl x hx
  | .char, hl, x, hx => h _ hl x hx
  | .text, hl, x, hx => h _ hl x hx
  | .unit, hl, x, hx => h _ hl x hx
  | .unitStruct _, hl, x, hx => h _ hl x hx
  | .option _, _, none, _ => trivial
  | .option inner, hl, some x, hx => Every.imp h inner hl.2 x hx
  | .newtype _ inner, hl, x, hx => Every.imp h inner hl x hx
  | .list item, hl, _, hx => fun x hmem => Every.imp h item hl x (hx x hmem)
  | .tuple _ items, hl, xs, hx => EveryItem.imp h items hl xs hx
  | .map _ item, hl, entries, hx =>
    ⟨h _ hl entries hx.1, fun e hmem => Every.imp h item hl.2 e.2 (hx.2 e hmem)⟩
  | .record _ _ fields, hl, xs, hx => EveryField.imp h fields hl.2 xs hx
  | .choice _ variants, hl, x, hx => EveryVariant.imp h variants hl.2 x hx
  | .recordId, hl, x, hx => h _ hl x hx
  | .timestamp, hl, x, hx => h _ hl x hx

theorem EveryItem.imp (h : Entails P Q) : (is : Items) → RegularItems is →
    (xs : ItemsCarrier is) → EveryItem P is xs → EveryItem Q is xs
  | .nil, _, _, _ => trivial
  | .cons item rest, hl, (x, xs), hx =>
    ⟨Every.imp h item hl.1 x hx.1, EveryItem.imp h rest hl.2 xs hx.2⟩

theorem EveryField.imp (h : Entails P Q) : (fs : Fields) → RegularFields fs →
    (xs : FieldsCarrier fs) → EveryField P fs xs → EveryField Q fs xs
  | .nil, _, _, _ => trivial
  | .cons _ _ layout rest, hl, (x, xs), hx =>
    ⟨Every.imp h layout hl.1 x hx.1, EveryField.imp h rest hl.2 xs hx.2⟩

theorem EveryVariant.imp (h : Entails P Q) : (vs : Variants) → RegularVariants vs →
    (x : VariantsCarrier vs) → EveryVariant P vs x → EveryVariant Q vs x
  | .cons _ payload _, hl, .inl x, hx => EveryPayload.imp h payload hl.1 x hx
  | .cons _ _ rest, hl, .inr x, hx => EveryVariant.imp h rest hl.2 x hx

theorem EveryPayload.imp (h : Entails P Q) : (p : Payload) → RegularPayload p →
    (x : PayloadCarrier p) → EveryPayload P p x → EveryPayload Q p x
  | .none, _, _, _ => trivial
  | .one layout, hl, x, hx => Every.imp h layout hl x hx
  | .many items, hl, xs, hx => EveryItem.imp h items hl xs hx
  | .fields fields, hl, xs, hx => EveryField.imp h fields hl.2 xs hx

end

/-- A number for which documents have a place, or a map with no key twice. -/
def WritableAt : (l : Layout) → l.Carrier → Prop
  | .integer _ _, n => -9223372036854775808 ≤ n.1 ∧ n.1 ≤ 9223372036854775807
  | .single, x => (Floating.convert binary64 x).convert binary32 = x
  | .map _ _, entries => (List.map Prod.fst entries).Nodup
  | _, _ => True

/-- A number for which documents have a place, or a map in the order of its keys. -/
def SettledAt : (l : Layout) → l.Carrier → Prop
  | .integer _ _, n => -9223372036854775808 ≤ n.1 ∧ n.1 ≤ 9223372036854775807
  | .single, x => (Floating.convert binary64 x).convert binary32 = x
  | .map key _, entries => List.Pairwise (fun a b => keyBefore key a.1 b.1 = true) entries
  | _, _ => True

/-- A timestamp whose text can be read. -/
def LegibleAt : (l : Layout) → l.Carrier → Prop
  | .timestamp, t => t.HasFourDigitYear
  | _, _ => True

/-- Documents have a place for all numbers in a value, and its maps have no key twice. -/
def Writable : (l : Layout) → l.Carrier → Prop :=
  Every WritableAt

/-- Documents have a place for all numbers in a value, and its maps are in order. -/
def Settled : (l : Layout) → l.Carrier → Prop :=
  Every SettledAt

/-- The years of all timestamps in a value have four digits. -/
def Legible : (l : Layout) → l.Carrier → Prop :=
  Every LegibleAt

end JobRegistry.Layout

namespace JobRegistry

/-! ## What a reader answers -/

/-- A reader answers a value under a condition, and a fault without it. -/
inductive Answers {ε α : Type} (p : Prop) (x : α) : Except ε α → Prop
  | ok (h : p) : Answers p x (.ok x)
  | error (h : ¬ p) (e : ε) : Answers p x (.error e)

namespace Answers

variable {ε ε' α β : Type} {p q : Prop} {x : α} {y : β} {e : Except ε α}

theorem of_iff (h : Answers p x e) (hpq : p ↔ q) : Answers q x e := by
  cases h with
  | ok h => exact .ok (hpq.1 h)
  | error h e => exact .error (fun hq => h (hpq.2 hq)) e

theorem map (h : Answers p x e) (f : α → β) : Answers p (f x) (e.map f) := by
  cases h with
  | ok h => exact .ok h
  | error h e => exact .error h e

theorem mapError (h : Answers p x e) (f : ε → ε') : Answers p x (e.mapError f) := by
  cases h with
  | ok h => exact .ok h
  | error h e => exact .error h (f e)

theorem bind {f : α → Except ε β} (h : Answers p x e) (hf : Answers q y (f x)) :
    Answers (p ∧ q) y (e >>= f) := by
  cases h with
  | error h e => exact .error (fun hpq => h hpq.1) e
  | ok h =>
    show Answers (p ∧ q) y (f x)
    exact hf.of_iff (and_iff_right h).symm

theorem bind_pure (h : Answers p x e) (f : α → β) :
    Answers p (f x) (e >>= fun a => pure (f a)) := by
  cases h with
  | ok h => exact .ok h
  | error h e => exact .error h e

theorem both {a : Except Layout.Fault α} {b : Except Layout.Fault β} (ha : Answers p x a)
    (hb : Answers q y b) : Answers (p ∧ q) (x, y) (Layout.both a b) := by
  cases ha with
  | ok hp =>
    cases hb with
    | ok hq => exact .ok ⟨hp, hq⟩
    | error hq e => exact .error (fun h => hq h.2) e
  | error hp e =>
    cases hb with
    | ok hq => exact .error (fun h => hp h.1) e
    | error hq e' => exact .error (fun h => hp h.1) _

/-- Under the condition the answer is the value. -/
theorem eq_ok (h : Answers p x e) (hp : p) : e = .ok x := by
  cases h with
  | ok => rfl
  | error h => exact absurd hp h

/-- A value is only answered under the condition, and then it is the right one. -/
theorem of_eq_ok {z : α} (h : Answers p x e) (he : e = .ok z) : p ∧ z = x := by
  cases h with
  | ok h => exact ⟨h, (Except.ok.inj he).symm⟩
  | error h => cases he

end Answers

end JobRegistry
