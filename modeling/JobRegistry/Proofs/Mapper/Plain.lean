import Mathlib.Data.List.Forall2
import JobRegistry.Proofs.Mapper.RoundTrip

/-!
# Reading plain layouts

A layout is plain (`Layout.Plain`) when it is made of texts, flags, identifiers and timestamps by
lists, choices without payloads and records without optional fields. The documents of all records
have plain layouts, and so have the properties of most.

What a reading has read when it succeeds is said by one equivalence for each way to put layouts
together (`decode_list_eq_ok`, `decode_record_eq_ok`). From these it follows that no timestamp is
read whose year does not have four digits (`legible_of_decode`).
-/

namespace JobRegistry

/-- The tags of the fields of a record, each with its layout. -/
def Fields.layouts : Fields → List (String × Layout)
  | .nil => []
  | .cons tag _ layout rest => (tag, layout) :: rest.layouts

/-- No variant has a payload. -/
def Variants.Bare : Variants → Prop
  | .nil => True
  | .cons _ payload rest => payload = .none ∧ rest.Bare

namespace Layout

mutual

/-- The layout is made of texts, flags, identifiers and timestamps only, and all fields of its
records are required. -/
def Plain : Layout → Prop
  | .bool => True
  | .text => True
  | .recordId => True
  | .timestamp => True
  | .list item => Plain item
  | .record _ _ fields => PlainFields fields
  | .choice _ variants => variants.Bare
  | _ => False

/-- The layouts of all fields are plain, and all fields are required. -/
def PlainFields : Fields → Prop
  | .nil => True
  | .cons _ absence layout rest => absence = .required ∧ Plain layout ∧ PlainFields rest

end

theorem map_fst_layouts : (fs : Fields) → fs.layouts.map Prod.fst = fs.tags
  | .nil => rfl
  | .cons tag _ _ rest => congrArg (tag :: ·) (map_fst_layouts rest)

theorem mem_tags_of_mem_layouts {fs : Fields} {tag : String} {l : Layout}
    (h : (tag, l) ∈ fs.layouts) : tag ∈ fs.tags := by
  rw [← map_fst_layouts]
  exact List.mem_map.2 ⟨_, h, rfl⟩

theorem plain_of_mem_layouts : {fs : Fields} → PlainFields fs → {tag : String} → {l : Layout} →
    (tag, l) ∈ fs.layouts → l.Plain
  | .cons _ _ _ _, ⟨_, hl, hrest⟩, _, _, h => by
    rcases List.mem_cons.1 h with heq | h
    · obtain ⟨-, rfl⟩ := Prod.mk.inj heq
      exact hl
    · exact plain_of_mem_layouts hrest h

theorem regular_of_mem_layouts : {fs : Fields} → RegularFields fs → {tag : String} →
    {l : Layout} → (tag, l) ∈ fs.layouts → l.Regular
  | .cons _ _ _ _, ⟨hl, hrest⟩, _, _, h => by
    rcases List.mem_cons.1 h with heq | h
    · obtain ⟨-, rfl⟩ := Prod.mk.inj heq
      exact hl
    · exact regular_of_mem_layouts hrest h

/-! ## What a successful reading has read -/

section

variable {α β : Type}

theorem bind_eq_ok {ε : Type} {x : Except ε α} {next : α → Except ε β} {b : β} :
    x >>= next = .ok b ↔ ∃ a, x = .ok a ∧ next a = .ok b := by
  cases x with
  | error e => exact iff_of_false nofun fun ⟨_, h, _⟩ => nomatch h
  | ok a => exact ⟨fun h => ⟨a, rfl, h⟩, fun ⟨_, h, hb⟩ => by cases h; exact hb⟩

theorem mapError_eq_ok {ε ε' : Type} {x : Except ε α} {f : ε → ε'} {a : α} :
    x.mapError f = .ok a ↔ x = .ok a := by
  cases x <;> simp [Except.mapError]

theorem decodeList_eq_ok {item : α → Except DecodeError β} {as : List α} {bs : List β} (i : Nat) :
    decodeList item i as = .ok bs ↔ List.Forall₂ (fun a b => item a = .ok b) as bs := by
  induction as generalizing i bs with
  | nil =>
    rw [List.forall₂_nil_left_iff, decodeList]
    exact ⟨fun h => (Except.ok.inj h).symm, fun h => by rw [h]⟩
  | cons a as ih =>
    simp only [decodeList, bind_eq_ok, mapError_eq_ok, ih, List.forall₂_cons_left_iff]
    constructor
    · rintro ⟨b, hb, bs', hbs, ⟨⟩⟩
      exact ⟨b, bs', hb, hbs, rfl⟩
    · rintro ⟨b, bs', hb, hbs, rfl⟩
      exact ⟨b, hb, bs', hbs, rfl⟩

theorem both_eq_ok {a : Except Fault α} {b : Except Fault β} {x : α} {y : β} :
    both a b = .ok (x, y) ↔ a = .ok x ∧ b = .ok y := by
  cases a <;> cases b <;> simp [both]

theorem settle_eq_ok {strict : Bool} {tags : List String} {ms : List (String × α)}
    {values : Except Fault β} {y : β} : settle strict tags ms values = .ok y ↔
      (strict = true → strangerAt? tags 0 ms = none) ∧ values = .ok y := by
  unfold settle
  cases strict with
  | false => cases values <;> simp [both]
  | true => cases strangerAt? tags 0 ms <;> cases values <;> simp [both]

variable (r : Reading α)

theorem decodeFields_cons_eq_ok {tag : String} {l : Layout} (hl : l.Plain) {rest : Fields}
    {ms : List (String × α)} {x : l.Carrier} {xs : FieldsCarrier rest} :
    decodeFields r ms (.cons tag .required l rest) = .ok (x, xs) ↔
      (∃ a, (memberAt? tag 0 ms).map Prod.snd = some a ∧ decode r l a = .ok x) ∧
        decodeFields r ms rest = .ok xs := by
  rw [decodeFields]
  refine both_eq_ok.trans (and_congr_left' ?_)
  cases hm : memberAt? tag 0 ms with
  | some found => simp [mapError_eq_ok]
  | none =>
    have habsent : l.absent? .required = none := by
      cases l <;> first | rfl | exact hl.elim
    simp [habsent]

theorem decodeSequence_cons {title tag : String} {absence : Absence} {l : Layout} {rest : Fields}
    {i : Nat} {a : α} {as : List α} :
    decodeSequence r title (.cons tag absence l rest) i (a :: as) = (do
      let x ← (decode r l a).mapError (DecodeError.within (.index i))
      return (x, ← decodeSequence r title rest (i + 1) as)) :=
  rfl

theorem decodeSequence_cons_eq_ok {title tag : String} {l : Layout} {rest : Fields} {i : Nat}
    {as : List α} {x : l.Carrier} {xs : FieldsCarrier rest} :
    decodeSequence r title (.cons tag .required l rest) i as = .ok (x, xs) ↔
      ∃ a as', as = a :: as' ∧ decode r l a = .ok x ∧
        decodeSequence r title rest (i + 1) as' = .ok xs := by
  cases as with
  | nil => exact iff_of_false (fun h => nomatch h) nofun
  | cons a as =>
    refine Iff.trans (bind_eq_ok (x := (decode r l a).mapError (DecodeError.within (.index i)))) ?_
    constructor
    · rintro ⟨y, hy, h⟩
      obtain ⟨ys, hys, h⟩ := bind_eq_ok.1 h
      obtain ⟨rfl, rfl⟩ := Prod.mk.inj (Except.ok.inj h)
      exact ⟨a, as, rfl, mapError_eq_ok.1 hy, hys⟩
    · rintro ⟨a', as', heq, hx, hxs⟩
      obtain ⟨rfl, rfl⟩ := List.cons.inj heq
      exact ⟨x, mapError_eq_ok.2 hx, bind_eq_ok.2 ⟨xs, hxs, rfl⟩⟩

theorem checkSurplus_eq_ok {as : List α} {size : Nat} {b b' : β} :
    checkSurplus r as size b = .ok b' ↔
      ¬ (r.refusesSurplus = true ∧ size < as.length) ∧ b = b' := by
  unfold checkSurplus
  split
  · next h => exact iff_of_false nofun fun h' => h'.1 h
  · next h => exact ⟨fun he => ⟨h, Except.ok.inj he⟩, fun he => by rw [he.2]⟩

theorem decode_list_eq_ok {item : Layout} {a : α} {xs : List item.Carrier} :
    decode r (.list item) a = .ok xs ↔
      ∃ as, r.node a = .items as ∧ List.Forall₂ (fun a x => decode r item a = .ok x) as xs := by
  rw [decode]
  cases r.node a with
  | items as => exact (decodeList_eq_ok 0).trans (by simp)
  | _ => exact iff_of_false nofun nofun

/-- A record is read from members by their names, or from items in the order of its fields. -/
theorem decode_record_eq_ok {name : String} {strict : Bool} {fields : Fields} {a : α}
    {xs : FieldsCarrier fields} : decode r (.record name strict fields) a = .ok xs ↔
      (∃ ms, r.node a = .members ms ∧ (strict = true → strangerAt? fields.tags 0 ms = none) ∧
        decodeFields r ms fields = .ok xs) ∨
      ∃ as, r.node a = .items as ∧ ¬ (r.refusesSurplus = true ∧ fields.size < as.length) ∧
        decodeSequence r ("struct " ++ name ++ " with " ++ elementCount fields.size) fields 0 as =
          .ok xs := by
  rw [decode]
  cases r.node a with
  | members ms =>
    refine settle_eq_ok.trans ⟨fun h => .inl ⟨ms, rfl, h⟩, ?_⟩
    rintro (⟨_, ⟨⟩, h⟩ | ⟨_, ⟨⟩, _⟩)
    exact h
  | items as =>
    refine bind_eq_ok.trans ⟨?_, ?_⟩
    · rintro ⟨ys, hys, h⟩
      obtain ⟨hs, rfl⟩ := (checkSurplus_eq_ok r).1 h
      exact .inr ⟨as, rfl, hs, hys⟩
    · rintro (⟨_, ⟨⟩, _⟩ | ⟨_, ⟨⟩, hs, h⟩)
      exact ⟨xs, h, (checkSurplus_eq_ok r).2 ⟨hs, rfl⟩⟩
  | _ => exact iff_of_false nofun (by rintro (⟨_, ⟨⟩, _⟩ | ⟨_, ⟨⟩, _⟩))

/-! ## What is read is legible -/

/-- Where no variant has a payload, nothing has to hold of payloads. -/
theorem everyVariant_of_bare {P : (l : Layout) → l.Carrier → Prop} :
    {vs : Variants} → vs.Bare → (x : VariantsCarrier vs) → EveryVariant P vs x
  | .cons _ _ _, ⟨hp, _⟩, .inl _ => by subst hp; exact trivial
  | .cons _ _ _, ⟨_, hvs⟩, .inr x => everyVariant_of_bare hvs x

theorem legible_of_decode_timestamp {a : α} {t : Timestamp}
    (h : decode r .timestamp a = .ok t) : t.HasFourDigitYear := by
  rw [decode] at h
  split at h
  · split at h
    · next ht =>
      obtain rfl := Except.ok.inj h
      exact Timestamp.hasFourDigitYear_of_parse? ht
    · cases h
  · cases h

mutual

/-- **What is read by a plain layout is legible.** -/
theorem legible_of_decode : (l : Layout) → l.Plain → {a : α} → {x : l.Carrier} →
    decode r l a = .ok x → l.Legible x
  | .bool, _, _, _, _ => trivial
  | .text, _, _, _, _ => trivial
  | .recordId, _, _, _, _ => trivial
  | .timestamp, _, _, _, h => legible_of_decode_timestamp r h
  | .list item, hl, _, _, h => by
    obtain ⟨as, -, has⟩ := (decode_list_eq_ok r).1 h
    clear h
    induction has with
    | nil => exact List.forall_mem_nil _
    | cons ha _ ih => exact each_cons.2 ⟨legible_of_decode item hl ha, ih⟩
  | .record _ _ fields, hl, _, _, h => by
    obtain ⟨ms, -, -, hms⟩ | ⟨as, -, -, has⟩ := (decode_record_eq_ok r).1 h
    · exact legible_of_decodeFields fields hl hms
    · exact legible_of_decodeSequence fields hl has
  | .choice _ _, hl, _, x, _ => everyVariant_of_bare hl x

theorem legible_of_decodeFields : (fs : Fields) → PlainFields fs → {ms : List (String × α)} →
    {xs : FieldsCarrier fs} → decodeFields r ms fs = .ok xs → EveryField LegibleAt fs xs
  | .nil, _, _, _, _ => trivial
  | .cons _ _ l rest, ⟨ha, hl, hrest⟩, _, (_, _), h => by
    subst ha
    obtain ⟨⟨a, -, hx⟩, hxs⟩ := (decodeFields_cons_eq_ok r hl).1 h
    exact ⟨legible_of_decode l hl hx, legible_of_decodeFields rest hrest hxs⟩

theorem legible_of_decodeSequence : (fs : Fields) → PlainFields fs → {title : String} →
    {i : Nat} → {as : List α} → {xs : FieldsCarrier fs} →
    decodeSequence r title fs i as = .ok xs → EveryField LegibleAt fs xs
  | .nil, _, _, _, _, _, _ => trivial
  | .cons _ _ l rest, ⟨ha, hl, hrest⟩, _, _, _, (_, _), h => by
    subst ha
    obtain ⟨a, as, -, hx, hxs⟩ := (decodeSequence_cons_eq_ok r).1 h
    exact ⟨legible_of_decode l hl hx, legible_of_decodeSequence rest hrest hxs⟩

end

end

end Layout

end JobRegistry
