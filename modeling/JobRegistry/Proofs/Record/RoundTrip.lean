import JobRegistry.Proofs.Number.Widening
import JobRegistry.Proofs.Record.Kinds

/-!
# Records survive in documents

A value is storable (`Layout.Storable`) when it keeps to what documents can hold: integers without a
sign that fit sixty-four bits with one, singles that are numbers, maps with no key twice and
timestamps of years with four digits. The document of a record gives back whatever storable values
are in the fields of the record, whatever options, lists, tuples, maps, records and choices they are
made of (`Record.document_gives_back`). Of the records of the four kinds it takes only that the
years of their timestamps have four digits.
-/

namespace JobRegistry

namespace Layout

open Number

/-- A number or timestamp for which documents have a place, or a map with no key twice. -/
def StorableAt : (l : Layout) → l.Carrier → Prop
  | .integer signed _, n => signed = false → n.1 ≤ 9223372036854775807
  | .single, x => x.isNaN = false
  | .map _ _, entries => (List.map Prod.fst entries).Nodup
  | .timestamp, t => t.HasFourDigitYear
  | _, _ => True

/-- Documents have a place for all that a value is made of. -/
def Storable : (l : Layout) → l.Carrier → Prop :=
  Every StorableAt

theorem writableAt_of_storableAt : Entails StorableAt WritableAt := by
  intro l hl x h
  cases l with
  | integer signed bits =>
    obtain ⟨n, hlow, hhigh⟩ := x
    have hbits : bits ≤ 64 := hl
    cases signed with
    | false =>
      have hzero : 0 ≤ n := hlow
      exact ⟨show -9223372036854775808 ≤ n by omega, h rfl⟩
    | true =>
      have hpow : twoPow (bits - 1) ≤ 9223372036854775808 :=
        Nat.pow_le_pow_right (by decide) (show bits - 1 ≤ 63 by omega)
      simp only [least, greatest, if_true] at hlow hhigh
      show -9223372036854775808 ≤ n ∧ n ≤ 9223372036854775807
      omega
  | single => exact Floating.convert_convert x h
  | map key item => exact h
  | _ => trivial

theorem legibleAt_of_storableAt : Entails StorableAt LegibleAt := by
  intro l _ x h
  cases l with
  | timestamp => exact h
  | _ => trivial

theorem Storable.writable {l : Layout} (hl : l.Regular) {x : l.Carrier} (h : l.Storable x) :
    l.Writable x :=
  Every.imp writableAt_of_storableAt l hl x h

theorem Storable.legible {l : Layout} (hl : l.Regular) {x : l.Carrier} (h : l.Storable x) :
    l.Legible x :=
  Every.imp legibleAt_of_storableAt l hl x h

end Layout

/-- All fields are written, also options without a value. -/
def Fields.Whole : Fields → Prop
  | .nil => True
  | .cons _ absence _ rest => absence ≠ .omitted ∧ rest.Whole

namespace Layout

theorem written_eq_tags : {fs : Fields} → fs.Whole → (xs : FieldsCarrier fs) →
    written fs xs = fs.tags
  | .nil, _, _ => rfl
  | .cons tag absence l rest, h, (x, xs) => by
    rw [written, if_neg fun ho => h.1 ho.1, written_eq_tags h.2 xs, Fields.tags]

/-- The tags of a record. -/
def tags : Layout → List String
  | .record _ _ fields => fields.tags
  | _ => []

theorem keys_eq_tags {name : String} {strict : Bool} {fields : Fields}
    (h : (record name strict fields).Regular) (hw : fields.Whole) {x : FieldsCarrier fields}
    (hx : (record name strict fields).Settled x) {d : Document}
    (hd : (record name strict fields).toDocument x = .ok d) : d.keys = fields.tags := by
  obtain ⟨d', hd', hkeys, -⟩ := exists_toDocument h (Settled.writable h hx)
  obtain rfl : d = d' := Except.ok.inj (hd.symm.trans hd')
  rw [hkeys, written_eq_tags hw]

end Layout

namespace Record

open LawfulRecord Layout

theorem keys_toDocument : (k : RecordKind) → (r : k.Carrier) → {d : Document} →
    toDocument r = .ok d → d.keys = (layout k.Carrier).tags
  | .config, (c : Config), _, h =>
    keys_eq_tags regular_config (by simp [Fields.Whole]) (settled_config c) h
  | .output, (o : Output), _, h =>
    keys_eq_tags regular_output (by simp [Fields.Whole]) (settled_output o) h
  | .schema, (s : Schema), _, h =>
    keys_eq_tags regular_schema (by simp [Fields.Whole]) (settled_schema s) h
  | .input, (i : Input), _, h =>
    keys_eq_tags regular_input (by simp [Fields.Whole]) (settled_input i) h

/-- **The document of a record gives the record back.** A storable value of any regular record
layout has a document, whose keys are the tags of its fields in order, and what is read from that
document is the value with the entries of its maps in the order of their keys: the value itself if
they were in that order before. Only options without a value may be missing, in fields that leave
them out. The same holds of the records of the four kinds. -/
theorem document_gives_back :
    (∀ (name : String) (strict : Bool) (fields : Fields) (w : FieldsCarrier fields),
      (Layout.record name strict fields).Regular → (Layout.record name strict fields).Storable w →
        ∃ d, (Layout.record name strict fields).toDocument w = .ok d ∧
          d.keys = written fields w ∧ (fields.Whole → d.keys = fields.tags) ∧
          (Layout.record name strict fields).ofDocument d = .ok (arrangeFields fields w) ∧
          ((Layout.record name strict fields).Arranged w →
            (Layout.record name strict fields).ofDocument d = .ok w)) ∧
      ∀ (k : RecordKind) (r : k.Carrier), (∀ t ∈ k.timestamps r, t.HasFourDigitYear) →
        ∃ d, toDocument r = .ok d ∧ d.keys = (layout k.Carrier).tags ∧
          ofDocument k.Carrier d = .ok r := by
  constructor
  · intro name strict fields w hr hw
    obtain ⟨d, hd, hkeys, hanswers⟩ := Layout.exists_toDocument hr (Storable.writable hr hw)
    have hread := hanswers.eq_ok (Storable.legible hr hw)
    refine ⟨d, hd, hkeys, fun h => hkeys.trans (written_eq_tags h w), hread, fun harranged => ?_⟩
    rw [hread]
    exact congrArg _ (arrange_of_arranged _ hr w harranged)
  · intro k r ht
    obtain ⟨d, hd⟩ := exists_toDocument r
    exact ⟨d, hd, keys_toDocument k r hd,
      (ofDocument_answers hd).eq_ok ((legible_iff k r).2 ht)⟩

/-- An order of a number of parcels, some with a weight, and marks by name. -/
def specimenFields : Fields :=
  .cons "count" .required (.integer false 64) <|
  .cons "weights" .required (.list (.option .single)) <|
  .cons "marks" .required (.map .text (.choice "Mark" <|
    .cons "Plain" .none <|
    .cons "Seal" (.many (.cons .char <| .cons (.integer true 8) .nil)) .nil)) .nil

/-- An order with two parcels and two marks. -/
def specimenOrder : FieldsCarrier specimenFields :=
  (⟨2, by decide⟩, [some (.ofInt Number.binary32 3), none],
    [("back", .inr (.inl ('x', ⟨-1, by decide⟩, ()))), ("front", .inl ())], ())

theorem document_gives_back_specimen :
    (Layout.record "Order" false specimenFields).Regular ∧
      (Layout.record "Order" false specimenFields).Storable specimenOrder ∧
      (Layout.record "Order" false specimenFields).Arranged specimenOrder ∧ specimenFields.Whole ∧
      (∃ d, (Layout.record "Order" false specimenFields).toDocument specimenOrder = .ok d ∧
        d.keys = ["count", "weights", "marks"] ∧
        (Layout.record "Order" false specimenFields).ofDocument d = .ok specimenOrder) ∧
      ∃ d, toDocument (Input.specimen .lastLegible) = .ok d ∧
        ofDocument Input d = .ok (Input.specimen .lastLegible) := by
  have hr : (Layout.record "Order" false specimenFields).Regular := by
    simp [specimenFields, Regular, RegularFields, Fields.tags, NeverNull, Variants.tags,
      RegularVariants, RegularPayload, RegularItems]
  have hnan : (Number.Floating.ofInt Number.binary32 3).isNaN = false := by decide +kernel
  have hs : (Layout.record "Order" false specimenFields).Storable specimenOrder :=
    ⟨fun _ => show (2 : Int) ≤ 9223372036854775807 by decide,
      each_cons.2 ⟨hnan, each_cons.2 ⟨trivial, List.forall_mem_nil _⟩⟩,
      ⟨show ["back", "front"].Nodup by decide,
        each_cons.2 ⟨⟨trivial, by rintro ⟨⟩, trivial⟩,
          each_cons.2 ⟨trivial, List.forall_mem_nil _⟩⟩⟩,
      trivial⟩
  have ha : (Layout.record "Order" false specimenFields).Arranged specimenOrder :=
    ⟨trivial, each_cons.2 ⟨trivial, each_cons.2 ⟨trivial, List.forall_mem_nil _⟩⟩,
      ⟨List.pairwise_pair.2 (show Sorted.textBefore "back" "front" = true by decide),
        each_cons.2 ⟨⟨trivial, trivial, trivial⟩, each_cons.2 ⟨trivial, List.forall_mem_nil _⟩⟩⟩,
      trivial⟩
  have hw : specimenFields.Whole := by simp [specimenFields, Fields.Whole]
  obtain ⟨d, hd, -, hkeys, -, hread⟩ := document_gives_back.1 _ _ _ _ hr hs
  obtain ⟨d', hd', -, hread'⟩ := document_gives_back.2 .input (Input.specimen .lastLegible)
    (by decide)
  exact ⟨hr, hs, ha, hw, ⟨d, hd, hkeys hw, hread ha⟩, d', hd', hread'⟩

end Record

end JobRegistry
