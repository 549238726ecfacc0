import JobRegistry.Proofs.Json.Normal
import JobRegistry.Proofs.Mapper.KeyOrder
import JobRegistry.Proofs.Mapper.Snug

/-!
# Reading surplus items

A document is read as if it had been cut before (`decode_cut`): items of an array for which there
are no places are dropped without a word. JSON properties that have such items are not read
(`snug_of_decode`).
-/

namespace JobRegistry

/-! ## Trees in normal form -/

namespace Json

/-- Of a tree in normal form the items are. -/
theorem sorted_of_mem_array {items : List Json} (h : (array items).sorted = .array items) :
    ∀ j ∈ items, j.sorted = j := by
  have hitems : sortedItems items = items := array.inj h
  rw [← hitems]
  exact sorted_of_mem_sortedItems items

/-- Of a tree in normal form the members are, and they have different names. -/
theorem sorted_of_mem_object {members : List (String × Json)}
    (h : (object members).sorted = .object members) :
    (members.map Prod.fst).Nodup ∧ ∀ m ∈ members, m.2.sorted = m.2 := by
  have hmembers : Sorted.ofList Sorted.textBefore (sortedMembers members) = members :=
    object.inj h
  constructor
  · rw [← hmembers]
    exact (Sorted.ordered_ofList _).nodup_keys
  · intro m hm
    rw [← hmembers] at hm
    exact sorted_of_mem_sortedMembers members m (Sorted.mem_ofList hm)

end Json

namespace Layout

variable {α : Type}

/-! ## Distinct tags -/

mutual

/-- No record that is part of the layout has two fields of one tag. -/
def WellTagged : Layout → Prop
  | .option inner => WellTagged inner
  | .newtype _ inner => WellTagged inner
  | .list item => WellTagged item
  | .tuple _ items => WellTaggedItems items
  | .map _ item => WellTagged item
  | .record _ _ fields => fields.tags.Nodup ∧ WellTaggedFields fields
  | .choice _ variants => WellTaggedVariants variants
  | _ => True

/-- The tags are distinct in all records that are part of the items of a tuple. -/
def WellTaggedItems : Items → Prop
  | .nil => True
  | .cons item rest => WellTagged item ∧ WellTaggedItems rest

/-- The tags are distinct in all records that are part of the fields of a record. -/
def WellTaggedFields : Fields → Prop
  | .nil => True
  | .cons _ _ layout rest => WellTagged layout ∧ WellTaggedFields rest

/-- The tags are distinct in all records that are part of a payload of some variant. -/
def WellTaggedVariants : Variants → Prop
  | .nil => True
  | .cons _ payload rest => WellTaggedPayload payload ∧ WellTaggedVariants rest

/-- The tags are distinct among the fields of a payload, and in all records that are part of it. -/
def WellTaggedPayload : Payload → Prop
  | .none => True
  | .one layout => WellTagged layout
  | .many items => WellTaggedItems items
  | .fields fields => fields.tags.Nodup ∧ WellTaggedFields fields

end

mutual

/-- A plain layout whose values can be told apart in documents is well tagged. -/
theorem wellTagged_of_plain : (l : Layout) → l.Plain → l.Regular → l.WellTagged
  | .bool, _, _ | .text, _, _ | .recordId, _, _ | .timestamp, _, _ => trivial
  | .list item, hl, hr => wellTagged_of_plain item hl hr
  | .record _ _ fields, hl, hr => ⟨hr.1, wellTagged_of_plainFields fields hl hr.2⟩
  | .choice _ variants, hl, _ => wellTagged_of_bare variants hl

theorem wellTagged_of_plainFields : (fs : Fields) → PlainFields fs → RegularFields fs →
    WellTaggedFields fs
  | .nil, _, _ => trivial
  | .cons _ _ l rest, ⟨_, hl, hrest⟩, ⟨hr, hrr⟩ =>
    ⟨wellTagged_of_plain l hl hr, wellTagged_of_plainFields rest hrest hrr⟩

theorem wellTagged_of_bare : (vs : Variants) → vs.Bare → WellTaggedVariants vs
  | .nil, _ => trivial
  | .cons _ _ rest, ⟨hp, hrest⟩ => ⟨by rw [hp]; trivial, wellTagged_of_bare rest hrest⟩

end

/-! ## Documents -/

section

variable {β : Type}

theorem decodeList_map {γ : Type} (item : γ → Except DecodeError β) (f : α → γ) (i : Nat)
    (as : List α) : decodeList item i (as.map f) = decodeList (fun a => item (f a)) i as := by
  induction as generalizing i with
  | nil => rfl
  | cons a as ih => rw [List.map_cons, decodeList, decodeList, ih]

theorem decodeMap_map {κ γ : Type} (before : κ → κ → Bool) (key : String → Except DecodeError κ)
    (item : γ → Except DecodeError β) (f : α → γ) (entries : List (κ × β))
    (ms : List (String × α)) :
    decodeMap before key item entries (ms.map fun m => (m.1, f m.2)) =
      decodeMap before key (fun a => item (f a)) entries ms := by
  induction ms generalizing entries with
  | nil => rfl
  | cons m ms ih => simp only [List.map_cons, decodeMap, ih]

theorem strangerAt?_map (tags : List String) (f : String × α → β) (i : Nat)
    (ms : List (String × α)) :
    strangerAt? tags i (ms.map fun m => (m.1, f m)) = strangerAt? tags i ms := by
  induction ms generalizing i with
  | nil => rfl
  | cons m ms ih => rw [List.map_cons, strangerAt?, strangerAt?, ih]

theorem memberAt?_map (f : String → α → β) (tag : String) (i : Nat) (ms : List (String × α)) :
    memberAt? tag i (ms.map fun m => (m.1, f m.1 m.2)) =
      (memberAt? tag i ms).map fun m => (m.1, f tag m.2) := by
  induction ms generalizing i with
  | nil => rfl
  | cons m ms ih =>
    rw [List.map_cons, memberAt?, memberAt?]
    split
    · next h => rw [h]; rfl
    · exact ih (i + 1)

end

theorem decode_option {inner : Layout} {v : Value} (h : v ≠ .null) :
    decode .document (.option inner) v = (decode .document inner v).map some := by
  cases v with
  | null => exact absurd rfl h
  | _ => rfl

/-- A document is not refused for surplus items. -/
theorem bind_checkSurplus {β : Type} (x : Except DecodeError β) (vs : List Value) (size : Nat) :
    x >>= checkSurplus .document vs size = x := by
  cases x with
  | error e => rfl
  | ok b =>
    show checkSurplus .document vs size b = .ok b
    exact (checkSurplus_eq_ok _).2 ⟨fun h => Bool.false_ne_true h.1, rfl⟩

/-- What is settled are the values of the fields, and of the other members their names only. -/
theorem settle_map {β γ : Type} (strict : Bool) (tags : List String) (f : String × α → γ)
    (ms : List (String × α)) {values values' : Except Fault β} (h : values' = values) :
    settle strict tags (ms.map fun m => (m.1, f m)) values' = settle strict tags ms values := by
  rw [h]
  unfold settle
  rw [strangerAt?_map]

/-- A field of a record is read from what is under its own tag. -/
theorem cutUnder_of_mem : {fs : Fields} → fs.tags.Nodup → {tag : String} → {l : Layout} →
    (tag, l) ∈ fs.layouts → cutUnder fs tag = l.cut
  | .cons t _ l rest, hnodup, tag, l', hmem => by
    obtain ⟨hnot, hrest⟩ := List.nodup_cons.1 hnodup
    funext v
    rw [cutUnder]
    rcases List.mem_cons.1 hmem with heq | hmem
    · obtain ⟨rfl, rfl⟩ := Prod.mk.inj heq
      rw [if_pos rfl]
    · have hne : t ≠ tag := by
        rintro rfl
        exact hnot (mem_tags_of_mem_layouts hmem)
      rw [if_neg hne, cutUnder_of_mem hrest hmem]

mutual

/-- **A document is read as if it had been cut before.** -/
theorem decode_cut : (l : Layout) → l.WellTagged → (v : Value) →
    decode .document l (l.cut v) = decode .document l v
  | .option inner, hl, v => by
    by_cases hv : v = .null
    · rw [hv, (cut_eq_null_iff (.option inner) .null).2 rfl]
    · rw [decode_option hv, decode_option (mt (cut_eq_null_iff (.option inner) v).1 hv), cut,
        decode_cut inner hl v]
  | .newtype _ inner, hl, v => decode_cut inner hl v
  | .list item, hl, v => by
    cases v with
    | array vs =>
      exact (decodeList_map _ _ 0 vs).trans
        (congrArg (decodeList · 0 vs) (funext fun v => decode_cut item hl v))
    | _ => rfl
  | .tuple name items, hl, v => by
    cases v with
    | array vs =>
      exact (bind_checkSurplus _ _ _).trans
        ((decodeTuple_cut items hl).trans (bind_checkSurplus _ vs _).symm)
    | _ => rfl
  | .map key item, hl, v => by
    cases v with
    | document entries =>
      exact (decodeMap_map _ _ _ _ [] entries).trans
        (congrArg (decodeMap _ _ · [] entries) (funext fun v => decode_cut item hl v))
    | _ => rfl
  | .record name strict fields, ⟨hnodup, hfields⟩, v => by
    cases v with
    | array vs =>
      exact (bind_checkSurplus _ _ _).trans
        ((decodeSequence_cut fields hfields).trans (bind_checkSurplus _ vs _).symm)
    | document entries =>
      -- Cutting keeps the keys and their places, and with them which fault stands first.
      exact settle_map strict fields.tags (fun e => cutUnder fields e.1 e.2) entries
        (decodeFields_cut fields hfields fun _ _ => cutUnder_of_mem hnodup)
    | _ => rfl
  | .choice name variants, hl, v => by
    cases v with
    | document entries =>
      match entries with
      | [(tag, payload)] => exact decodeVariant_cut variants hl
      | [] | _ :: _ :: _ => rfl
    | _ => rfl
  | .bool, _, _ | .integer _ _, _, _ | .single, _, _ | .double, _, _ | .char, _, _ | .text, _, _
  | .bytes, _, _ | .unit, _, _ | .unitStruct _, _, _ | .recordId, _, _ | .timestamp, _, _
  | .value, _, _ | .document, _, _ => rfl

theorem decodeTuple_cut : (is : Items) → WellTaggedItems is → {title : String} → {i : Nat} →
    {vs : List Value} →
    decodeTuple .document title is i (cutItems is vs) = decodeTuple .document title is i vs
  | .nil, _, _, _, _ => rfl
  | .cons _ _, _, _, _, [] => rfl
  | .cons item rest, ⟨hitem, hrest⟩, _, _, v :: vs => by
    rw [cutItems, decodeTuple, decodeTuple, decode_cut item hitem v, decodeTuple_cut rest hrest]

theorem decodeSequence_cut : (fs : Fields) → WellTaggedFields fs → {title : String} → {i : Nat} →
    {vs : List Value} →
    decodeSequence .document title fs i (cutPlaces fs vs) = decodeSequence .document title fs i vs
  | .nil, _, _, _, _ => rfl
  | .cons _ _ _ _, _, _, _, [] => rfl
  | .cons _ _ l rest, ⟨hl, hrest⟩, _, _, v :: vs => by
    rw [cutPlaces, decodeSequence_cons, decodeSequence_cons, decode_cut l hl v,
      decodeSequence_cut rest hrest]

theorem decodeFields_cut {entries : Entries} {f : String → Value → Value} : (fs : Fields) →
    WellTaggedFields fs → (∀ tag l, (tag, l) ∈ fs.layouts → f tag = l.cut) →
    decodeFields .document (entries.map fun e => (e.1, f e.1 e.2)) fs =
      decodeFields .document entries fs
  | .nil, _, _ => rfl
  | .cons tag absence l rest, ⟨hl, hrest⟩, hf => by
    have htail : decodeFields .document (entries.map fun e => (e.1, f e.1 e.2)) rest =
        decodeFields .document entries rest :=
      decodeFields_cut rest hrest fun tag l hmem => hf tag l (List.mem_cons_of_mem _ hmem)
    rw [decodeFields, decodeFields, htail, memberAt?_map, hf tag l List.mem_cons_self,
      List.length_map]
    cases memberAt? tag 0 entries with
    | none => rfl
    | some m =>
      simp only [Option.map_some, decode_cut l hl]
      rfl

theorem decodeVariant_cut {name tag : String} {payload : Value} {known : List String} :
    (vs : Variants) → WellTaggedVariants vs →
    decodeVariant .document name tag (cutVariant vs tag payload) known vs =
      decodeVariant .document name tag payload known vs
  | .nil, _ => rfl
  | .cons t p rest, ⟨hp, hrest⟩ => by
    rw [cutVariant, decodeVariant, decodeVariant]
    by_cases htag : t = tag
    · rw [if_pos htag, if_pos htag, if_pos htag, decodePayload_cut p hp]
    · rw [if_neg htag, if_neg htag, if_neg htag, decodeVariant_cut rest hrest]

theorem decodePayload_cut {title : String} {v : Value} : (p : Payload) → WellTaggedPayload p →
    decodePayload .document title (cutPayload p v) p = decodePayload .document title v p
  | .none, _ => rfl
  | .one l, hl => decode_cut l hl v
  | .many items, hitems => by
    cases v with
    | array vs =>
      exact (bind_checkSurplus _ _ _).trans
        ((decodeTuple_cut items hitems).trans (bind_checkSurplus _ vs _).symm)
    | _ => rfl
  | .fields fs, ⟨hnodup, hfs⟩ => by
    cases v with
    | document entries =>
      exact settle_map false fs.tags (fun e => cutUnder fs e.1 e.2) entries
        (decodeFields_cut fs hfs fun _ _ => cutUnder_of_mem hnodup)
    | _ => rfl

end

/-! ## JSON properties -/

section

variable {β : Type}

theorem exists_of_mem_decodeList {item : α → Except DecodeError β} {as : List α} {bs : List β}
    {i : Nat} (h : decodeList item i as = .ok bs) : ∀ a ∈ as, ∃ b, item a = .ok b := by
  have hall := (decodeList_eq_ok i).1 h
  clear h
  induction hall with
  | nil => exact List.forall_mem_nil _
  | cons hb _ ih => exact List.forall_mem_cons.2 ⟨⟨_, hb⟩, ih⟩

theorem exists_of_mem_decodeMap {κ : Type} {before : κ → κ → Bool}
    {key : String → Except DecodeError κ} {item : α → Except DecodeError β}
    {ms : List (String × α)} {entries entries' : List (κ × β)}
    (h : decodeMap before key item entries ms = .ok entries') :
    ∀ m ∈ ms, ∃ b, item m.2 = .ok b := by
  induction ms generalizing entries with
  | nil => exact List.forall_mem_nil _
  | cons m ms ih =>
    obtain ⟨k, -, h⟩ := bind_eq_ok.1 h
    obtain ⟨b, hb, h⟩ := bind_eq_ok.1 h
    exact List.forall_mem_cons.2 ⟨⟨b, mapError_eq_ok.1 hb⟩, ih h⟩

theorem exists_memberAt?_of_mem {tag : String} {a : α} {ms : List (String × α)}
    (hnodup : (ms.map Prod.fst).Nodup) (h : (tag, a) ∈ ms) (i : Nat) :
    ∃ j, memberAt? tag i ms = some (j, a) := by
  induction ms generalizing i with
  | nil => cases h
  | cons m ms ih =>
    obtain ⟨hnot, hnodup⟩ := List.nodup_cons.1 hnodup
    rw [memberAt?]
    rcases List.mem_cons.1 h with rfl | h
    · exact ⟨i, if_pos rfl⟩
    · have hne : m.1 ≠ tag := by
        rintro rfl
        exact hnot (List.mem_map.2 ⟨_, h, rfl⟩)
      rw [if_neg hne]
      exact ih hnodup h (i + 1)

end

/-- Properties are refused for surplus items. -/
theorem bind_checkSurplus_eq_ok {β : Type} {x : Except DecodeError β} {js : List Json} {size : Nat}
    {b : β} (h : x >>= checkSurplus .properties js size = .ok b) :
    js.length ≤ size ∧ x = .ok b := by
  obtain ⟨b', hx, h⟩ := bind_eq_ok.1 h
  obtain ⟨hlen, rfl⟩ := (checkSurplus_eq_ok .properties).1 h
  exact ⟨Nat.le_of_not_lt fun hlt => hlen ⟨rfl, hlt⟩, hx⟩

mutual

/-- **Properties that are read have no surplus items.** -/
theorem snug_of_decode : (l : Layout) → {j : Json} → j.sorted = j → {x : l.Carrier} →
    decode .properties l j = .ok x → Snug .properties l j
  | .option inner, j, hj, x, h => by
    cases j with
    | null => trivial
    | _ =>
      obtain ⟨y, hy, -⟩ := map_eq_ok.1 h
      exact snug_of_decode inner hj hy
  | .newtype _ inner, _, hj, _, h => snug_of_decode inner hj h
  | .list item, j, hj, x, h => by
    cases j with
    | array js =>
      intro j hmem
      obtain ⟨y, hy⟩ := exists_of_mem_decodeList h j hmem
      exact snug_of_decode item (Json.sorted_of_mem_array hj j hmem) hy
    | _ => trivial
  | .tuple _ items, j, hj, x, h => by
    cases j with
    | array js =>
      obtain ⟨hlen, hread⟩ := bind_checkSurplus_eq_ok h
      exact ⟨hlen, snug_of_decodeTuple items (Json.sorted_of_mem_array hj) hread⟩
    | _ => trivial
  | .map _ item, j, hj, x, h => by
    cases j with
    | object ms =>
      intro m hmem
      obtain ⟨y, hy⟩ := exists_of_mem_decodeMap h m hmem
      exact snug_of_decode item ((Json.sorted_of_mem_object hj).2 m hmem) hy
    | _ => trivial
  | .record _ _ fields, j, hj, x, h => by
    cases j with
    | array js =>
      obtain ⟨hlen, hread⟩ := bind_checkSurplus_eq_ok h
      exact ⟨hlen, snug_of_decodeSequence fields (Json.sorted_of_mem_array hj) hread⟩
    | object ms =>
      -- A member of a normal form is the only one of its name, so it is the one that was read.
      have hread := (settle_eq_ok.1 h).2
      exact fun m hmem => snug_of_decodeFields fields (Json.sorted_of_mem_object hj) hread hmem
    | _ => trivial
  | .choice _ variants, j, hj, x, h => by
    cases j with
    | object ms =>
      match ms, hj, h with
      | [(tag, payload)], hj, h =>
        exact snug_of_decodeVariant variants
          ((Json.sorted_of_mem_object hj).2 (tag, payload) List.mem_cons_self) h
      | [], _, _ | _ :: _ :: _, _, _ => trivial
    | _ => trivial
  | .bool, _, _, _, _ | .integer _ _, _, _, _, _ | .single, _, _, _, _ | .double, _, _, _, _
  | .char, _, _, _, _ | .text, _, _, _, _ | .bytes, _, _, _, _ | .unit, _, _, _, _
  | .unitStruct _, _, _, _, _ | .recordId, _, _, _, _ | .timestamp, _, _, _, _
  | .value, _, _, _, _ | .document, _, _, _, _ => trivial

theorem snug_of_decodeTuple : (is : Items) → {title : String} → {i : Nat} → {js : List Json} →
    (∀ j ∈ js, j.sorted = j) → {xs : ItemsCarrier is} →
    decodeTuple .properties title is i js = .ok xs → SnugItems .properties is js
  | .nil, _, _, _, _, _, _ => trivial
  | .cons _ _, _, _, [], _, _, _ => trivial
  | .cons item rest, _, _, j :: js, hjs, _, h => by
    obtain ⟨hj, hjs⟩ := List.forall_mem_cons.1 hjs
    rw [decodeTuple] at h
    obtain ⟨y, hy, h⟩ := bind_eq_ok.1 h
    obtain ⟨ys, hys, -⟩ := bind_eq_ok.1 h
    exact ⟨snug_of_decode item hj (mapError_eq_ok.1 hy), snug_of_decodeTuple rest hjs hys⟩

theorem snug_of_decodeSequence : (fs : Fields) → {title : String} → {i : Nat} →
    {js : List Json} → (∀ j ∈ js, j.sorted = j) → {xs : FieldsCarrier fs} →
    decodeSequence .properties title fs i js = .ok xs → SnugPlaces .properties fs js
  | .nil, _, _, _, _, _, _ => trivial
  | .cons _ _ _ _, _, _, [], _, _, _ => trivial
  | .cons _ _ l rest, _, _, j :: js, hjs, _, h => by
    obtain ⟨hj, hjs⟩ := List.forall_mem_cons.1 hjs
    rw [decodeSequence_cons] at h
    obtain ⟨y, hy, h⟩ := bind_eq_ok.1 h
    obtain ⟨ys, hys, -⟩ := bind_eq_ok.1 h
    exact ⟨snug_of_decode l hj (mapError_eq_ok.1 hy), snug_of_decodeSequence rest hjs hys⟩

theorem snug_of_decodeFields {ms : List (String × Json)} : (fs : Fields) →
    (ms.map Prod.fst).Nodup ∧ (∀ m ∈ ms, m.2.sorted = m.2) → {xs : FieldsCarrier fs} →
    decodeFields .properties ms fs = .ok xs → {m : String × Json} → m ∈ ms →
    SnugUnder .properties fs m.1 m.2
  | .nil, _, _, _, _, _ => trivial
  | .cons tag _ l rest, hms, (x, xs), h, (key, j), hmem => by
    obtain ⟨hfield, hrest⟩ := both_eq_ok.1 h
    rw [SnugUnder]
    split
    · next htag =>
      subst htag
      obtain ⟨i, hi⟩ := exists_memberAt?_of_mem hms.1 hmem 0
      simp only [hi] at hfield
      exact snug_of_decode l (hms.2 _ hmem) (mapError_eq_ok.1 hfield)
    · exact snug_of_decodeFields rest hms hrest hmem

theorem snug_of_decodeVariant {name tag : String} {payload : Json} {known : List String} :
    (vs : Variants) → payload.sorted = payload → {x : VariantsCarrier vs} →
    decodeVariant .properties name tag payload known vs = .ok x →
    SnugVariant .properties vs tag payload
  | .nil, _, _, _ => trivial
  | .cons t p rest, hp, _, h => by
    rw [decodeVariant] at h
    rw [SnugVariant]
    by_cases htag : t = tag
    · rw [if_pos htag] at h ⊢
      obtain ⟨y, hy, -⟩ := map_eq_ok.1 h
      exact snug_of_decodePayload p hp hy
    · rw [if_neg htag] at h ⊢
      obtain ⟨y, hy, -⟩ := map_eq_ok.1 h
      exact snug_of_decodeVariant rest hp hy

theorem snug_of_decodePayload {title : String} {j : Json} : (p : Payload) → j.sorted = j →
    {x : PayloadCarrier p} → decodePayload .properties title j p = .ok x →
    SnugPayload .properties p j
  | .none, _, _, _ => trivial
  | .one l, hj, _, h => snug_of_decode l hj h
  | .many items, hj, _, h => by
    cases j with
    | array js =>
      obtain ⟨hlen, hread⟩ := bind_checkSurplus_eq_ok h
      exact ⟨hlen, snug_of_decodeTuple items (Json.sorted_of_mem_array hj) hread⟩
    | _ => trivial
  | .fields fs, hj, _, h => by
    cases j with
    | object ms =>
      have h : settle false fs.tags ms (decodeFields .properties ms fs) = .ok _ := h
      have hread := (settle_eq_ok.1 h).2
      exact fun m hmem => snug_of_decodeFields fs (Json.sorted_of_mem_object hj) hread hmem
    | _ => trivial

end

end Layout

end JobRegistry
