import JobRegistry.Mapper.Decode

/-!
# Trees without surplus items

An array that stands for a tuple, for the payload of a tuple variant or for a record may have more
items than there are places for them. `Layout.Snug` says that none has, at any depth of a tree.

`Layout.cut` drops the items of a value that are left over (`snug_cut`) and changes nothing else
(`cut_of_snug`).
-/

namespace JobRegistry.Layout

/-! ## Trees without surplus items -/

section

variable {α : Type}

mutual

/-- No array in the tree has more items than the tuple or record has places for which it stands. -/
def Snug (r : Reading α) : Layout → α → Prop
  | .option inner, a =>
    match r.node a with
    | .null => True
    | _ => Snug r inner a
  | .newtype _ inner, a => Snug r inner a
  | .list item, a =>
    match r.node a with
    | .items xs => ∀ x ∈ xs, Snug r item x
    | _ => True
  | .tuple _ items, a =>
    match r.node a with
    | .items xs => xs.length ≤ items.size ∧ SnugItems r items xs
    | _ => True
  | .map _ item, a =>
    match r.node a with
    | .members ms => ∀ m ∈ ms, Snug r item m.2
    | _ => True
  | .record _ _ fields, a =>
    match r.node a with
    | .items xs => xs.length ≤ fields.size ∧ SnugPlaces r fields xs
    | .members ms => ∀ m ∈ ms, SnugUnder r fields m.1 m.2
    | _ => True
  | .choice _ variants, a =>
    match r.node a with
    | .members [(tag, payload)] => SnugVariant r variants tag payload
    | _ => True
  | _, _ => True

/-- None of the items of a tuple has surplus items, each in its place. -/
def SnugItems (r : Reading α) : Items → List α → Prop
  | .cons item rest, a :: as => Snug r item a ∧ SnugItems r rest as
  | _, _ => True

/-- None of the items that stand for the fields of a record, in their order, has surplus items. -/
def SnugPlaces (r : Reading α) : Fields → List α → Prop
  | .cons _ _ l rest, a :: as => Snug r l a ∧ SnugPlaces r rest as
  | _, _ => True

/-- What a member of a record has under its key has no surplus items for the field of that tag. -/
def SnugUnder (r : Reading α) : Fields → String → α → Prop
  | .nil, _, _ => True
  | .cons tag _ l rest, key, a => if tag = key then Snug r l a else SnugUnder r rest key a

/-- The payload under a tag has no surplus items for the variant of that tag. -/
def SnugVariant (r : Reading α) : Variants → String → α → Prop
  | .nil, _, _ => True
  | .cons t p rest, tag, a => if t = tag then SnugPayload r p a else SnugVariant r rest tag a

/-- What stands for a payload has no surplus items, and no more than the payload has places. -/
def SnugPayload (r : Reading α) : Payload → α → Prop
  | .none, _ => True
  | .one l, a => Snug r l a
  | .many items, a =>
    match r.node a with
    | .items xs => xs.length ≤ items.size ∧ SnugItems r items xs
    | _ => True
  | .fields fs, a =>
    match r.node a with
    | .members ms => ∀ m ∈ ms, SnugUnder r fs m.1 m.2
    | _ => True

end

end

/-! ## Dropping surplus items -/

mutual

/-- The value without the items for which there are no places, at any depth. -/
def cut : Layout → Value → Value
  | .option inner, v => cut inner v
  | .newtype _ inner, v => cut inner v
  | .list item, v =>
    match v with
    | .array vs => .array (vs.map (cut item))
    | v => v
  | .tuple _ items, v =>
    match v with
    | .array vs => .array (cutItems items vs)
    | v => v
  | .map _ item, v =>
    match v with
    | .document entries => .document (entries.map fun e => (e.1, cut item e.2))
    | v => v
  | .record _ _ fields, v =>
    match v with
    | .array vs => .array (cutPlaces fields vs)
    | .document entries => .document (entries.map fun e => (e.1, cutUnder fields e.1 e.2))
    | v => v
  | .choice _ variants, v =>
    match v with
    | .document [(tag, payload)] => .document [(tag, cutVariant variants tag payload)]
    | v => v
  | _, v => v

/-- The items of a tuple, each cut in its place, without those past the last place. -/
def cutItems : Items → List Value → List Value
  | .cons item rest, v :: vs => cut item v :: cutItems rest vs
  | _, _ => []

/-- The items that stand for the fields of a record, each cut, without those past the last field. -/
def cutPlaces : Fields → List Value → List Value
  | .cons _ _ l rest, v :: vs => cut l v :: cutPlaces rest vs
  | _, _ => []

/-- What a record has under a key, cut for the field of that tag. -/
def cutUnder : Fields → String → Value → Value
  | .nil, _, v => v
  | .cons tag _ l rest, key, v => if tag = key then cut l v else cutUnder rest key v

/-- The payload under a tag, cut for the variant of that tag. -/
def cutVariant : Variants → String → Value → Value
  | .nil, _, v => v
  | .cons t p rest, tag, v => if t = tag then cutPayload p v else cutVariant rest tag v

/-- What stands for a payload, without the items for which it has no places. -/
def cutPayload : Payload → Value → Value
  | .none, v => v
  | .one l, v => cut l v
  | .many items, v =>
    match v with
    | .array vs => .array (cutItems items vs)
    | v => v
  | .fields fs, v =>
    match v with
    | .document entries => .document (entries.map fun e => (e.1, cutUnder fs e.1 e.2))
    | v => v

end

/-- Null is cut to null, and nothing else is. -/
theorem cut_eq_null_iff : (l : Layout) → (v : Value) → l.cut v = .null ↔ v = .null
  | .option inner, v => cut_eq_null_iff inner v
  | .newtype _ inner, v => cut_eq_null_iff inner v
  | .list _, v | .tuple _ _, v | .map _ _, v | .record _ _ _, v => by cases v <;> simp [cut]
  | .choice _ _, v => by
    cases v with
    | document entries =>
      match entries with
      | [] | [_] | _ :: _ :: _ => simp [cut]
    | _ => simp [cut]
  | .bool, _ | .integer _ _, _ | .single, _ | .double, _ | .char, _ | .text, _ | .bytes, _
  | .unit, _ | .unitStruct _, _ | .recordId, _ | .timestamp, _ | .value, _ | .document, _ => .rfl

theorem exists_cut_document : (l : Layout) → (entries : Entries) →
    ∃ entries', l.cut (.document entries) = .document entries'
  | .option inner, entries => exists_cut_document inner entries
  | .newtype _ inner, entries => exists_cut_document inner entries
  | .choice _ _, entries => by
    match entries with
    | [] | [_] | _ :: _ :: _ => exact ⟨_, rfl⟩
  | .list _, _ | .tuple _ _, _ | .map _ _, _ | .record _ _ _, _ | .bool, _ | .integer _ _, _
  | .single, _ | .double, _ | .char, _ | .text, _ | .bytes, _ | .unit, _ | .unitStruct _, _
  | .recordId, _ | .timestamp, _ | .value, _ | .document, _ => ⟨_, rfl⟩

/-! ## What is cut is snug -/

theorem length_cutItems_le : (is : Items) → (vs : List Value) → (cutItems is vs).length ≤ is.size
  | .nil, _ => Nat.zero_le _
  | .cons _ _, [] => Nat.zero_le _
  | .cons _ rest, _ :: vs => Nat.succ_le_succ (length_cutItems_le rest vs)

theorem length_cutPlaces_le : (fs : Fields) → (vs : List Value) →
    (cutPlaces fs vs).length ≤ fs.size
  | .nil, _ => Nat.zero_le _
  | .cons _ _ _ _, [] => Nat.zero_le _
  | .cons _ _ _ rest, _ :: vs => Nat.succ_le_succ (length_cutPlaces_le rest vs)

mutual

/-- **What is cut has no surplus items.** -/
theorem snug_cut : (l : Layout) → (v : Value) → Snug .document l (l.cut v)
  | .option inner, v => by
    rw [Snug]
    split
    · trivial
    · exact snug_cut inner v
  | .newtype _ inner, v => snug_cut inner v
  | .list item, v => by
    cases v with
    | array vs => exact List.forall_mem_map.2 fun v _ => snug_cut item v
    | _ => trivial
  | .tuple _ items, v => by
    cases v with
    | array vs => exact ⟨length_cutItems_le items vs, snug_cutItems items vs⟩
    | _ => trivial
  | .map _ item, v => by
    cases v with
    | document entries => exact List.forall_mem_map.2 fun e _ => snug_cut item e.2
    | _ => trivial
  | .record _ _ fields, v => by
    cases v with
    | array vs => exact ⟨length_cutPlaces_le fields vs, snug_cutPlaces fields vs⟩
    | document entries => exact List.forall_mem_map.2 fun e _ => snug_cutUnder fields e.1 e.2
    | _ => trivial
  | .choice _ variants, v => by
    cases v with
    | document entries =>
      match entries with
      | [(tag, payload)] => exact snug_cutVariant variants tag payload
      | [] | _ :: _ :: _ => trivial
    | _ => trivial
  | .bool, _ | .integer _ _, _ | .single, _ | .double, _ | .char, _ | .text, _ | .bytes, _
  | .unit, _ | .unitStruct _, _ | .recordId, _ | .timestamp, _ | .value, _ | .document, _ => trivial

theorem snug_cutItems : (is : Items) → (vs : List Value) →
    SnugItems .document is (cutItems is vs)
  | .nil, _ => trivial
  | .cons _ _, [] => trivial
  | .cons item rest, v :: vs => ⟨snug_cut item v, snug_cutItems rest vs⟩

theorem snug_cutPlaces : (fs : Fields) → (vs : List Value) →
    SnugPlaces .document fs (cutPlaces fs vs)
  | .nil, _ => trivial
  | .cons _ _ _ _, [] => trivial
  | .cons _ _ l rest, v :: vs => ⟨snug_cut l v, snug_cutPlaces rest vs⟩

theorem snug_cutUnder : (fs : Fields) → (key : String) → (v : Value) →
    SnugUnder .document fs key (cutUnder fs key v)
  | .nil, _, _ => trivial
  | .cons tag _ l rest, key, v => by
    rw [SnugUnder, cutUnder]
    split
    · exact snug_cut l v
    · exact snug_cutUnder rest key v

theorem snug_cutVariant : (vs : Variants) → (tag : String) → (v : Value) →
    SnugVariant .document vs tag (cutVariant vs tag v)
  | .nil, _, _ => trivial
  | .cons t p rest, tag, v => by
    rw [SnugVariant, cutVariant]
    split
    · exact snug_cutPayload p v
    · exact snug_cutVariant rest tag v

theorem snug_cutPayload : (p : Payload) → (v : Value) → SnugPayload .document p (cutPayload p v)
  | .none, _ => trivial
  | .one l, v => snug_cut l v
  | .many items, v => by
    cases v with
    | array vs => exact ⟨length_cutItems_le items vs, snug_cutItems items vs⟩
    | _ => trivial
  | .fields fs, v => by
    cases v with
    | document entries => exact List.forall_mem_map.2 fun e _ => snug_cutUnder fs e.1 e.2
    | _ => trivial

end

mutual

/-- **Nothing is cut from a value without surplus items.** -/
theorem cut_of_snug : (l : Layout) → {v : Value} → Snug .document l v → l.cut v = v
  | .option inner, v, h => by
    cases v with
    | null => exact (cut_eq_null_iff inner .null).2 rfl
    | _ => exact cut_of_snug inner h
  | .newtype _ inner, _, h => cut_of_snug inner h
  | .list item, v, h => by
    cases v with
    | array vs =>
      exact congrArg Value.array
        ((List.map_congr_left fun v hv => cut_of_snug item (h v hv)).trans (List.map_id' vs))
    | _ => rfl
  | .tuple _ items, v, h => by
    cases v with
    | array vs => exact congrArg Value.array (cutItems_of_snug items h.1 h.2)
    | _ => rfl
  | .map _ item, v, h => by
    cases v with
    | document entries =>
      refine congrArg Value.document (Eq.trans ?_ (List.map_id' entries))
      exact List.map_congr_left fun e he => by rw [cut_of_snug item (h e he)]
    | _ => rfl
  | .record _ _ fields, v, h => by
    cases v with
    | array vs => exact congrArg Value.array (cutPlaces_of_snug fields h.1 h.2)
    | document entries =>
      refine congrArg Value.document (Eq.trans ?_ (List.map_id' entries))
      exact List.map_congr_left fun e he => by rw [cutUnder_of_snug fields (h e he)]
    | _ => rfl
  | .choice _ variants, v, h => by
    cases v with
    | document entries =>
      match entries, h with
      | [(tag, payload)], h =>
        show Value.document [(tag, cutVariant variants tag payload)] = _
        rw [cutVariant_of_snug variants h]
      | [], _ | _ :: _ :: _, _ => rfl
    | _ => rfl
  | .bool, _, _ | .integer _ _, _, _ | .single, _, _ | .double, _, _ | .char, _, _ | .text, _, _
  | .bytes, _, _ | .unit, _, _ | .unitStruct _, _, _ | .recordId, _, _ | .timestamp, _, _
  | .value, _, _ | .document, _, _ => rfl

theorem cutItems_of_snug : (is : Items) → {vs : List Value} → vs.length ≤ is.size →
    SnugItems .document is vs → cutItems is vs = vs
  | .nil, [], _, _ => rfl
  | .cons _ _, [], _, _ => rfl
  | .cons item rest, v :: vs, hlen, ⟨hv, hvs⟩ => by
    rw [cutItems, cut_of_snug item hv, cutItems_of_snug rest (Nat.le_of_succ_le_succ hlen) hvs]

theorem cutPlaces_of_snug : (fs : Fields) → {vs : List Value} → vs.length ≤ fs.size →
    SnugPlaces .document fs vs → cutPlaces fs vs = vs
  | .nil, [], _, _ => rfl
  | .cons _ _ _ _, [], _, _ => rfl
  | .cons _ _ l rest, v :: vs, hlen, ⟨hv, hvs⟩ => by
    rw [cutPlaces, cut_of_snug l hv, cutPlaces_of_snug rest (Nat.le_of_succ_le_succ hlen) hvs]

theorem cutUnder_of_snug : (fs : Fields) → {key : String} → {v : Value} →
    SnugUnder .document fs key v → cutUnder fs key v = v
  | .nil, _, _, _ => rfl
  | .cons tag _ l rest, key, v, h => by
    rw [SnugUnder] at h
    rw [cutUnder]
    by_cases htag : tag = key
    · rw [if_pos htag] at h ⊢
      exact cut_of_snug l h
    · rw [if_neg htag] at h ⊢
      exact cutUnder_of_snug rest h

theorem cutVariant_of_snug : (vs : Variants) → {tag : String} → {v : Value} →
    SnugVariant .document vs tag v → cutVariant vs tag v = v
  | .nil, _, _, _ => rfl
  | .cons t p rest, tag, v, h => by
    rw [SnugVariant] at h
    rw [cutVariant]
    by_cases htag : t = tag
    · rw [if_pos htag] at h ⊢
      exact cutPayload_of_snug p h
    · rw [if_neg htag] at h ⊢
      exact cutVariant_of_snug rest h

theorem cutPayload_of_snug : (p : Payload) → {v : Value} → SnugPayload .document p v →
    cutPayload p v = v
  | .none, _, _ => rfl
  | .one l, _, h => cut_of_snug l h
  | .many items, v, h => by
    cases v with
    | array vs => exact congrArg Value.array (cutItems_of_snug items h.1 h.2)
    | _ => rfl
  | .fields fs, v, h => by
    cases v with
    | document entries =>
      refine congrArg Value.document (Eq.trans ?_ (List.map_id' entries))
      exact List.map_congr_left fun e he => by rw [cutUnder_of_snug fs (h e he)]
    | _ => rfl

end

end JobRegistry.Layout
