import JobRegistry.Proofs.Mapper.KeyOrder

/-!
# What a plain layout does not look at

A record is read by the tags of its fields. It makes no difference to a plain layout in which order
the entries of documents stand, at whatever depth, nor whether a document that stands for a record
has entries under other keys, whatever their values are: of two values that differ in no more than
that (`Layout.Rearranged`) either both are read as the same value or neither is read
(`readsSame_of_rearranged`).

That two values are read alike (`Layout.ReadsSame`) is shown for one place at a time: for the
entries of a record from the values under its tags (`readsSame_record`), and for an array from the
one item in which it differs (`readsSame_array`).
-/

namespace JobRegistry

/-! ## Rearranged values -/

/-- Values that differ only in the order of the entries of their documents. -/
inductive Value.Reordered : Value → Value → Prop
  | refl (v : Value) : Reordered v v
  | trans {u v w : Value} (h : Reordered u v) (h' : Reordered v w) : Reordered u w
  | entries {entries entries' : Entries} (keys : (entries.map Prod.fst).Nodup)
    (h : entries.Perm entries') : Reordered (.document entries) (.document entries')
  | item (front : List Value) {v w : Value} (h : Reordered v w) (back : List Value) :
    Reordered (.array (front ++ v :: back)) (.array (front ++ w :: back))
  | entry (front : Entries) (key : String) {v w : Value} (h : Reordered v w) (back : Entries) :
    Reordered (.document (front ++ (key, v) :: back)) (.document (front ++ (key, w) :: back))

namespace Layout

/-- Values that differ in no more than the order of entries, at any depth, and in entries that a
document which stands for a record has under keys that are no tags of the record. -/
inductive Rearranged : Layout → Value → Value → Prop
  | reordered {l : Layout} {v w : Value} (h : v.Reordered w) : Rearranged l v w
  | symm {l : Layout} {v w : Value} (h : Rearranged l v w) : Rearranged l w v
  | trans {l : Layout} {u v w : Value} (h : Rearranged l u v) (h' : Rearranged l v w) :
    Rearranged l u w
  /-- An entry under another key is dropped. -/
  | undeclared {name : String} {fields : Fields} (front : Entries) {key : String}
    (h : key ∉ fields.tags) (v : Value) (back : Entries) :
    Rearranged (.record name false fields) (.document (front ++ (key, v) :: back))
      (.document (front ++ back))
  /-- The value of a field is rearranged. -/
  | field {name : String} {strict : Bool} {fields : Fields} {l : Layout} (front : Entries)
    {tag : String} (hl : (tag, l) ∈ fields.layouts) {v w : Value} (h : Rearranged l v w)
    (back : Entries) :
    Rearranged (.record name strict fields) (.document (front ++ (tag, v) :: back))
      (.document (front ++ (tag, w) :: back))
  /-- The value of a field is rearranged in an array that stands for the record. -/
  | place {name : String} {strict : Bool} {fields : Fields} {l : Layout} (front : List Value)
    {tag : String} (hl : fields.layouts[front.length]? = some (tag, l)) {v w : Value}
    (h : Rearranged l v w) (back : List Value) :
    Rearranged (.record name strict fields) (.array (front ++ v :: back))
      (.array (front ++ w :: back))
  | item {l : Layout} (front : List Value) {v w : Value} (h : Rearranged l v w)
    (back : List Value) :
    Rearranged (.list l) (.array (front ++ v :: back)) (.array (front ++ w :: back))

/-- The values are read as the same value, or neither is read. -/
def ReadsSame (l : Layout) (v w : Value) : Prop :=
  ∀ x, decode .document l v = .ok x ↔ decode .document l w = .ok x

namespace ReadsSame

variable {l : Layout} {u v w : Value}

theorem refl (l : Layout) (v : Value) : ReadsSame l v v :=
  fun _ => .rfl

theorem symm (h : ReadsSame l v w) : ReadsSame l w v :=
  fun x => (h x).symm

theorem trans (h : ReadsSame l u v) (h' : ReadsSame l v w) : ReadsSame l u w :=
  fun x => (h x).trans (h' x)

end ReadsSame

end Layout

/-! ## One entry among others -/

namespace Entries

variable {key tag : String} {v w : Value}

theorem rel_get? {R : Value → Value → Prop} (hrefl : ∀ u, R u u) (h : key = tag → R v w)
    (front back : Entries) : Option.Rel R (get? tag (front ++ (key, v) :: back))
      (get? tag (front ++ (key, w) :: back)) := by
  have same : ∀ o : Option Value, Option.Rel R o o
    | none => .none
    | some u => .some (hrefl u)
  induction front with
  | nil =>
    rw [List.nil_append, List.nil_append, get?, get?]
    split
    · next hk => exact .some (h hk)
    · exact same _
  | cons e front ih =>
    obtain ⟨k, old⟩ := e
    rw [List.cons_append, List.cons_append, get?, get?]
    split
    · exact same _
    · exact ih

theorem get?_remove (h : key ≠ tag) (v : Value) (front back : Entries) :
    get? tag (front ++ (key, v) :: back) = get? tag (front ++ back) := by
  induction front with
  | nil => exact get?_cons_of_ne h v back
  | cons e front ih => rw [List.cons_append, List.cons_append, get?, get?, ih]

end Entries

namespace Layout

/-! ## Records -/

/-- The fields of a record are read alike where the values under its tags are. -/
theorem decodeFields_congr : (fs : Fields) → PlainFields fs → {ms ms' : Entries} →
    (∀ tag l, (tag, l) ∈ fs.layouts →
      Option.Rel (ReadsSame l) (Entries.get? tag ms) (Entries.get? tag ms')) →
    ∀ xs, decodeFields .document ms fs = .ok xs ↔ decodeFields .document ms' fs = .ok xs
  | .nil, _, _, _, _, _ => .rfl
  | .cons tag absence l rest, ⟨ha, hl, hrest⟩, ms, ms', h, (x, xs) => by
    subst ha
    have htail := decodeFields_congr rest hrest
      (fun t l' hmem => h t l' (List.mem_cons_of_mem _ hmem)) xs
    have hhead : (∃ v, Entries.get? tag ms = some v ∧ decode .document l v = .ok x) ↔
        ∃ v, Entries.get? tag ms' = some v ∧ decode .document l v = .ok x := by
      obtain hrel := h tag l List.mem_cons_self
      generalize Entries.get? tag ms = o, Entries.get? tag ms' = o' at hrel
      cases hrel with
      | none => exact .rfl
      | some hvw => simpa using hvw x
    rw [decodeFields_cons_eq_ok _ hl, decodeFields_cons_eq_ok _ hl, memberAt?_snd, memberAt?_snd,
      hhead, htail]

theorem strangerAt?_eq_none_iff {tags : List String} {ms : Entries} :
    strangerAt? tags 0 ms = none ↔ ∀ key ∈ ms.map Prod.fst, key ∈ tags :=
  ⟨forall_mem_of_strangerAt?, fun h => strangerAt?_eq_none h 0⟩

/-- Entries are read alike as a record where the values under its tags are, provided that a strict
record finds strangers among both or among neither. -/
theorem readsSame_record {name : String} {strict : Bool} {fields : Fields}
    (hl : PlainFields fields) {ms ms' : Entries}
    (hknown : strict = true → ((∀ key ∈ ms.map Prod.fst, key ∈ fields.tags) ↔
      ∀ key ∈ ms'.map Prod.fst, key ∈ fields.tags))
    (h : ∀ tag l, (tag, l) ∈ fields.layouts →
      Option.Rel (ReadsSame l) (Entries.get? tag ms) (Entries.get? tag ms')) :
    ReadsSame (.record name strict fields) (.document ms) (.document ms') := by
  have hread (es : Entries) (x : FieldsCarrier fields) :
      decode .document (.record name strict fields) (.document es) = .ok x ↔
        (strict = true → ∀ key ∈ es.map Prod.fst, key ∈ fields.tags) ∧
          decodeFields .document es fields = .ok x := by
    rw [← strangerAt?_eq_none_iff]
    exact settle_eq_ok
  intro x
  refine (hread ms x).trans (Iff.trans ?_ (hread ms' x).symm)
  exact and_congr (forall_congr' hknown) (decodeFields_congr fields hl h x)

/-- The fields of a record are read alike from arrays that differ in one item, where that is. -/
theorem decodeSequence_congr {v w : Value} {back : List Value} : (fs : Fields) → PlainFields fs →
    (front : List Value) →
    (∀ tag l, fs.layouts[front.length]? = some (tag, l) → ReadsSame l v w) →
    ∀ {title i xs}, decodeSequence .document title fs i (front ++ v :: back) = .ok xs ↔
      decodeSequence .document title fs i (front ++ w :: back) = .ok xs
  | .nil, _, _, _, _, _, _ => .rfl
  | .cons tag absence l rest, ⟨ha, hl, _⟩, [], h, title, i, (x, xs) => by
    subst ha
    rw [List.nil_append, List.nil_append, decodeSequence_cons_eq_ok, decodeSequence_cons_eq_ok]
    simpa using fun _ => h tag l rfl x
  | .cons tag absence l rest, ⟨ha, _, hrest⟩, u :: front, h, title, i, (x, xs) => by
    subst ha
    rw [List.cons_append, List.cons_append, decodeSequence_cons_eq_ok, decodeSequence_cons_eq_ok]
    have htail : decodeSequence .document title rest (i + 1) (front ++ v :: back) = .ok xs ↔
        decodeSequence .document title rest (i + 1) (front ++ w :: back) = .ok xs :=
      decodeSequence_congr rest hrest front h
    simpa using fun _ => htail

/-! ## Arrays -/

theorem readsSame_list {l : Layout} {v w : Value} (h : ReadsSame l v w) (front back : List Value) :
    ReadsSame (.list l) (.array (front ++ v :: back)) (.array (front ++ w :: back)) := by
  have hitems (xs : List l.Carrier) :
      List.Forall₂ (fun v x => decode .document l v = .ok x) (front ++ v :: back) xs ↔
        List.Forall₂ (fun v x => decode .document l v = .ok x) (front ++ w :: back) xs := by
    induction front generalizing xs with
    | nil => simp only [List.nil_append, List.forall₂_cons_left_iff, h _]
    | cons u front ih => simp only [List.cons_append, List.forall₂_cons_left_iff, ih]
  intro xs
  exact (decodeList_eq_ok 0).trans ((hitems xs).trans (decodeList_eq_ok 0).symm)

theorem readsSame_place {name : String} {strict : Bool} {fields : Fields} (hl : PlainFields fields)
    {v w : Value} (front : List Value)
    (h : ∀ tag l, fields.layouts[front.length]? = some (tag, l) → ReadsSame l v w)
    (back : List Value) : ReadsSame (.record name strict fields) (.array (front ++ v :: back))
      (.array (front ++ w :: back)) := by
  have hread (vs : List Value) (x : FieldsCarrier fields) :
      decode .document (.record name strict fields) (.array vs) = .ok x ↔
        decodeSequence .document ("struct " ++ name ++ " with " ++ elementCount fields.size) fields
          0 vs = .ok x := by
    refine (decode_record_eq_ok _).trans ⟨?_, fun h => .inr ⟨vs, rfl, nofun, h⟩⟩
    rintro (⟨_, ⟨⟩, _⟩ | ⟨_, ⟨⟩, -, h⟩)
    exact h
  intro x
  exact (hread _ x).trans ((decodeSequence_congr fields hl front h).trans (hread _ x).symm)

/-- Arrays that differ in one item are read alike where that item is, whatever it is there. -/
theorem readsSame_array {v w : Value} : (l : Layout) → l.Plain → (front : List Value) →
    (∀ l, l.Plain → ReadsSame l v w) → (back : List Value) →
    ReadsSame l (.array (front ++ v :: back)) (.array (front ++ w :: back))
  | .bool, _, _, _, _ => fun _ => iff_of_false nofun nofun
  | .text, _, _, _, _ => fun _ => iff_of_false nofun nofun
  | .recordId, _, _, _, _ => fun _ => iff_of_false nofun nofun
  | .timestamp, _, _, _, _ => fun _ => iff_of_false nofun nofun
  | .list item, hl, front, h, back => readsSame_list (h item hl) front back
  | .record _ _ _, hl, front, h, back => readsSame_place hl front
      (fun _ l hmem => h l (plain_of_mem_layouts hl (List.mem_of_getElem? hmem))) back
  | .choice _ _, _, _, _, _ => fun _ => iff_of_false nofun nofun

/-! ## Documents -/

/-- A choice without payloads is read from no entries but one with null. -/
theorem exists_of_decode_choice {name : String} {vs : Variants} (hvs : vs.Bare) {entries : Entries}
    {x : VariantsCarrier vs} (h : decode .document (.choice name vs) (.document entries) = .ok x) :
    ∃ tag, entries = [(tag, .null)] := by
  match entries, h with
  | [(tag, payload)], h =>
    obtain rfl := eq_null_of_decodeVariant hvs h
    exact ⟨tag, rfl⟩

/-- Documents are read alike where what they hold under each key is, and they hold something under
the same keys. -/
theorem readsSame_document : (l : Layout) → l.Plain → {ms ms' : Entries} →
    (∀ key, key ∈ ms.map Prod.fst ↔ key ∈ ms'.map Prod.fst) →
    (∀ tag, ms = [(tag, .null)] ↔ ms' = [(tag, .null)]) →
    (∀ tag l, l.Plain → Option.Rel (ReadsSame l) (Entries.get? tag ms) (Entries.get? tag ms')) →
    ReadsSame l (.document ms) (.document ms')
  | .bool, _, _, _, _, _, _ => fun _ => iff_of_false nofun nofun
  | .text, _, _, _, _, _, _ => fun _ => iff_of_false nofun nofun
  | .recordId, _, _, _, _, _, _ => fun _ => iff_of_false nofun nofun
  | .timestamp, _, _, _, _, _, _ => fun _ => iff_of_false nofun nofun
  | .list _, _, _, _, _, _, _ => fun _ => iff_of_false nofun nofun
  | .record _ _ _, hl, _, _, hkeys, _, h =>
    readsSame_record hl (fun _ => forall_congr' fun key => imp_congr (hkeys key) .rfl)
      fun tag l hmem => h tag l (plain_of_mem_layouts hl hmem)
  | .choice _ _, hl, _, _, _, hbare, _ => fun x => by
    constructor
    · intro hx
      obtain ⟨tag, rfl⟩ := exists_of_decode_choice hl hx
      rwa [(hbare tag).1 rfl]
    · intro hx
      obtain ⟨tag, rfl⟩ := exists_of_decode_choice hl hx
      rwa [(hbare tag).2 rfl]

theorem eq_null_iff_of_reordered {v w : Value} (h : v.Reordered w) : v = .null ↔ w = .null := by
  induction h with
  | refl v => rfl
  | trans h h' ih ih' => exact ih.trans ih'
  | _ => exact iff_of_false nofun nofun

/-- **The order of entries makes no difference to what a plain layout reads.** -/
theorem readsSame_of_reordered {v w : Value} (h : v.Reordered w) :
    ∀ l : Layout, l.Plain → ReadsSame l v w := by
  induction h with
  | refl v => exact fun l _ => .refl l v
  | trans h h' ih ih' => exact fun l hl => (ih l hl).trans (ih' l hl)
  | @entries entries entries' keys hp =>
    have hget (tag : String) : Entries.get? tag entries = Entries.get? tag entries' := by
      rw [Entries.get?_eq_lookup, Entries.get?_eq_lookup, Sorted.lookup_perm keys hp]
    refine fun l hl => readsSame_document l hl (fun _ => (hp.map _).mem_iff) (fun tag => ?_)
      fun tag l _ => ?_
    · constructor
      · rintro rfl
        exact (List.singleton_perm.1 hp).symm
      · rintro rfl
        exact List.perm_singleton.1 hp
    · rw [hget]
      cases Entries.get? tag entries' with
      | none => exact .none
      | some v => exact .some (.refl l v)
  | item front h back ih => exact fun l hl => readsSame_array l hl front ih back
  | entry front key h back ih =>
    refine fun l hl => readsSame_document l hl (fun _ => ?_) (fun tag => ?_)
      fun tag l hl => Entries.rel_get? (.refl l) (fun _ => ih l hl) front back
    · simp
    · simp [List.append_eq_singleton_iff, eq_null_iff_of_reordered h]

theorem eq_of_mem_layouts {fs : Fields} (h : fs.tags.Nodup) {tag : String} {l l' : Layout}
    (hl : (tag, l) ∈ fs.layouts) (hl' : (tag, l') ∈ fs.layouts) : l = l' := by
  rw [← map_fst_layouts] at h
  have hfound := (Sorted.lookup_eq_some_iff_mem h).2 hl
  exact Option.some.inj (hfound.symm.trans ((Sorted.lookup_eq_some_iff_mem h).2 hl'))

/-- **What a plain layout does not look at makes no difference to what it reads.** -/
theorem readsSame_of_rearranged {l : Layout} {v w : Value} (h : l.Rearranged v w) :
    l.Plain → l.Regular → ReadsSame l v w := by
  induction h with
  | reordered h => exact fun hl _ => readsSame_of_reordered h _ hl
  | symm h ih => exact fun hl hr => (ih hl hr).symm
  | trans h h' ih ih' => exact fun hl hr => (ih hl hr).trans (ih' hl hr)
  | @undeclared name fields front key hkey v back =>
    refine fun hl _ => readsSame_record hl nofun fun tag l hmem => ?_
    have hne : key ≠ tag := by
      rintro rfl
      exact hkey (mem_tags_of_mem_layouts hmem)
    rw [Entries.get?_remove hne]
    cases Entries.get? tag (front ++ back) with
    | none => exact .none
    | some v => exact .some (.refl l v)
  | field front hmem h back ih =>
    refine fun hl hr => readsSame_record hl (fun _ => by simp) fun tag l hmem' => ?_
    refine Entries.rel_get? (.refl l) (fun heq => ?_) front back
    subst heq
    obtain rfl := eq_of_mem_layouts hr.1 hmem hmem'
    exact ih (plain_of_mem_layouts hl hmem) (regular_of_mem_layouts hr.2 hmem)
  | place front hat h back ih =>
    refine fun hl hr => readsSame_place hl front (fun tag l hat' => ?_) back
    obtain ⟨-, rfl⟩ := Prod.mk.inj (Option.some.inj (hat.symm.trans hat'))
    have hmem := List.mem_of_getElem? hat
    exact ih (plain_of_mem_layouts hl hmem) (regular_of_mem_layouts hr.2 hmem)
  | item front h back ih => exact fun hl hr => readsSame_list (ih hl hr) front back

end Layout

end JobRegistry
