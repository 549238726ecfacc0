import JobRegistry.Proofs.Mapper.Plain

/-!
# Where faults are

A fault of a plain layout is at a place in the document that was read (`located_of_decode`). The
path of the fault leads there through fields of records and items of lists (`Layout.Leads`): to a
document without an entry for a required field, or to a value that by itself is at odds with its
layout. Only the fault of a choice that has no variant of a name, and of a strict record that has no
field of a name, comes without a path; it too is at a place (`Layout.Located`).

The text of a path is put together from its end. Where no name is empty or starts with a bracket it
is the text that one gets by writing down the steps from the outside in (`Path.render_eq_dotted`).
-/

namespace JobRegistry

/-! ## Paths -/

namespace Path

/-- The steps after the first: a name follows a dot, an index stands in brackets. -/
def dottedTail : Path → List Char
  | [] => []
  | .key name :: rest => '.' :: name.toList ++ dottedTail rest
  | .index i :: rest => stepText (.index i) ++ dottedTail rest

/-- The steps of a path from the outside in. -/
def dotted : Path → List Char
  | [] => []
  | step :: rest => stepText step ++ dottedTail rest

/-- A name that cannot be taken for the end of a path or for an index. -/
def Clear (name : String) : Prop :=
  name.toList ≠ [] ∧ name.toList.head? ≠ some '['

instance (name : String) : Decidable (Clear name) :=
  inferInstanceAs (Decidable (_ ∧ _))

theorem join_of_ne {outer inner : List Char} (hne : inner ≠ []) (hhead : inner.head? ≠ some '[') :
    join outer inner = outer ++ '.' :: inner := by
  unfold join
  split
  · exact absurd rfl hne
  · exact absurd rfl hhead
  · rfl

/-- **The text of a path is that of its steps in order**, if its names are clear. -/
theorem render_eq_dotted {path : Path} (h : ∀ name, .key name ∈ path → Clear name) :
    path.render = path.dotted := by
  induction path with
  | nil => rfl
  | cons step rest ih =>
    rw [render, ih fun name hname => h name (List.mem_cons_of_mem _ hname), dotted]
    cases rest with
    | nil => exact (List.append_nil _).symm
    | cons next rest =>
      cases next with
      | index i => rfl
      | key name =>
        obtain ⟨hne, hhead⟩ := h name (List.mem_cons_of_mem _ List.mem_cons_self)
        rw [dotted, join_of_ne, dottedTail]
        · simp [stepText]
        · simpa [stepText] using fun h _ => hne h
        · cases hname : name.toList with
          | nil => exact absurd hname hne
          | cons c cs => simpa [stepText, hname] using hhead

example : dotted [.key "dependsOn", .index 1, .key "source"] = "dependsOn[1].source".toList := by
  decide

end Path

/-- The name of the variant that a value has for a choice. -/
def Value.variantTag? : Value → Option String
  | .text tag => some tag
  | .document [(tag, _)] => some tag
  | _ => none

namespace Layout

/-- The path leads from a value of one layout to a value of another: through the tags of records, or
the places of their fields where an array stands for them, and through the items of lists. -/
inductive Leads : Layout → Value → Path → Layout → Value → Prop
  | here (l : Layout) (v : Value) : Leads l v [] l v
  | field {name : String} {strict : Bool} {fields : Fields} {entries : Entries} {tag : String}
    {l l' : Layout} {v v' : Value} {path : Path} (hl : (tag, l) ∈ fields.layouts)
    (hv : Entries.get? tag entries = some v) (h : Leads l v path l' v') :
    Leads (.record name strict fields) (.document entries) (.key tag :: path) l' v'
  | place {name : String} {strict : Bool} {fields : Fields} {items : List Value} {i : Nat}
    {tag : String} {l l' : Layout} {v v' : Value} {path : Path}
    (hl : fields.layouts[i]? = some (tag, l)) (hv : items[i]? = some v)
    (h : Leads l v path l' v') :
    Leads (.record name strict fields) (.array items) (.index i :: path) l' v'
  | item {l l' : Layout} {items : List Value} {i : Nat} {v v' : Value} {path : Path}
    (hv : items[i]? = some v) (h : Leads l v path l' v') :
    Leads (.list l) (.array items) (.index i :: path) l' v'

/-- What a fault says is so of the value at its path, or for faults without a path, of a value at
some path. -/
inductive Located (l : Layout) (v : Value) : DecodeError → Prop
  /-- The record at the path has the field, and the document there has no entry for it. -/
  | missing {path : Path} {name : String} {strict : Bool} {fields : Fields} {entries : Entries}
    {tag : String} (h : Leads l v path (.record name strict fields) (.document entries))
    (declared : tag ∈ fields.tags) (absent : Entries.get? tag entries = none) :
    Located l v (.missing path tag)
  /-- The value at the path cannot be read, for a reason of its own and not of a part of it. -/
  | mismatch {path : Path} {l' : Layout} {v' : Value} {cause : Mismatch}
    (h : Leads l v path l' v') (refused : decode .document l' v' = .error (.mismatch [] cause)) :
    Located l v (.mismatch path cause)
  | variant {path : Path} {name : String} {vs : Variants} {v' : Value} {tag : String}
    (h : Leads l v path (.choice name vs) v') (named : v'.variantTag? = some tag)
    (unknown : tag ∉ vs.tags) : Located l v (.unknownVariant tag vs.tags)
  | stranger {path : Path} {name : String} {fields : Fields} {entries : Entries} {key : String}
    (h : Leads l v path (.record name true fields) (.document entries))
    (present : key ∈ entries.map Prod.fst) (unknown : key ∉ fields.tags) :
    Located l v (.unknownField key fields.tags)

/-- A fault of a part of a value is one of the value, seen from one step further out. -/
theorem Located.within {l l' : Layout} {v v' : Value} {step : Step} {e : DecodeError}
    (h : Located l' v' e)
    (hstep : ∀ {path l'' v''}, Leads l' v' path l'' v'' → Leads l v (step :: path) l'' v'') :
    Located l v (e.within step) := by
  cases h with
  | missing h declared absent => exact .missing (hstep h) declared absent
  | mismatch h refused => exact .mismatch (hstep h) refused
  | variant h named unknown => exact .variant (hstep h) named unknown
  | stranger h present unknown => exact .stranger (hstep h) present unknown

/-! ## Faults of several parts -/

section

variable {α β : Type}

theorem bind_eq_error {ε : Type} {x : Except ε α} {next : α → Except ε β} {e : ε} :
    x >>= next = .error e ↔ x = .error e ∨ ∃ a, x = .ok a ∧ next a = .error e := by
  cases x with
  | error e' =>
    refine ⟨fun h => .inl (congrArg _ (Except.error.inj h)), ?_⟩
    rintro (h | ⟨_, h, _⟩)
    · exact congrArg _ (Except.error.inj h)
    · cases h
  | ok a =>
    refine ⟨fun h => .inr ⟨a, rfl, h⟩, ?_⟩
    rintro (h | ⟨_, ⟨⟩, h⟩)
    · cases h
    · exact h

theorem mapError_eq_error {ε ε' : Type} {x : Except ε α} {f : ε → ε'} {e : ε'} :
    x.mapError f = .error e ↔ ∃ e', x = .error e' ∧ f e' = e := by
  cases x <;> simp [Except.mapError]

theorem map_eq_error {ε : Type} {x : Except ε α} {f : α → β} {e : ε} :
    x.map f = .error e ↔ x = .error e := by
  cases x <;> simp [Except.map]

/-- The fault of two readings is that of one of them. -/
theorem both_eq_error {a : Except Fault α} {b : Except Fault β} {f : Fault}
    (h : both a b = .error f) : a = .error f ∨ b = .error f := by
  cases a with
  | ok x =>
    cases b with
    | ok y => cases h
    | error e => exact .inr (congrArg _ (Except.error.inj h))
  | error e =>
    cases b with
    | ok y => exact .inl (congrArg _ (Except.error.inj h))
    | error e' =>
      have h := Except.error.inj h
      split at h
      · exact .inr (congrArg _ h)
      · exact .inl (congrArg _ h)

theorem mem_of_strangerAt? {tags : List String} {ms : List (String × α)} {i j : Nat} {name : String}
    (h : strangerAt? tags i ms = some (j, name)) : name ∈ ms.map Prod.fst ∧ name ∉ tags := by
  induction ms generalizing i with
  | nil => cases h
  | cons m rest ih =>
    rw [strangerAt?] at h
    split at h
    · exact (ih h).imp_left (List.mem_cons_of_mem _)
    · next hm =>
      obtain ⟨-, rfl⟩ := Prod.mk.inj (Option.some.inj h)
      exact ⟨List.mem_cons_self, fun hmem => hm (List.contains_iff_mem.2 hmem)⟩

/-- The fault of a record is that of its fields or, in a strict record, that of a stranger. -/
theorem settle_eq_error {strict : Bool} {tags : List String} {ms : List (String × α)}
    {values : Except Fault β} {e : DecodeError} (h : settle strict tags ms values = .error e) :
    (∃ i, values = .error (i, e)) ∨
      strict = true ∧ ∃ name, name ∈ ms.map Prod.fst ∧ name ∉ tags ∧
        e = .unknownField name tags := by
  unfold settle at h
  dsimp only at h
  split at h
  · cases h
  · next f hf =>
    obtain rfl := Except.error.inj h
    rcases both_eq_error hf with hknown | hvalues
    · split at hknown
      · next hstranger =>
        obtain rfl := Except.error.inj hknown
        obtain ⟨hmem, hnot⟩ := mem_of_strangerAt? hstranger
        exact .inr ⟨rfl, _, hmem, hnot, rfl⟩
      · cases hknown
    · exact .inl ⟨f.1, hvalues⟩

/-- The fault of a list is that of one of its items. -/
theorem decodeList_eq_error {item : α → Except DecodeError β} {as : List α} {i : Nat}
    {e : DecodeError} (h : decodeList item i as = .error e) :
    ∃ j a e', as[j]? = some a ∧ item a = .error e' ∧ e'.within (.index (i + j)) = e := by
  induction as generalizing i with
  | nil => cases h
  | cons a rest ih =>
    rw [decodeList] at h
    rcases bind_eq_error.1 h with h | ⟨b, -, h⟩
    · obtain ⟨e', he', rfl⟩ := mapError_eq_error.1 h
      exact ⟨0, a, e', rfl, he', rfl⟩
    · rcases bind_eq_error.1 h with h | ⟨bs, -, h⟩
      · obtain ⟨j, a', e', ha', he', rfl⟩ := ih h
        exact ⟨j + 1, a', e', ha', he', by rw [Nat.add_assoc, Nat.add_comm 1]⟩
      · cases h

end

/-! ## Choices -/

theorem not_mem_of_bareVariant? {words : ChoiceWords} {tag : String} : {vs : Variants} →
    bareVariant? words tag vs = none → tag ∉ vs.tags
  | .nil, _ => List.not_mem_nil
  | .cons t _ rest, h => by
    unfold bareVariant? at h
    split at h
    · cases h
    · next hne =>
      rw [Variants.tags, List.mem_cons, not_or]
      exact ⟨Ne.symm hne, not_mem_of_bareVariant? (Option.map_eq_none_iff.1 h)⟩

/-- A variant that is there and has no payload is no fault. -/
theorem bareVariant?_ne_error {words : ChoiceWords} {tag : String} {e : DecodeError} :
    {vs : Variants} → vs.Bare → bareVariant? words tag vs ≠ some (.error e)
  | .nil, _, h => nomatch h
  | .cons t payload rest, ⟨hp, hrest⟩, h => by
    subst hp
    unfold bareVariant? at h
    split at h
    · cases h
    · obtain ⟨answer, hanswer, hmap⟩ := Option.map_eq_some_iff.1 h
      rw [map_eq_error.1 hmap] at hanswer
      exact bareVariant?_ne_error hrest hanswer

theorem decodeVariant_eq_error {name tag : String} {payload : Value} {known : List String}
    {e : DecodeError} : {vs : Variants} → vs.Bare →
    decodeVariant .document name tag payload known vs = .error e →
    tag ∉ vs.tags ∧ e = .unknownVariant tag known ∨ ∃ cause, e = .mismatch [] cause
  | .nil, _, h => .inl ⟨List.not_mem_nil, (Except.error.inj h).symm⟩
  | .cons t p rest, ⟨hp, hrest⟩, h => by
    subst hp
    rw [decodeVariant] at h
    split at h
    · have h := map_eq_error.1 h
      rw [decodePayload] at h
      split at h
      · cases h
      · exact .inr ⟨_, (Except.error.inj h).symm⟩
    · next hne =>
      rcases decodeVariant_eq_error hrest (map_eq_error.1 h) with ⟨hnot, rfl⟩ | hcause
      · refine .inl ⟨?_, rfl⟩
        rw [Variants.tags, List.mem_cons, not_or]
        exact ⟨Ne.symm hne, hnot⟩
      · exact .inr hcause

/-- The fault of a choice without payloads is its own. -/
theorem located_of_decode_choice {name : String} {vs : Variants} (hvs : vs.Bare) {v : Value}
    {e : DecodeError} (h : decode .document (.choice name vs) v = .error e) :
    Located (.choice name vs) v e := by
  have own {cause : Mismatch} (he : e = .mismatch [] cause) : Located (.choice name vs) v e := by
    subst he
    exact .mismatch (.here _ _) h
  cases v with
  | text tag =>
    have h : (bareVariant? Reading.document.words tag vs).getD
        (.error (.unknownVariant tag vs.tags)) = .error e := h
    cases hbare : bareVariant? Reading.document.words tag vs with
    | none =>
      rw [hbare] at h
      obtain rfl := Except.error.inj h
      exact .variant (.here _ _) rfl (not_mem_of_bareVariant? hbare)
    | some answer =>
      rw [hbare] at h
      rw [show answer = .error e from h] at hbare
      exact absurd hbare (bareVariant?_ne_error hvs)
  | document entries =>
    match entries, h, @own with
    | [(tag, payload)], h, own =>
      rcases decodeVariant_eq_error hvs h with ⟨hnot, rfl⟩ | ⟨cause, he⟩
      · exact .variant (.here _ _) rfl hnot
      · exact own he
    | [], h, own => exact own (Except.error.inj h).symm
    | _ :: _ :: _, h, own => exact own (Except.error.inj h).symm
  | _ => exact own (Except.error.inj h).symm

/-! ## All plain layouts -/

/-- A fault without a step is at the value itself. -/
theorem Located.own {l : Layout} {v : Value} {e : DecodeError} {cause : Mismatch}
    (h : decode .document l v = .error e) (he : e = .mismatch [] cause) : Located l v e := by
  subst he
  exact .mismatch (.here l v) h

/-- What is parsed from a text has no parts. -/
theorem located_of_decode_parsed {l : Layout} (hl : l = .recordId ∨ l = .timestamp) {v : Value}
    {e : DecodeError} (h : decode .document l v = .error e) : Located l v e := by
  rcases hl with rfl | rfl <;>
  · cases v with
    | text s =>
      have hread := h
      rw [decode] at hread
      dsimp only [Reading.document, Value.node] at hread
      split at hread
      · cases hread
      · exact .own h (Except.error.inj hread).symm
    | _ => exact .own h (Except.error.inj h).symm

/-- The fault of entries that stand for a record is that a field is absent, or that of the value of
one. -/
theorem decodeFields_cons_eq_error {tag : String} {l : Layout} {rest : Fields} {ms : Entries}
    {i : Nat} {e : DecodeError}
    (h : decodeFields .document ms (.cons tag .required l rest) = .error (i, e)) :
    (Entries.get? tag ms = none ∧ e = .missing [] tag) ∨
      (∃ v e', Entries.get? tag ms = some v ∧ decode .document l v = .error e' ∧
        e = e'.within (.key tag)) ∨
      decodeFields .document ms rest = .error (i, e) := by
  rw [decodeFields] at h
  rcases both_eq_error h with h | h
  · rw [← memberAt?_snd]
    split at h
    · next j v hv =>
      obtain ⟨e', he', heq⟩ := mapError_eq_error.1 h
      obtain ⟨-, rfl⟩ := Prod.mk.inj heq
      exact .inr (.inl ⟨v, e', by rw [hv]; rfl, he', rfl⟩)
    · next hv =>
      split at h
      · cases h
      · obtain ⟨-, rfl⟩ := Prod.mk.inj (Except.error.inj h)
        exact .inl ⟨by rw [hv]; rfl, rfl⟩
  · exact .inr (.inr h)

/-- The fault of an array that stands for a record is that it is too short, or that of an item. -/
theorem decodeSequence_cons_eq_error {title tag : String} {l : Layout} {rest : Fields} {i : Nat}
    {vs : List Value} {e : DecodeError}
    (h : decodeSequence .document title (.cons tag .required l rest) i vs = .error e) :
    (∃ cause, e = .mismatch [] cause) ∨
      ∃ v vs', vs = v :: vs' ∧
        ((∃ e', decode .document l v = .error e' ∧ e = e'.within (.index i)) ∨
          decodeSequence .document title rest (i + 1) vs' = .error e) := by
  cases vs with
  | nil =>
    have h : Except.error (DecodeError.mismatch [] (.length i title)) = .error e := h
    exact .inl ⟨_, (Except.error.inj h).symm⟩
  | cons v vs =>
    refine .inr ⟨v, vs, rfl, ?_⟩
    rw [decodeSequence_cons] at h
    rcases bind_eq_error.1 h with h | ⟨x, -, h⟩
    · obtain ⟨e', he', rfl⟩ := mapError_eq_error.1 h
      exact .inl ⟨e', he', rfl⟩
    · rcases bind_eq_error.1 h with h | ⟨xs, -, h⟩
      · exact .inr h
      · cases h

mutual

/-- **The faults of a plain layout are where they say.** -/
theorem located_of_decode : (l : Layout) → l.Plain → {v : Value} → {e : DecodeError} →
    decode .document l v = .error e → Located l v e
  | .bool, _, v, _, h => by
    cases v with
    | bool b => cases h
    | _ => exact .own h (Except.error.inj h).symm
  | .text, _, v, _, h => by
    cases v with
    | text s => cases h
    | _ => exact .own h (Except.error.inj h).symm
  | .recordId, _, _, _, h => located_of_decode_parsed (.inl rfl) h
  | .timestamp, _, _, _, h => located_of_decode_parsed (.inr rfl) h
  | .list item, hl, v, _, h => by
    cases v with
    | array vs =>
      obtain ⟨i, v, e, hv, he, rfl⟩ := decodeList_eq_error (i := 0) h
      rw [Nat.zero_add]
      exact (located_of_decode item hl he).within fun hpath => .item hv hpath
    | _ => exact .own h (Except.error.inj h).symm
  | .record name strict fields, hl, v, _, h => by
    cases v with
    | document ms =>
      -- Which of several faults is reported does not matter: each of them is at its place.
      rcases settle_eq_error h with ⟨_, h⟩ | ⟨rfl, key, hkey, hnot, rfl⟩
      · obtain ⟨tag, l, hmem, ⟨hv, rfl⟩ | ⟨v, e, hv, he, rfl⟩⟩ := fault_of_decodeFields fields hl h
        · exact .missing (.here _ _) (mem_tags_of_mem_layouts hmem) hv
        · exact he.within fun hpath => .field hmem hv hpath
      · exact .stranger (.here _ _) hkey hnot
    | array vs =>
      rcases bind_eq_error.1 h with hread | ⟨xs, -, hread⟩
      · obtain ⟨_, he⟩ | ⟨i, tag, l, v, e, hl, hv, he, rfl⟩ :=
          fault_of_decodeSequence fields hl hread
        · exact .own h he
        · rw [Nat.zero_add]
          exact he.within fun hpath => .place hl hv hpath
      · cases hread
    | _ => exact .own h (Except.error.inj h).symm
  | .choice _ _, hl, _, _, h => located_of_decode_choice hl h

theorem fault_of_decodeFields {ms : Entries} : (fs : Fields) → PlainFields fs → {i : Nat} →
    {e : DecodeError} → decodeFields .document ms fs = .error (i, e) →
    ∃ tag l, (tag, l) ∈ fs.layouts ∧ (Entries.get? tag ms = none ∧ e = .missing [] tag ∨
      ∃ v e', Entries.get? tag ms = some v ∧ Located l v e' ∧ e = e'.within (.key tag))
  | .cons tag absence l rest, ⟨ha, hl, hrest⟩, i, e, h => by
    subst ha
    rcases decodeFields_cons_eq_error h with hmissing | ⟨v, e', hv, he', rfl⟩ | h
    · exact ⟨tag, l, List.mem_cons_self, .inl hmissing⟩
    · exact ⟨tag, l, List.mem_cons_self, .inr ⟨v, e', hv, located_of_decode l hl he', rfl⟩⟩
    · obtain ⟨t, l', hmem, hfault⟩ := fault_of_decodeFields rest hrest h
      exact ⟨t, l', List.mem_cons_of_mem _ hmem, hfault⟩

theorem fault_of_decodeSequence {title : String} : (fs : Fields) → PlainFields fs → {i : Nat} →
    {vs : List Value} → {e : DecodeError} → decodeSequence .document title fs i vs = .error e →
    (∃ cause, e = .mismatch [] cause) ∨ ∃ j tag l v e', fs.layouts[j]? = some (tag, l) ∧
      vs[j]? = some v ∧ Located l v e' ∧ e = e'.within (.index (i + j))
  | .cons tag absence l rest, ⟨ha, hl, hrest⟩, i, vs, e, h => by
    subst ha
    rcases decodeSequence_cons_eq_error h with hshort | ⟨v, vs, rfl, ⟨e', he', rfl⟩ | h⟩
    · exact .inl hshort
    · exact .inr ⟨0, tag, l, v, e', rfl, rfl, located_of_decode l hl he', rfl⟩
    · rcases fault_of_decodeSequence rest hrest h with
        hshort | ⟨j, t, l', v', e', hl', hv', he', rfl⟩
      · exact .inl hshort
      · exact .inr ⟨j + 1, t, l', v', e', hl', hv', he', by rw [Nat.add_assoc, Nat.add_comm 1]⟩

end

/-- The fault of a document that stands for a record is in a part of it. -/
theorem path_ne_nil_of_decode {l : Layout} (hl : l.Plain)
    (hrecord : ∃ name strict fields, l = .record name strict fields) {ms : Entries} {path : Path}
    {cause : Mismatch} (h : decode .document l (.document ms) = .error (.mismatch path cause)) :
    path ≠ [] := by
  obtain ⟨name, strict, fields, rfl⟩ := hrecord
  rcases settle_eq_error h with ⟨_, h⟩ | ⟨-, _, -, -, h⟩
  · obtain ⟨tag, l, -, ⟨-, h⟩ | ⟨v, e, -, -, h⟩⟩ := fault_of_decodeFields fields hl h
    · cases h
    · cases e with
      | mismatch rest cause' =>
        obtain ⟨rfl, -⟩ := DecodeError.mismatch.inj h
        exact List.cons_ne_nil _ _
      | _ => cases h
  · cases h

/-! ## What a path passes through -/

mutual

/-- Whether something holds of a layout and of all layouts to which a path can lead from it. -/
def everyPart (p : Layout → Bool) : Layout → Bool
  | .list item => p (.list item) && everyPart p item
  | .record name strict fields => p (.record name strict fields) && everyPartOfFields p fields
  | l => p l

def everyPartOfFields (p : Layout → Bool) : Fields → Bool
  | .nil => true
  | .cons _ _ layout rest => everyPart p layout && everyPartOfFields p rest

end

section

variable {p : Layout → Bool}

theorem everyPart_self : {l : Layout} → l.everyPart p = true → p l = true
  | .list _, h | .record _ _ _, h => (Bool.and_eq_true_iff.1 h).1
  | .bool, h | .integer _ _, h | .single, h | .double, h | .char, h | .text, h | .bytes, h
  | .unit, h | .unitStruct _, h | .option _, h | .newtype _ _, h | .tuple _ _, h | .map _ _, h
  | .choice _ _, h | .recordId, h | .timestamp, h | .value, h | .document, h => h

theorem everyPart_of_mem_layouts : {fs : Fields} → everyPartOfFields p fs = true →
    {tag : String} → {l : Layout} → (tag, l) ∈ fs.layouts → l.everyPart p = true
  | .cons _ _ _ _, h, _, _, hmem => by
    obtain ⟨hl, hrest⟩ := Bool.and_eq_true_iff.1 h
    rcases List.mem_cons.1 hmem with heq | hmem
    · obtain ⟨-, rfl⟩ := Prod.mk.inj heq
      exact hl
    · exact everyPart_of_mem_layouts hrest hmem

theorem everyPart_of_field {name : String} {strict : Bool} {fields : Fields} {tag : String}
    {l : Layout} (h : everyPart p (.record name strict fields) = true)
    (hl : (tag, l) ∈ fields.layouts) : l.everyPart p = true :=
  everyPart_of_mem_layouts (Bool.and_eq_true_iff.1 h).2 hl

theorem everyPart_of_item {l : Layout} (h : everyPart p (.list l) = true) : l.everyPart p = true :=
  (Bool.and_eq_true_iff.1 h).2

theorem everyPart_of_leads {l l' : Layout} {v v' : Value} {path : Path}
    (h : Leads l v path l' v') : l.everyPart p = true → l'.everyPart p = true := by
  induction h with
  | here => exact id
  | field hl _ _ ih => exact fun hp => ih (everyPart_of_field hp hl)
  | place hl _ _ ih => exact fun hp => ih (everyPart_of_field hp (List.mem_of_getElem? hl))
  | item _ _ ih => exact fun hp => ih (everyPart_of_item hp)

end

/-- Whether the tags of a record are clear names. -/
def clearTags : Layout → Bool
  | .record _ _ fields => fields.tags.all (Path.Clear ·)
  | _ => true

theorem clear_of_mem_tags {name : String} {strict : Bool} {fields : Fields}
    (h : everyPart clearTags (.record name strict fields) = true) {tag : String}
    (htag : tag ∈ fields.tags) : Path.Clear tag :=
  of_decide_eq_true (List.all_eq_true.1 (everyPart_self h) tag htag)

/-- A path leads through clear names only where all tags are. -/
theorem clear_of_leads {l l' : Layout} {v v' : Value} {path : Path} (h : Leads l v path l' v') :
    l.everyPart clearTags = true → ∀ name, .key name ∈ path → Path.Clear name := by
  induction h with
  | here => exact fun _ _ hmem => nomatch hmem
  | field hl _ _ ih =>
    intro hp name hmem
    rcases List.mem_cons.1 hmem with heq | hmem
    · obtain rfl := Step.key.inj heq
      exact clear_of_mem_tags hp (mem_tags_of_mem_layouts hl)
    · exact ih (everyPart_of_field hp hl) name hmem
  | place hl _ _ ih =>
    intro hp name hmem
    have hmem := List.mem_of_ne_of_mem (nofun : Step.key name ≠ .index _) hmem
    exact ih (everyPart_of_field hp (List.mem_of_getElem? hl)) name hmem
  | item _ _ ih =>
    intro hp name hmem
    have hmem := List.mem_of_ne_of_mem (nofun : Step.key name ≠ .index _) hmem
    exact ih (everyPart_of_item hp) name hmem

/-- Whether the layout, if it is that of a record, has room for fields of other names. -/
def lenient : Layout → Bool
  | .record _ strict _ => !strict
  | _ => true

/-- Whether the layout is no choice. -/
def choiceless : Layout → Bool
  | .choice _ _ => false
  | _ => true

end Layout

end JobRegistry
