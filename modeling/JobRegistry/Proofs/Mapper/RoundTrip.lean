import JobRegistry.Proofs.Document.Entries
import JobRegistry.Proofs.Mapper.Arranged
import JobRegistry.Proofs.RecordId

/-!
# Values read back from documents

A writable value of a regular layout has a document form, and reading that form answers the value
with its maps in order if it is legible and a fault if it is not (`kept`). Nothing else can come
out: what is read is what was written.

The fields of a record are written one after another and read by their tags, so `keptFields` speaks
of any members under which the tags have the values that were written for them. Which tags are
written, and that they are in the order of the fields, is `written`.
-/

namespace JobRegistry

namespace Layout

open Number

theorem memberAt?_eq_lookup {α : Type} (name : String) (i : Nat) (ms : List (String × α)) :
    (memberAt? name i ms).map Prod.snd = ms.lookup name := by
  induction ms generalizing i with
  | nil => rfl
  | cons m rest ih =>
    obtain ⟨n, a⟩ := m
    rw [memberAt?, List.lookup_cons]
    by_cases hn : n = name
    · simp [hn]
    · rw [if_neg hn, ih, beq_false_of_ne (Ne.symm hn)]

theorem memberAt?_snd (name : String) (i : Nat) (ms : Entries) :
    (memberAt? name i ms).map Prod.snd = Entries.get? name ms := by
  rw [memberAt?_eq_lookup, Entries.get?_eq_lookup]

theorem strangerAt?_eq_none {α : Type} {tags : List String} {ms : List (String × α)}
    (h : ∀ name ∈ ms.map Prod.fst, name ∈ tags) (i : Nat) : strangerAt? tags i ms = none := by
  induction ms generalizing i with
  | nil => rfl
  | cons m rest ih =>
    simp only [List.map_cons, List.forall_mem_cons] at h
    rw [strangerAt?, if_pos (List.contains_iff_mem.2 h.1), ih h.2]

/-- A record without strangers has the faults of its fields only. -/
theorem settle_answers {β : Type} {p : Prop} {x : β} {values : Except Fault β} {strict : Bool}
    {tags : List String} {ms : Entries} (h : ∀ name ∈ ms.map Prod.fst, name ∈ tags)
    (hv : Answers p x values) : Answers p x (settle strict tags ms values) := by
  simp only [settle, strangerAt?_eq_none h]
  cases hv with
  | ok hp => exact .ok hp
  | error hp e => exact .error hp _

theorem node_eq_null {v : Value} (h : Reading.document.node v = .null) : v = .null := by
  cases v <;> first | rfl | cases h

/-! ## Layouts -/

/-- The document form of a value, and what it is read as. -/
structure Kept (l : Layout) (x : l.Carrier) (v : Value) : Prop where
  encode_eq : l.encode x = .ok v
  ne_null : l.NeverNull → v ≠ .null
  answers : Answers (l.Legible x) (l.arrange x) (l.decode .document v)

theorem keptList {item : Layout} (hk : ∀ x, item.Writable x → ∃ v, Kept item x v)
    (xs : List item.Carrier) (hx : Each item.Writable xs) :
    ∃ vs, encodeList (encode item) xs = .ok vs ∧ ∀ i, Answers (Each item.Legible xs)
      (xs.map item.arrange) (decodeList (decode .document item) i vs) := by
  induction xs with
  | nil => exact ⟨[], rfl, fun _ => .ok nofun⟩
  | cons x xs ih =>
    obtain ⟨hx, hxs⟩ := each_cons.1 hx
    obtain ⟨v, hv⟩ := hk x hx
    obtain ⟨vs, hvs, hd⟩ := ih hxs
    refine ⟨v :: vs, by rw [encodeList, hv.encode_eq, hvs]; rfl, fun i => ?_⟩
    rw [decodeList]
    exact ((hv.answers.mapError _).bind ((hd (i + 1)).bind_pure _)).of_iff each_cons.symm

/-- Entries with different keys are written after others that have none of these keys, and read in
between any others. -/
theorem keptMap {κ : Type} {text : κ → String} {key : κ → Except EncodeError Value}
    {read : String → Except DecodeError κ} {before : κ → κ → Bool} {item : Layout}
    (hkey : ∀ k, key k = .ok (.text (text k))) (hread : ∀ k, read (text k) = .ok k)
    (hk : ∀ x, item.Writable x → ∃ v, Kept item x v) (entries : List (κ × item.Carrier))
    (hx : Each (fun e => item.Writable e.2) entries) (hn : (entries.map fun e => text e.1).Nodup) :
    ∃ vs : Entries,
      (∀ front : Entries, (∀ e ∈ entries, text e.1 ∉ front.map Prod.fst) →
        encodeMap key (encode item) ⟨front, none⟩ entries = .ok ⟨front ++ vs, none⟩) ∧
      ∀ front : List (κ × item.Carrier), Answers (Each (fun e => item.Legible e.2) entries)
        ((entries.map fun e => (e.1, item.arrange e.2)).foldl
          (fun sorted e => Sorted.insert before e.1 e.2 sorted) front)
        (decodeMap before read (decode .document item) front vs) := by
  induction entries with
  | nil => exact ⟨[], fun front _ => by rw [List.append_nil]; rfl, fun front => .ok nofun⟩
  | cons e entries ih =>
    obtain ⟨k, x⟩ := e
    obtain ⟨hx, hxs⟩ := each_cons.1 hx
    obtain ⟨hkn, hn⟩ := List.nodup_cons.1 hn
    obtain ⟨v, hv⟩ := hk x hx
    obtain ⟨vs, he, hd⟩ := ih hxs hn
    refine ⟨(text k, v) :: vs, fun front hf => ?_, fun front => ?_⟩
    · obtain ⟨hk, hf⟩ := List.forall_mem_cons.1 hf
      have := he (front ++ [(text k, v)]) fun e h => by
        simp only [List.map_append, List.map_cons, List.map_nil, List.mem_append,
          List.mem_singleton, not_or]
        exact ⟨hf e h, fun heq => hkn (List.mem_map.2 ⟨e, h, heq⟩)⟩
      rw [List.append_assoc] at this
      rw [encodeMap, hkey, hv.encode_eq]
      simp only [bind, Except.bind, MapWriter.key, MapWriter.item, Entries.put_of_not_mem hk]
      exact this
    · rw [decodeMap, hread]
      exact ((hv.answers.mapError _).bind (hd _)).of_iff
        (each_cons (P := fun e : κ × item.Carrier => item.Legible e.2) (x := (k, x))).symm

theorem encodeInteger_eq {signed : Bool} {bits : Nat} (hb : bits ≤ 64) {n : Int}
    (hn : -9223372036854775808 ≤ n ∧ n ≤ 9223372036854775807) :
    encodeInteger signed bits n = .ok (.int ⟨n, hn⟩) := by
  have h : Ranged.ofInt? _ _ n = some (⟨n, hn⟩ : Signed64) := Ranged.ofInt?_eq_some.2 rfl
  rw [encodeInteger, if_neg (by omega), h]

theorem decode_char (c : Char) :
    decode .document .char (.text (String.singleton c)) = .ok c := by
  simp only [decode, Reading.document, Value.node, String.toList_singleton]

theorem decode_recordId (id : RecordId) :
    decode .document .recordId (.text id.toHex) = .ok id := by
  simp only [decode, Reading.document, Value.node, RecordId.ofHex?_toHex]

theorem decode_timestamp (t : Timestamp) :
    Answers t.HasFourDigitYear t (decode .document .timestamp (.text t.format)) := by
  simp only [decode, Reading.document, Value.node]
  by_cases h : t.HasFourDigitYear
  · rw [Timestamp.parse?_format h]
    exact .ok h
  · rw [Timestamp.parse?_format_eq_none h]
    exact .error h _

/-- A field that is not written is read as what it was. -/
theorem absent?_of_isAbsent {l : Layout} {x : l.Carrier} (h : isAbsent l x = true) :
    l.absent? .omitted = some (l.arrange x) ∧ l.Legible x := by
  unfold isAbsent at h
  split at h
  · exact ⟨rfl, trivial⟩
  · cases h

/-- The tags that are written of a record. -/
def written : (fs : Fields) → FieldsCarrier fs → List String
  | .nil, _ => []
  | .cons tag absence l rest, (x, xs) =>
    if absence = .omitted ∧ isAbsent l x then written rest xs else tag :: written rest xs

theorem written_sublist : (fs : Fields) → (xs : FieldsCarrier fs) → (written fs xs).Sublist fs.tags
  | .nil, _ => .slnil
  | .cons tag absence l rest, (x, xs) => by
    rw [written]
    split
    · exact (written_sublist rest xs).cons tag
    · exact (written_sublist rest xs).cons_cons tag

/-- The document form of a variant: its tag alone, or its tag with a payload. -/
inductive KeptVariant (vs : Variants) (x : VariantsCarrier vs) : Value → Prop
  | bare (tag : String) (ht : tag ∈ vs.tags)
    (h : ∀ words, ∃ answer, bareVariant? words tag vs = some answer ∧
      Answers (EveryVariant LegibleAt vs x) (arrangeVariant vs x) answer) :
    KeptVariant vs x (.text tag)
  | loaded (tag : String) (v : Value) (ht : tag ∈ vs.tags)
    (h : ∀ name known, Answers (EveryVariant LegibleAt vs x) (arrangeVariant vs x)
      (decodeVariant .document name tag v known vs)) : KeptVariant vs x (.document [(tag, v)])

theorem KeptVariant.later {vs : Variants} {x : VariantsCarrier vs} {v : Value} {tag : String}
    (payload : Payload) (ht : tag ∉ vs.tags) (h : KeptVariant vs x v) :
    KeptVariant (.cons tag payload vs) (.inr x) v := by
  cases h with
  | bare t hmem h =>
    have hne : tag ≠ t := fun e => ht (e ▸ hmem)
    refine .bare t (List.mem_cons_of_mem _ hmem) fun words => ?_
    obtain ⟨answer, ha, hans⟩ := h words
    exact ⟨answer.map .inr, by unfold bareVariant?; rw [if_neg hne, ha]; rfl, hans.map _⟩
  | loaded t v hmem h =>
    have hne : tag ≠ t := fun e => ht (e ▸ hmem)
    refine .loaded t v (List.mem_cons_of_mem _ hmem) fun name known => ?_
    rw [decodeVariant, if_neg hne]
    exact (h name known).map _

theorem KeptVariant.ne_null {vs : Variants} {x : VariantsCarrier vs} {v : Value}
    (h : KeptVariant vs x v) : v ≠ .null := by
  cases h <;> nofun

theorem KeptVariant.answers {vs : Variants} {x : VariantsCarrier vs} {v : Value} (name : String)
    (h : KeptVariant vs x v) :
    Answers (Legible (.choice name vs) x) (arrange (.choice name vs) x)
      (decode .document (.choice name vs) v) := by
  cases h with
  | bare tag _ h =>
    obtain ⟨answer, ha, hans⟩ := h Reading.document.words
    simp only [decode, Reading.document, Value.node] at *
    rw [ha]
    exact hans
  | loaded tag v _ h =>
    simp only [decode, Reading.document, Value.node]
    exact h name vs.tags

mutual

/-- **What is written of a value is read as that value**, with its maps in order. A value that is
not legible is written all the same, but its document form is a fault to the reader. -/
theorem kept : (l : Layout) → l.Regular → (x : l.Carrier) → l.Writable x → ∃ v, Kept l x v
  | .bool, _, b, _ => ⟨.bool b, rfl, nofun, .ok trivial⟩
  | .integer signed bits, hb, n, hn => by
    have h : Ranged.ofInt? _ _ n.1 = some n := Ranged.ofInt?_eq_some.2 rfl
    refine ⟨.int ⟨n.1, hn⟩, encodeInteger_eq hb hn, nofun, ?_⟩
    simp only [decode, Reading.document, Value.node, h]
    exact .ok trivial
  | .single, _, x, hx => by
    refine ⟨.float (x.convert binary64), rfl, nofun, ?_⟩
    simp only [decode, Reading.document, Value.node, show _ = x from hx]
    exact .ok trivial
  | .double, _, x, _ => ⟨.float x, rfl, nofun, .ok trivial⟩
  | .char, _, c, _ => ⟨.text (String.singleton c), rfl, nofun, decode_char c ▸ .ok trivial⟩
  | .text, _, s, _ => ⟨.text s, rfl, nofun, .ok trivial⟩
  | .unit, _, _, _ => ⟨.null, rfl, nofun, .ok trivial⟩
  | .unitStruct _, _, _, _ => ⟨.null, rfl, nofun, .ok trivial⟩
  | .option _, _, none, _ => ⟨.null, rfl, nofun, .ok trivial⟩
  | .option inner, h, some x, hx => by
    obtain ⟨v, hv⟩ := kept inner h.2 x hx
    refine ⟨v, hv.encode_eq, nofun, ?_⟩
    unfold decode
    split
    · next hn => exact absurd (node_eq_null hn) (hv.ne_null h.1)
    · exact hv.answers.map some
  | .newtype _ inner, h, x, hx => by
    obtain ⟨v, hv⟩ := kept inner h x hx
    exact ⟨v, hv.encode_eq, hv.ne_null, hv.answers⟩
  | .list item, h, xs, hx => by
    obtain ⟨vs, he, hd⟩ := keptList (fun x hx => kept item h x hx) xs hx
    exact ⟨.array vs, by rw [encode, he]; rfl, nofun, hd 0⟩
  | .tuple name items, h, xs, hx => by
    obtain ⟨vs, he, hd⟩ := keptItems items h xs hx
    refine ⟨.array vs, by rw [encode, he]; rfl, nofun, ?_⟩
    exact ((hd _ 0).bind (.ok trivial)).of_iff (and_iff_left trivial)
  | .map key item, h, entries, hx => by
    obtain ⟨rfl, h⟩ := h
    have hkey (s : String) : encode .text s = .ok (.text s) := rfl
    have hread (s : String) : decodeKey .text s = .ok s := rfl
    obtain ⟨vs, he, hd⟩ := keptMap hkey hread (fun x hx => kept item h x hx) entries hx.2 hx.1
    exact ⟨.document vs, congrArg (Except.map MapWriter.finish) (he [] nofun), nofun,
      (hd []).of_iff (and_iff_right trivial).symm⟩
  | .record _ _ fields, h, xs, hx => by
    obtain ⟨vs, he, hw, hd⟩ := keptFields fields h.1 h.2 xs hx [] nofun
    refine ⟨.document vs, by rw [encode, he]; rfl, nofun, ?_⟩
    exact settle_answers (fun _ hm => (written_sublist fields xs).subset (hw ▸ hm))
      (hd vs fun _ _ => rfl)
  | .choice name variants, h, x, hx => by
    obtain ⟨v, he, hk⟩ := keptVariant variants h.1 h.2 x hx
    exact ⟨v, he, fun _ => hk.ne_null, hk.answers name⟩
  | .recordId, _, id, _ => ⟨.text id.toHex, rfl, nofun, decode_recordId id ▸ .ok trivial⟩
  | .timestamp, _, t, _ => ⟨.text t.format, rfl, nofun, decode_timestamp t⟩

theorem keptItems : (is : Items) → RegularItems is → (xs : ItemsCarrier is) →
    EveryItem WritableAt is xs → ∃ vs, encodeTuple is xs = .ok vs ∧
      ∀ title i, Answers (EveryItem LegibleAt is xs) (arrangeItems is xs)
        (decodeTuple .document title is i vs)
  | .nil, _, _, _ => ⟨[], rfl, fun _ _ => .ok trivial⟩
  | .cons item rest, h, (x, xs), hx => by
    obtain ⟨v, hv⟩ := kept item h.1 x hx.1
    obtain ⟨vs, he, hd⟩ := keptItems rest h.2 xs hx.2
    refine ⟨v :: vs, by rw [encodeTuple, hv.encode_eq, he]; rfl, fun title i => ?_⟩
    rw [decodeTuple]
    exact (hv.answers.mapError _).bind ((hd title (i + 1)).bind_pure _)

theorem keptFields : (fs : Fields) → fs.tags.Nodup → RegularFields fs → (xs : FieldsCarrier fs) →
    EveryField WritableAt fs xs → (front : Entries) → (∀ t ∈ fs.tags, t ∉ front.map Prod.fst) →
    ∃ vs : Entries, encodeFields fs front xs = .ok (front ++ vs) ∧
      vs.map Prod.fst = written fs xs ∧
      ∀ ms : Entries, (∀ t ∈ fs.tags, Entries.get? t ms = Entries.get? t vs) →
        Answers (EveryField LegibleAt fs xs) (arrangeFields fs xs) (decodeFields .document ms fs)
  | .nil, _, _, _, _, front, _ =>
    ⟨[], by rw [List.append_nil]; rfl, rfl, fun _ _ => .ok trivial⟩
  | .cons tag absence l rest, hn, h, (x, xs), hx, front, hf => by
    obtain ⟨htag, hn⟩ := List.nodup_cons.1 hn
    obtain ⟨hfront, hf⟩ := List.forall_mem_cons.1 hf
    by_cases habs : absence = .omitted ∧ isAbsent l x
    · obtain ⟨vs, he, hw, hd⟩ := keptFields rest hn h.2 xs hx.2 front hf
      refine ⟨vs, by rw [encodeFields, if_pos habs, he], by rw [written, if_pos habs, hw],
        fun ms hms => ?_⟩
      obtain ⟨hm, hms⟩ := List.forall_mem_cons.1 hms
      have hmem : tag ∉ vs.map Prod.fst :=
        fun hmem => htag ((written_sublist rest xs).subset (hw ▸ hmem))
      rw [Entries.get?_eq_none hmem, ← memberAt?_snd tag 0, Option.map_eq_none_iff] at hm
      rw [decodeFields, hm]
      obtain ⟨habsent, hleg⟩ := absent?_of_isAbsent habs.2
      simp only [habs.1, habsent]
      exact Answers.both (.ok hleg) (hd ms hms)
    · obtain ⟨v, hv⟩ := kept l h.1 x hx.1
      obtain ⟨vs, he, hw, hd⟩ := keptFields rest hn h.2 xs hx.2 (front ++ [(tag, v)])
        fun t ht => by
          simp only [List.map_append, List.map_cons, List.map_nil, List.mem_append,
            List.mem_singleton, not_or]
          exact ⟨hf t ht, by rintro rfl; exact htag ht⟩
      refine ⟨(tag, v) :: vs, ?_, by rw [written, if_neg habs, ← hw]; rfl, fun ms hms => ?_⟩
      · rw [encodeFields, if_neg habs, hv.encode_eq]
        simp only [bind, Except.bind, Entries.put_of_not_mem hfront]
        rw [he, List.append_assoc]
        rfl
      · obtain ⟨hm, hms⟩ := List.forall_mem_cons.1 hms
        rw [Entries.get?_cons_self, ← memberAt?_snd tag 0, Option.map_eq_some_iff] at hm
        obtain ⟨⟨i, v'⟩, hm, rfl⟩ := hm
        rw [decodeFields, hm]
        refine Answers.both (hv.answers.mapError _) (hd ms fun t ht => ?_)
        rw [hms t ht, Entries.get?_cons_of_ne (by rintro rfl; exact htag ht)]

theorem keptVariant : (vs : Variants) → vs.tags.Nodup → RegularVariants vs →
    (x : VariantsCarrier vs) → EveryVariant WritableAt vs x →
    ∃ v, encodeVariant vs x = .ok v ∧ KeptVariant vs x v
  | .cons tag payload rest, _, h, .inl x, hx => keptPayload tag payload rest h.1 x hx
  | .cons tag payload rest, hn, h, .inr x, hx => by
    obtain ⟨htag, hn⟩ := List.nodup_cons.1 hn
    obtain ⟨v, he, hk⟩ := keptVariant rest hn h.2 x hx
    exact ⟨v, he, hk.later payload htag⟩

theorem keptPayload (tag : String) : (p : Payload) → (rest : Variants) → RegularPayload p →
    (x : PayloadCarrier p) → EveryPayload WritableAt p x →
    ∃ v, encodePayload tag p x = .ok v ∧ KeptVariant (.cons tag p rest) (.inl x) v
  | .none, _, _, _, _ => by
    refine ⟨.text tag, rfl, .bare tag (List.mem_cons_self ..) fun words => ⟨.ok (.inl ()), ?_,
      .ok trivial⟩⟩
    rw [bareVariant?, if_pos rfl]
  | .one l, _, h, x, hx => by
    obtain ⟨v, hv⟩ := kept l h x hx
    refine ⟨.document [(tag, v)], by rw [encodePayload, hv.encode_eq]; rfl,
      .loaded tag v (List.mem_cons_self ..) fun name known => ?_⟩
    rw [decodeVariant, if_pos rfl]
    exact hv.answers.map _
  | .many items, _, h, xs, hx => by
    obtain ⟨vs, he, hd⟩ := keptItems items h xs hx
    refine ⟨.document [(tag, .array vs)], by rw [encodePayload, he]; rfl,
      .loaded tag _ (List.mem_cons_self ..) fun name known => ?_⟩
    rw [decodeVariant, if_pos rfl]
    exact (((hd _ 0).bind (.ok trivial)).of_iff (and_iff_left trivial)).map _
  | .fields fs, _, h, xs, hx => by
    obtain ⟨vs, he, hw, hd⟩ := keptFields fs h.1 h.2 xs hx [] nofun
    refine ⟨.document [(tag, .document vs)], by rw [encodePayload, he]; rfl,
      .loaded tag _ (List.mem_cons_self ..) fun name known => ?_⟩
    rw [decodeVariant, if_pos rfl]
    have : Answers _ (arrangeFields fs xs)
        (settle false fs.tags vs (decodeFields .document vs fs)) :=
      settle_answers (fun _ hm => (written_sublist fs xs).subset (hw ▸ hm)) (hd vs fun _ _ => rfl)
    exact this.map _

end

/-- The document of a value is the form of the value where that is a document. -/
theorem toDocument_eq_ok {l : Layout} {x : l.Carrier} {d : Document} :
    l.toDocument x = .ok d ↔ l.encode x = .ok d.toValue := by
  obtain ⟨entries⟩ := d
  unfold toDocument
  cases l.encode x with
  | error e => exact iff_of_false nofun nofun
  | ok v => cases v <;> simp [Document.ofValue, Document.toValue, Except.mapError]

/-- **A record has a document**, which holds the tags that are written in the order of its fields
and is read as the record with its maps in order. -/
theorem exists_toDocument {name : String} {strict : Bool} {fields : Fields}
    (h : (record name strict fields).Regular) {x : FieldsCarrier fields}
    (hx : (record name strict fields).Writable x) :
    ∃ d, (record name strict fields).toDocument x = .ok d ∧ d.keys = written fields x ∧
      Answers ((record name strict fields).Legible x) ((record name strict fields).arrange x)
        ((record name strict fields).ofDocument d) := by
  obtain ⟨vs, he, hw, -⟩ := keptFields fields h.1 h.2 x hx [] nofun
  have hv : (record name strict fields).encode x = .ok (.document vs) :=
    congrArg (Except.map Value.document) he
  obtain ⟨v, hk⟩ := kept (record name strict fields) h x hx
  obtain rfl : v = .document vs := Except.ok.inj (hk.encode_eq.symm.trans hv)
  exact ⟨⟨vs⟩, toDocument_eq_ok.2 hv, hw, hk.answers.mapError _⟩

end Layout

end JobRegistry
