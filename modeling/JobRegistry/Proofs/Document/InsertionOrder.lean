import JobRegistry.Proofs.Document.Made

/-!
# Documents as maps in the order of insertion

A document is edited step by step (`Edit`): each step puts a value under a key or drops a key, and
answers what stood there. After any run of steps on a document that was made, in whatever way, the
document is a map in the order of insertion (`Document.InsertionOrdered`). No key is there twice.
Under a key stands what the last step for it has left there (`Edit.last?`), or else what stood there
before all steps. And the keys stand in the order in which they came in (`Document.entered`): a key
came in by the step that ended its last absence (`Document.lastAbsence?`), or was there from the
beginning.

What is there at the beginning is itself what steps make of the empty document (`eq_after_inserts`),
so that `insertion_ordered` tells the order of all keys there ever are.
-/

namespace JobRegistry

/-! ## Steps -/

/-- A step that edits a document. -/
inductive Edit
  | insert (key : String) (v : Value)
  | remove (key : String)

namespace Edit

/-- The key that a step is about. -/
def key : Edit → String
  | .insert key _ => key
  | .remove key => key

/-- What a step leaves under its key. -/
def left : Edit → Option Value
  | .insert _ v => some v
  | .remove _ => none

/-- The last step for a key. -/
def last? (key : String) (edits : List Edit) : Option Edit :=
  edits.reverse.find? fun e => e.key = key

end Edit

namespace Document

/-- The answer to a step and the document after it. -/
def edit (d : Document) : Edit → Option Value × Document
  | .insert key v => d.exchange key v
  | .remove key => d.take key

/-- The document after a run of steps. -/
def after (d : Document) (edits : List Edit) : Document :=
  edits.foldl (fun d e => (d.edit e).2) d

/-- The moments at which a key is absent; moment `i` comes after the first `i` steps. -/
def absences (d : Document) (edits : List Edit) (key : String) : List Nat :=
  (List.range (edits.length + 1)).filter fun i => !(d.after (edits.take i)).contains key

/-- The last moment at which a key is absent. -/
def lastAbsence? (d : Document) (edits : List Edit) (key : String) : Option Nat :=
  (d.absences edits key).getLast?

/-- When a key came in. The entries that are there from the beginning count as put one after another
before all steps; any other key came in by the step that ended its last absence. -/
def entered (d : Document) (edits : List Edit) (key : String) : Nat :=
  match d.lastAbsence? edits key with
  | none => d.keys.idxOf key
  | some i => d.size + i

/-! ## What one step does -/

variable {d : Document} {key : String}

theorem mem_keys : key ∈ d.keys ↔ (d.get? key).isSome = true :=
  Entries.isSome_get?.symm

theorem exchange_eq (d : Document) (key : String) (v : Value) :
    d.exchange key v = (d.get? key, d.insert key v) := by
  rw [exchange, Entries.exchange_eq]
  rfl

theorem take_eq (d : Document) (key : String) : d.take key = (d.get? key, d.erase key) := by
  rw [take, Entries.detach_eq]
  rfl

/-- **A step answers what stood under its key.** -/
theorem answer_edit (d : Document) (e : Edit) : (d.edit e).1 = d.get? e.key := by
  cases e with
  | insert key v => rw [edit, exchange_eq, Edit.key]
  | remove key => rw [edit, take_eq, Edit.key]

theorem edit_insert (d : Document) (key : String) (v : Value) :
    (d.edit (.insert key v)).2 = d.insert key v := by
  rw [edit, exchange_eq]

theorem edit_remove (d : Document) (key : String) : (d.edit (.remove key)).2 = d.erase key := by
  rw [edit, take_eq]

theorem keys_insert_of_mem (h : key ∈ d.keys) (v : Value) : (d.insert key v).keys = d.keys :=
  Entries.map_fst_put h v

theorem keys_insert_of_not_mem (h : key ∉ d.keys) (v : Value) :
    (d.insert key v).keys = d.keys ++ [key] := by
  rw [keys, insert, Entries.put_of_not_mem h, List.map_append]
  rfl

theorem keys_erase (d : Document) (key : String) : (d.erase key).keys = d.keys.erase key :=
  Entries.map_fst_drop key d.entries

/-- A step keeps keys apart. -/
theorem nodup_edit (h : d.keys.Nodup) (e : Edit) : (d.edit e).2.keys.Nodup := by
  cases e with
  | insert key v =>
    rw [edit_insert]
    exact Entries.nodup_put h key v
  | remove key =>
    rw [edit_remove]
    exact Entries.nodup_drop h key

/-- A step decides what stands under its key, and leaves all else. -/
theorem get?_edit (h : d.keys.Nodup) (e : Edit) (key : String) :
    (d.edit e).2.get? key = if e.key = key then e.left else d.get? key := by
  cases e with
  | insert k v =>
    rw [edit_insert, Edit.key, Edit.left]
    split
    · next hk =>
      subst hk
      exact Entries.get?_put_self k v d.entries
    · next hk => exact Entries.get?_put_of_ne hk v d.entries
  | remove k =>
    rw [edit_remove, Edit.key, Edit.left]
    split
    · next hk =>
      subst hk
      exact Entries.get?_drop_self h k
    · next hk => exact Entries.get?_drop_of_ne hk d.entries

/-- A key that comes in by a step is inserted by it. -/
theorem eq_insert_of_mem_edit {e : Edit} (hnot : key ∉ d.keys) (h : key ∈ (d.edit e).2.keys) :
    ∃ v, e = .insert key v := by
  cases e with
  | insert k v =>
    rw [edit_insert] at h
    by_cases hk : k ∈ d.keys
    · exact absurd (keys_insert_of_mem hk v ▸ h) hnot
    · rw [keys_insert_of_not_mem hk, List.mem_append, List.mem_singleton] at h
      exact ⟨v, by rw [h.resolve_left hnot]⟩
  | remove k =>
    rw [edit_remove, keys_erase] at h
    exact absurd (List.mem_of_mem_erase h) hnot

/-! ## What a run does -/

theorem after_append (d : Document) (edits later : List Edit) :
    d.after (edits ++ later) = (d.after edits).after later :=
  List.foldl_append

theorem after_singleton (d : Document) (e : Edit) : d.after [e] = (d.edit e).2 :=
  rfl

theorem nodup_after (h : d.keys.Nodup) (edits : List Edit) : (d.after edits).keys.Nodup := by
  induction edits using List.reverseRecOn with
  | nil => exact h
  | append_singleton edits e ih =>
    rw [after_append]
    exact nodup_edit ih e

/-- Under a key stands what the last step for it has left. -/
theorem get?_after (h : d.keys.Nodup) (edits : List Edit) (key : String) :
    (d.after edits).get? key = (Edit.last? key edits).elim (d.get? key) Edit.left := by
  induction edits using List.reverseRecOn with
  | nil => rfl
  | append_singleton edits e ih =>
    rw [after_append, after_singleton, get?_edit (nodup_after h edits), ih, Edit.last?, Edit.last?,
      List.reverse_append, List.reverse_singleton, List.singleton_append, List.find?_cons]
    by_cases hk : e.key = key
    · rw [if_pos hk, decide_eq_true hk]
      rfl
    · rw [if_neg hk, decide_eq_false hk]

/-! ## When keys came in -/

theorem contains_iff : d.contains key = true ↔ key ∈ d.keys :=
  mem_keys.symm

theorem mem_absences {edits : List Edit} {i : Nat} :
    i ∈ d.absences edits key ↔ i ≤ edits.length ∧ key ∉ (d.after (edits.take i)).keys := by
  rw [absences, List.mem_filter, List.mem_range, Nat.lt_succ_iff, Bool.not_eq_true',
    ← Bool.not_eq_true, contains_iff]

theorem absences_append_singleton (d : Document) (edits : List Edit) (e : Edit) (key : String) :
    d.absences (edits ++ [e]) key =
      d.absences edits key ++
        if (d.after (edits ++ [e])).contains key then [] else [edits.length + 1] := by
  have hlength : (edits ++ [e]).length = edits.length + 1 := List.length_append
  have hfront : ((List.range (edits.length + 1)).filter fun i =>
      !(d.after ((edits ++ [e]).take i)).contains key) = d.absences edits key := by
    refine List.filter_congr fun i hi => ?_
    rw [List.take_append_of_le_length (Nat.lt_succ_iff.1 (List.mem_range.1 hi))]
  have htake : (edits ++ [e]).take (edits.length + 1) = edits ++ [e] :=
    List.take_of_length_le hlength.le
  rw [absences, hlength, List.range_succ, List.filter_append, hfront, List.filter_singleton, htake]
  cases (d.after (edits ++ [e])).contains key <;> rfl

theorem lastAbsence?_of_mem {edits : List Edit} {e : Edit}
    (h : key ∈ (d.after (edits ++ [e])).keys) :
    d.lastAbsence? (edits ++ [e]) key = d.lastAbsence? edits key := by
  rw [lastAbsence?, absences_append_singleton, if_pos (contains_iff.2 h), List.append_nil]
  rfl

/-- The last absence of a key that is absent after a run. -/
theorem lastAbsence?_of_not_mem {edits : List Edit} (h : key ∉ (d.after edits).keys) :
    d.lastAbsence? edits key = some edits.length := by
  have habsent : (!(d.after (edits.take edits.length)).contains key) = true := by
    rw [List.take_length, Bool.not_eq_true', ← Bool.not_eq_true, contains_iff]
    exact h
  rw [lastAbsence?, absences, List.range_succ, List.filter_append, List.filter_singleton, habsent]
  exact List.getLast?_concat

theorem lt_length_of_lastAbsence? {edits : List Edit} (h : key ∈ (d.after edits).keys) {i : Nat}
    (hi : d.lastAbsence? edits key = some i) : i < edits.length := by
  obtain ⟨hle, habsent⟩ := mem_absences.1 (List.mem_of_getLast? hi)
  refine Nat.lt_of_le_of_ne hle ?_
  rintro rfl
  rw [List.take_length] at habsent
  exact habsent h

/-- A key that has never been absent was there at the beginning. -/
theorem mem_keys_of_lastAbsence? {edits : List Edit} (h : d.lastAbsence? edits key = none) :
    key ∈ d.keys := by
  by_contra hnot
  have hzero : 0 ∈ d.absences edits key := mem_absences.2 ⟨Nat.zero_le _, hnot⟩
  rw [List.getLast?_eq_none_iff.1 h] at hzero
  cases hzero

theorem entered_nil (h : key ∈ d.keys) : d.entered [] key = d.keys.idxOf key := by
  rw [entered]
  split
  · rfl
  · next i hi => exact absurd (lt_length_of_lastAbsence? h hi) (Nat.not_lt_zero i)

theorem entered_of_mem {edits : List Edit} {e : Edit} (h : key ∈ (d.after (edits ++ [e])).keys) :
    d.entered (edits ++ [e]) key = d.entered edits key := by
  rw [entered, entered, lastAbsence?_of_mem h]

theorem entered_of_not_mem {edits : List Edit} (h : key ∉ (d.after edits).keys) :
    d.entered edits key = d.size + edits.length := by
  rw [entered, lastAbsence?_of_not_mem h]

/-- What is there came in before the next step. -/
theorem entered_lt {edits : List Edit} (h : key ∈ (d.after edits).keys) :
    d.entered edits key < d.size + edits.length := by
  rw [entered]
  split
  · next hnone =>
    have hlt := List.idxOf_lt_length_of_mem (mem_keys_of_lastAbsence? hnone)
    rw [keys, List.length_map] at hlt
    exact Nat.lt_add_right _ hlt
  · next i hi => exact Nat.add_lt_add_left (lt_length_of_lastAbsence? h hi) _

/-- A key came in by a step that inserted it. -/
theorem insert_of_lastAbsence? {edits : List Edit} (h : key ∈ (d.after edits).keys) {i : Nat}
    (hi : d.lastAbsence? edits key = some i) : ∃ v, edits[i]? = some (.insert key v) := by
  induction edits using List.reverseRecOn with
  | nil => exact absurd (lt_length_of_lastAbsence? h hi) (Nat.not_lt_zero i)
  | append_singleton edits e ih =>
    rw [lastAbsence?_of_mem h] at hi
    by_cases hkey : key ∈ (d.after edits).keys
    · rw [List.getElem?_append_left (lt_length_of_lastAbsence? hkey hi)]
      exact ih hkey hi
    · rw [lastAbsence?_of_not_mem hkey] at hi
      rw [after_append] at h
      obtain ⟨v, rfl⟩ := eq_insert_of_mem_edit hkey h
      exact ⟨v, by rw [← Option.some.inj hi, List.getElem?_concat_length]⟩

/-- **The keys stand in the order in which they came in.** -/
theorem pairwise_entered (h : d.keys.Nodup) (edits : List Edit) :
    (d.after edits).keys.Pairwise fun j k => d.entered edits j < d.entered edits k := by
  induction edits using List.reverseRecOn with
  | nil =>
    show d.keys.Pairwise _
    have hidx : d.keys.Pairwise fun j k => d.keys.idxOf j < d.keys.idxOf k :=
      List.pairwise_iff_getElem.2 fun i j hi hj hlt => by
        rwa [h.idxOf_getElem i hi, h.idxOf_getElem j hj]
    exact hidx.imp_of_mem fun hj hk hlt => by rwa [entered_nil hj, entered_nil hk]
  | append_singleton edits e ih =>
    suffices hkeys : (d.after (edits ++ [e])).keys.Pairwise
        fun j k => d.entered edits j < d.entered edits k from
      hkeys.imp_of_mem fun hj hk hlt => by rwa [entered_of_mem hj, entered_of_mem hk]
    rw [after_append, after_singleton]
    cases e with
    | insert key v =>
      rw [edit_insert]
      by_cases hkey : key ∈ (d.after edits).keys
      · rw [keys_insert_of_mem hkey]
        exact ih
      · rw [keys_insert_of_not_mem hkey]
        refine List.pairwise_append.2 ⟨ih, List.pairwise_singleton _ _, fun j hj k hk => ?_⟩
        rw [List.mem_singleton.1 hk, entered_of_not_mem hkey]
        exact entered_lt hj
    | remove key =>
      rw [edit_remove, keys_erase]
      exact ih.sublist List.erase_sublist

/-! ## Documents as maps -/

theorem Made.nodup_keys (h : d.Made) : d.keys.Nodup := by
  cases h.distinct with
  | document hkeys _ => exact hkeys

/-- What a run of steps makes of a document, as a map in the order of insertion. -/
structure InsertionOrdered (d : Document) (edits : List Edit) : Prop where
  nodup : (d.after edits).keys.Nodup
  /-- The keys are those under which a value stands. -/
  mem_keys_iff : ∀ key, key ∈ (d.after edits).keys ↔ ((d.after edits).get? key).isSome = true
  /-- Under a key stands what the last step for it has left, or what stood there
  at the beginning. -/
  get?_eq : ∀ key, (d.after edits).get? key = (Edit.last? key edits).elim (d.get? key) Edit.left
  /-- Any step that follows answers what stood under its key before. -/
  answer_eq : ∀ e, ((d.after edits).edit e).1 = (d.after edits).get? e.key
  /-- The keys stand in the order in which they came in. -/
  ordered : (d.after edits).keys.Pairwise fun j k => d.entered edits j < d.entered edits k
  /-- A key that was absent came in by the first step after its last absence, which inserted it. -/
  inserted : ∀ key ∈ (d.after edits).keys, ∀ i, d.lastAbsence? edits key = some i →
    ∃ v, edits[i]? = some (.insert key v)
  /-- A value that is replaced does not move its key. -/
  stays : ∀ key ∈ (d.after edits).keys, ∀ v,
    (d.after (edits ++ [.insert key v])).keys = (d.after edits).keys
  /-- A key that is removed and inserted again comes to the end. -/
  returns : ∀ key v, (d.after (edits ++ [.remove key, .insert key v])).keys =
    (d.after edits).keys.erase key ++ [key]

theorem Made.insertionOrdered (hd : d.Made) (edits : List Edit) : d.InsertionOrdered edits where
  nodup := nodup_after hd.nodup_keys edits
  mem_keys_iff _ := mem_keys
  get?_eq := get?_after hd.nodup_keys edits
  answer_eq := answer_edit _
  ordered := pairwise_entered hd.nodup_keys edits
  inserted _ hkey _ := insert_of_lastAbsence? hkey
  stays key hkey v := by
    rw [after_append, after_singleton, edit_insert, keys_insert_of_mem hkey]
  returns key v := by
    have habsent : key ∉ ((d.after edits).erase key).keys := by
      rw [keys_erase]
      exact (nodup_after hd.nodup_keys edits).not_mem_erase
    have htwo : (d.after edits).after [.remove key, .insert key v] =
        ((d.after edits).erase key).insert key v := by
      rw [← edit_remove, ← edit_insert]
      rfl
    rw [after_append, htwo, keys_insert_of_not_mem habsent, keys_erase]

/-! ## Documents as runs from the beginning -/

/-- The steps that put pairs one after another. -/
def inserts (pairs : List (String × Value)) : List Edit :=
  pairs.map fun p => .insert p.1 p.2

theorem ofList_eq_after (pairs : List (String × Value)) :
    ofList pairs = empty.after (inserts pairs) := by
  have go : ∀ front : Entries, (⟨front⟩ : Document).after (inserts pairs) =
      ⟨pairs.foldl (fun entries pair => Entries.put pair.1 pair.2 entries) front⟩ := by
    induction pairs with
    | nil => exact fun _ => rfl
    | cons pair rest ih =>
      intro front
      show ((⟨front⟩ : Document).edit (.insert pair.1 pair.2)).2.after (inserts rest) = _
      rw [edit_insert]
      exact ih _
  exact (go []).symm

/-- Entries with different keys are as if they had been put one after another. -/
theorem eq_after_inserts (h : d.keys.Nodup) : d = empty.after (inserts d.entries) := by
  rw [← ofList_eq_after, ofList, Entries.ofList_of_nodup h]

/-- A document that is read as written is put together member by member. -/
theorem eq_after_of_ofWire {s : String} (h : ofWire s = .ok d) :
    ∃ members, Json.read? s = some (.object members) ∧
      d = empty.after (inserts (Value.ofWrittenMembers members)) := by
  obtain ⟨j, hj, hd⟩ := ofWire_eq_ok.1 h
  obtain ⟨members, rfl, hentries⟩ := Value.ofWritten_eq_document (ofValue_eq_ok.1 hd)
  refine ⟨members, hj, ?_⟩
  rw [← ofList_eq_after, ofList, ← hentries]

/-- The entries that are taken over from JSON in normal form are as if they had been put one after
another. -/
theorem eq_after_of_ofJson {j : Json} (h : ofJson j = .ok d) :
    ∃ members, j.sorted = .object members ∧
      d = empty.after (inserts (Value.ofMembers members)) := by
  obtain ⟨members, hj, hentries⟩ := Value.ofJson_eq_document (ofValue_eq_ok.1 h)
  refine ⟨members, hj, ?_⟩
  rw [← hentries]
  exact eq_after_inserts (Made.ofJson h).nodup_keys

/-- **A document is a map in the order of insertion**, whatever way it was made and whatever steps
edited it since. Before any step it is itself made by steps, from the empty document: its entries
are inserted one after another. If it was collected from pairs or read from a text as written, this
is the insertion of the pairs or members, with the keys that are there twice; and if it was taken
over from JSON in normal form, the insertion of the members there. -/
theorem insertion_ordered :
    (∀ d : Document, d.Made → ∀ edits, d.InsertionOrdered edits) ∧
    (∀ d : Document, d.Made → d = empty.after (inserts d.entries)) ∧
    (∀ pairs, ofList pairs = empty.after (inserts pairs)) ∧
    (∀ s d, ofWire s = .ok d → ∃ members, Json.read? s = some (.object members) ∧
      d = empty.after (inserts (Value.ofWrittenMembers members))) ∧
    ∀ j d, ofJson j = .ok d → ∃ members, j.sorted = .object members ∧
      d = empty.after (inserts (Value.ofMembers members)) :=
  ⟨fun _ hd edits => hd.insertionOrdered edits, fun _ hd => eq_after_inserts hd.nodup_keys,
    ofList_eq_after, fun _ _ => eq_after_of_ofWire, fun _ _ => eq_after_of_ofJson⟩

/-- A value is replaced, a new key comes in, and a key is removed and inserted again. The text that
is read has a name twice. -/
theorem insertion_ordered_revised :
    let edits : List Edit :=
      [.insert "m" .null, .insert "z" (.text "new"), .remove "a", .insert "a" (.text "back")]
    let text := "\x7b\"b\":\"x\",\"a\":null,\"b\":\"y\"\x7d"
    collected.Made ∧ collected.InsertionOrdered edits ∧
      (collected.after edits).keys = ["z", "m", "a"] ∧
      collected.entered edits "z" = 0 ∧ collected.entered edits "m" = 2 ∧
      collected.entered edits "a" = 5 ∧
      collected = empty.after (inserts collected.entries) ∧
      (∃ d members, ofWire text = .ok d ∧ d.keys = ["b", "a"] ∧
        d = empty.after (inserts (Value.ofWrittenMembers members))) ∧
      ∃ j d members, Json.read? text = some j ∧ ofJson j = .ok d ∧ d.keys = ["a", "b"] ∧
        d = empty.after (inserts (Value.ofMembers members)) := by
  intro edits text
  have hread : Json.read? "\x7b\"b\":\"x\",\"a\":null,\"b\":\"y\"\x7d" =
      some (.object [("b", .text "x"), ("a", .null), ("b", .text "y")]) :=
    rfl
  obtain ⟨hmap, hentries, -, hwire, hjson⟩ := insertion_ordered
  obtain ⟨d, hd, hkeys⟩ : ∃ d, ofWire text = .ok d ∧ d.keys = ["b", "a"] :=
    ⟨_, ofWire_eq_ok.2 ⟨_, hread, rfl⟩, by decide⟩
  obtain ⟨d', hd', hkeys'⟩ : ∃ d, ofJson (.object [("b", .text "x"), ("a", .null),
      ("b", .text "y")]) = .ok d ∧ d.keys = ["a", "b"] :=
    ⟨_, rfl, by decide⟩
  obtain ⟨members, -, heq⟩ := hwire _ d hd
  obtain ⟨members', -, heq'⟩ := hjson _ d' hd'
  exact ⟨made_collected, hmap _ made_collected edits, by decide, by decide, by decide, by decide,
    hentries _ made_collected, ⟨d, members, hd, hkeys, heq⟩,
    _, d', members', hread, hd', hkeys', heq'⟩

end Document

end JobRegistry
