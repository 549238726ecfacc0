import Mathlib.Data.List.Forall2
import Mathlib.Data.List.Nodup
import JobRegistry.Proofs.Record.Kinds
import JobRegistry.Proofs.Vault.History
import JobRegistry.Proofs.Vault.Online

/-!
# What a vault keeps is sound

A collection that only a vault has touched holds documents of valid records, no two of them with
one identifier (`history_sound`). The point is the update, which validates the record it is given
and then writes other times into it: the time of creation is the stored one, and the time of update
lies after the stored time of update, which was not before the time of creation.
-/

namespace JobRegistry

open Store

/-- Nothing but documents of valid records, each under an identifier of its own. -/
structure Sound (R : Type) [Record R] (docs : List Document) : Prop where
  records : ∀ d ∈ docs, ∃ r : R, Record.toDocument r = .ok d ∧ Record.validate r = .ok ()
  unique : UniqueIds docs

namespace Sound

variable {R : Type} [Record R] {docs before after : List Document} {old d : Document}

theorem drop {id : RecordId} (h : Sound R docs)
    (hsplit : Split docs (Filter.byId id.toHex) before old after) : Sound R (before ++ after) where
  records e he := h.records e (hsplit.drop_sublist.subset he)
  unique := h.unique.sublist (hsplit.drop_sublist.map _)

variable [LawfulRecord R] {r : R}

theorem append (h : Sound R docs) (hvalid : Record.validate r = .ok ())
    (hd : Record.toDocument r = .ok d) (hfresh : holding? docs (Record.id r).toHex = none) :
    Sound R (docs ++ [d]) where
  records e he := by
    rcases List.mem_append.1 he with he | he
    · exact h.records e he
    · rw [List.mem_singleton.1 he]
      exact ⟨r, hd, hvalid⟩
  unique := h.unique.append_singleton (Record.idOf?_toDocument hd) hfresh

theorem replace (h : Sound R docs)
    (hsplit : Split docs (Filter.byId (Record.id r).toHex) before old after)
    (hvalid : Record.validate r = .ok ()) (hd : Record.toDocument r = .ok d) :
    Sound R (before ++ d :: after) where
  records e he := by
    rcases hsplit.mem_replace he with rfl | he
    · exact ⟨r, hd, hvalid⟩
    · exact h.records e he
  unique := by
    rw [UniqueIds, hsplit.map_idOf?_replace (Record.idOf?_toDocument hd)]
    exact h.unique

end Sound

/-! ## The records behind the documents -/

section

variable {R : Type} [Record R] {docs : List Document} {rs : List R}

/-- The documents are those of the records, one by one. -/
def Stores (docs : List Document) (rs : List R) : Prop :=
  List.Forall₂ (fun d r => Record.toDocument r = .ok d) docs rs

theorem Sound.exists_stores (h : Sound R docs) : ∃ rs : List R, Stores docs rs := by
  obtain ⟨hdocs, -⟩ := h
  induction docs with
  | nil => exact ⟨[], .nil⟩
  | cons d docs ih =>
    obtain ⟨⟨r, hr, -⟩, hrest⟩ := List.forall_mem_cons.1 hdocs
    obtain ⟨rs, hrs⟩ := ih hrest
    exact ⟨r :: rs, .cons hr hrs⟩

namespace Stores

variable [LawfulRecord R]

/-- An identifier is that of a stored record exactly when a document is found under it, which then
is the document of such a record. -/
theorem holding?_cases (h : Stores docs rs) (id : RecordId) :
    holding? docs id.toHex = none ∧ id ∉ rs.map Record.id ∨
      ∃ r ∈ rs, ∃ d, Record.id r = id ∧ Record.toDocument r = .ok d ∧
        holding? docs id.toHex = some d := by
  induction h with
  | nil => exact .inl ⟨rfl, List.not_mem_nil⟩
  | @cons d r docs rs hd _ ih =>
    have hid := Record.idOf?_toDocument hd
    by_cases heq : Record.id r = id
    · subst heq
      exact .inr ⟨r, List.mem_cons_self, d, rfl, hd, holding?_cons_self hid docs⟩
    · have hne : idOf? d ≠ some id.toHex := by
        rw [hid]
        exact fun h => heq (RecordId.toHex_inj.1 (Option.some.inj h))
      rw [holding?_cons_of_ne hne, List.map_cons, List.mem_cons, not_or]
      rcases ih with ⟨hnone, hmem⟩ | ⟨r', hr', d', hid', hd', hsome⟩
      · exact .inl ⟨hnone, Ne.symm heq, hmem⟩
      · exact .inr ⟨r', List.mem_cons_of_mem r hr', d', hid', hd', hsome⟩

theorem map_idOf? (h : Stores docs rs) :
    docs.map idOf? = (rs.map Record.id).map fun id => some id.toHex := by
  induction h with
  | nil => rfl
  | cons hd _ ih =>
    rw [List.map_cons, List.map_cons, List.map_cons, ih, Record.idOf?_toDocument hd]

theorem nodup_ids (h : Stores docs rs) (hunique : UniqueIds docs) : (rs.map Record.id).Nodup := by
  rw [UniqueIds, h.map_idOf?] at hunique
  apply List.Pairwise.of_map _ _ hunique
  intro a b hab heq
  exact hab (by rw [heq])

/-- Two stored records with one identifier are the same record. -/
theorem eq_of_id (h : Stores docs rs) (hunique : UniqueIds docs) {r r' : R} (hr : r ∈ rs)
    (hr' : r' ∈ rs) (hid : Record.id r = Record.id r') : r = r' :=
  List.inj_on_of_nodup_map (h.nodup_ids hunique) hr hr' hid

end Stores

end

namespace Vault

theorem lt_of_updateTime? {now stored u : Timestamp} (h : updateTime? now stored = some u) :
    stored < u := by
  obtain ⟨t, ht, rfl⟩ := Option.map_eq_some_iff.1 h
  exact Timestamp.lt_of_lt_of_le (Timestamp.lt_of_plusSeconds? (by decide) ht)
    (Timestamp.le_latest_right now t)

variable {R : Type} [Record R] [LawfulRecord R] {v : Vault R} {s s' : Store}

/-- What is read from the document of a record is that record. -/
theorem eq_of_decode {r r' : R} {d : Document} (hd : Record.toDocument r = .ok d)
    (h : decode d = .ok r') : r' = r := by
  have := (Record.ofDocument_answers hd).mapError VaultError.mapping
  exact (this.of_eq_ok h).2

/-- The record that an update writes is valid. -/
theorem validate_updated {now u : Timestamp} {r stored : R}
    (hvalid : Record.validate r = .ok ()) (hstored : Record.validate stored = .ok ())
    (hu : updateTime? now (Record.updatedAt stored) = some u) :
    Record.validate (Record.withTimes r (Record.createdAt stored) u) = .ok () :=
  Record.validate_withTimes hvalid <| Timestamp.le_trans
    (Record.createdAt_le_updatedAt hstored) (Timestamp.le_of_lt (lt_of_updateTime? hu))

/-- No effect spoils a sound collection. -/
theorem Effect.sound {e : Event R} (he : Effect v s s' e) (h : Sound R (s.documents v.collection)) :
    Sound R (s'.documents v.collection) := by
  cases he with
  | quiet _ same => rwa [documents_congr same]
  | created valid hd fresh appended =>
    rw [documents_of_collections appended]
    exact h.append valid hd fresh
  | updated valid split decoded later hd replaced =>
    rw [documents_of_collections replaced]
    obtain ⟨r₀, hd₀, hvalid₀⟩ := h.records _ (mem_of_holding? split.find?_eq)
    obtain rfl := eq_of_decode hd₀ decoded
    exact h.replace (by rwa [LawfulRecord.id_withTimes]) (validate_updated valid hvalid₀ later) hd
  | deleted split dropped =>
    rw [documents_of_collections dropped]
    exact h.drop split

/-- A collection that was sound stays so along every history. -/
theorem History.sound {es : List (Event R)} (h : v.History s es s')
    (hs : Sound R (s.documents v.collection)) : Sound R (s'.documents v.collection) :=
  h.preserves (fun he => he.sound) hs

/-- **A vault keeps valid records only.** Every document that a history leaves in a collection that
was empty is that of a valid record, under the identifier that the record's natural key gives, and
not updated before it was created; and no two documents have the same identifier. -/
theorem history_sound (k : RecordKind) (v : Vault k.Carrier) {s s' : Store}
    {es : List (Event k.Carrier)} (h : v.History s es s') (hs : s.documents v.collection = []) :
    (∀ d ∈ s'.documents v.collection, ∃ r : k.Carrier, Record.toDocument r = .ok d ∧
      Record.validate r = .ok () ∧ idOf? d = some (Record.derivedId r).toHex ∧
      Record.createdAt r ≤ Record.updatedAt r) ∧
    ((s'.documents v.collection).map idOf?).Nodup := by
  have hsound : Sound k.Carrier (s'.documents v.collection) :=
    h.sound (by rw [hs]; exact ⟨nofun, .nil⟩)
  refine ⟨fun d hd => ?_, hsound.unique⟩
  obtain ⟨r, hr, hvalid⟩ := hsound.records d hd
  refine ⟨r, hr, hvalid, ?_, Record.createdAt_le_updatedAt hvalid⟩
  rw [Record.derivedId_eq_id hvalid]
  exact Record.idOf?_toDocument hr

/-- An input is created, refused a second time, updated, deleted, and created anew. -/
theorem history_sound_specimen :
    let v : Vault RecordKind.input.Carrier := ⟨"inputs"⟩
    let noon : Timestamp := ⟨1714564800, false, by decide, by decide, by decide⟩
    let pastNoon : Timestamp := ⟨1714564801, false, by decide, by decide, by decide⟩
    let r : RecordKind.input.Carrier := Input.specimen noon
    let es : List (Event RecordKind.input.Carrier) := [⟨.create r, .ok r⟩,
      ⟨.create r, .error (v.taken (Record.id r))⟩,
      ⟨.update noon r, .ok (Record.withTimes (R := RecordKind.input.Carrier) r noon pastNoon)⟩,
      ⟨.delete (Record.id r), .ok ()⟩, ⟨.create r, .ok r⟩]
    ∃ s', v.History Store.empty es s' ∧ (s'.documents "inputs").length = 1 ∧
      (∀ d ∈ s'.documents "inputs", ∃ r : RecordKind.input.Carrier, Record.toDocument r = .ok d ∧
        Record.validate r = .ok () ∧ idOf? d = some (Record.derivedId r).toHex ∧
        Record.createdAt r ≤ Record.updatedAt r) ∧ ((s'.documents "inputs").map idOf?).Nodup := by
  intro v noon pastNoon r es
  have hvalid : Record.validate r = .ok () := Input.validate_specimen noon
  obtain ⟨s₁, hcreate, h₁⟩ := run_create_first (v := v) (s := Store.empty) rfl rfl hvalid
  have hrefused := h₁.run_create rfl hvalid
  obtain ⟨s₂, hupdate, h₂⟩ := h₁.run_update rfl hvalid
    ((Record.legible_iff .input _).2 (by decide))
    (show updateTime? noon noon = some pastNoon from rfl)
  obtain ⟨s₃, hdelete, hs₃, hempty⟩ := h₂.run_delete
  obtain ⟨s₄, hanew, h₄⟩ := run_create_first hs₃ hempty hvalid
  have hrun : v.History Store.empty es s₄ :=
    .cons (Program.ends_of_run hcreate) <| .cons (Program.ends_of_run hrefused) <|
      .cons (Program.ends_of_run hupdate) <| .cons (Program.ends_of_run hdelete) <|
        .cons (Program.ends_of_run hanew) (.nil s₄)
  obtain ⟨d, -, hdocs⟩ := h₄.documents
  exact ⟨s₄, hrun, congrArg List.length hdocs, history_sound .input v hrun rfl⟩

end Vault

end JobRegistry
