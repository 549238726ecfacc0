import JobRegistry.Proofs.Record.Kinds
import JobRegistry.Proofs.Vault.Online
import JobRegistry.Proofs.Vault.Soundness

/-!
# Reading what was written

A record that was just created or updated is found again, alone and among all records, exactly when
the years of its timestamps have four digits (`read_back_of_write`). The text of any other timestamp
is no timestamp to the reader, so that a write may succeed and leave a document on which every
search that meets it fails. The clock need not be there yet: the update of a record whose time of
update is the last second of the year 9999 leads past it (`update_past_year_9999`).
-/

namespace JobRegistry

open Program (Ends)
open Operation Store

namespace Vault

variable {R : Type} [Record R]

/-! ## Reading all documents -/

theorem decodeAll_cons_ok {d : Document} {docs : List Document} {rs : List R}
    (h : decodeAll (d :: docs) = .ok rs) :
    ∃ r rest, decode d = .ok r ∧ decodeAll docs = .ok rest ∧ rs = r :: rest := by
  rw [decodeAll] at h
  cases hd : decode (R := R) d with
  | error e => rw [hd] at h; cases h
  | ok r =>
    cases hrest : decodeAll (R := R) docs with
    | error e => rw [hd, hrest] at h; cases h
    | ok rest =>
      rw [hd, hrest] at h
      exact ⟨r, rest, rfl, rfl, (Except.ok.inj h).symm⟩

theorem exists_of_decodeAll_eq_ok {docs : List Document} {rs : List R}
    (h : decodeAll docs = .ok rs) {d : Document} (hd : d ∈ docs) : ∃ r ∈ rs, decode d = .ok r := by
  induction docs generalizing rs with
  | nil => cases hd
  | cons e docs ih =>
    obtain ⟨r, rest, he, hrest, rfl⟩ := decodeAll_cons_ok h
    obtain rfl | hd := List.mem_cons.1 hd
    · exact ⟨r, List.mem_cons_self, he⟩
    · obtain ⟨r', hr', hdec⟩ := ih hrest hd
      exact ⟨r', List.mem_cons_of_mem _ hr', hdec⟩

theorem decodeAll_eq_ok {docs : List Document} (h : ∀ d ∈ docs, ∃ r : R, decode d = .ok r) :
    ∃ rs : List R, decodeAll docs = .ok rs := by
  induction docs with
  | nil => exact ⟨[], rfl⟩
  | cons d docs ih =>
    obtain ⟨⟨r, hr⟩, hrest⟩ := List.forall_mem_cons.1 h
    obtain ⟨rs, hrs⟩ := ih hrest
    exact ⟨r :: rs, by rw [decodeAll, hr, hrs]; rfl⟩

/-- The faults of reading are those of the mapper. -/
theorem decode_error {d : Document} {e : VaultError} (h : decode (R := R) d = .error e) :
    ∃ m, e = .mapping m := by
  rw [decode] at h
  cases hd : Record.ofDocument R d with
  | error m => rw [hd] at h; exact ⟨m, (Except.error.inj h).symm⟩
  | ok r => rw [hd] at h; cases h

theorem decodeAll_error {docs : List Document} {e : VaultError}
    (h : decodeAll (R := R) docs = .error e) : ∃ m, e = .mapping m := by
  induction docs with
  | nil => cases h
  | cons d docs ih =>
    rw [decodeAll] at h
    cases hd : decode (R := R) d with
    | error e' =>
      rw [hd] at h
      obtain rfl := Except.error.inj h
      exact decode_error hd
    | ok r =>
      cases hrest : decodeAll (R := R) docs with
      | error e' =>
        rw [hd, hrest] at h
        obtain rfl := Except.error.inj h
        exact ih hrest
      | ok rest => rw [hd, hrest] at h; cases h

/-! ## After a write -/

variable [LawfulRecord R] {v : Vault R} {s s' : Store}

/-- The operation puts one record into the collection. -/
inductive Writes (v : Vault R) : Operation R → Prop
  | create (r : R) : Writes v (v.create r)
  | update (now : Timestamp) (r : R) : Writes v (v.update now r)

/-- A write that succeeds leaves the document of its result under its identifier, and else only
documents that were there before. -/
theorem Writes.stored {p : Operation R} (hp : v.Writes p) {r : R} (h : Ends p s (.ok r) s') :
    ∃ d, Record.toDocument r = .ok d ∧
      holding? (s'.documents v.collection) (Record.id r).toHex = some d ∧
      ∀ e ∈ s'.documents v.collection, e = d ∨ e ∈ s.documents v.collection := by
  cases hp with
  | create r' =>
    cases effect_of_ends (q := .create r') h with
    | quiet isQuiet => exact absurd isQuiet not_false
    | created valid hd fresh appended =>
      have hdocs := documents_of_collections appended
      refine ⟨_, hd, ?_, fun e he => ?_⟩
      · rw [hdocs, holding?_append_singleton (Record.idOf?_toDocument hd) fresh, if_pos rfl]
      · rw [hdocs] at he
        obtain he | he := List.mem_append.1 he
        · exact .inr he
        · exact .inl (List.mem_singleton.1 he)
  | update now r' =>
    cases effect_of_ends (q := .update now r') h with
    | quiet isQuiet => exact absurd isQuiet not_false
    | updated valid split decoded later hd replaced =>
      have hdocs := documents_of_collections replaced
      have hid := Record.idOf?_toDocument hd
      rw [LawfulRecord.id_withTimes] at hid
      refine ⟨_, hd, ?_, fun e he => ?_⟩
      · rw [hdocs, LawfulRecord.id_withTimes, split.holding?_replace hid, if_pos rfl]
      · rw [hdocs] at he
        exact split.mem_replace he

/-- The result of a write is found if it is legible. -/
theorem Writes.found {p : Operation R} (hp : v.Writes p) (hs : s.available = true) {r : R}
    (h : p.run s = (.ok r, s')) (hleg : Record.Legible r) :
    ((v.findById (Record.id r)).run s').1 = .ok r ∧
      ∀ rs, (v.findAll.run s).1 = .ok rs → ∃ rs', (v.findAll.run s').1 = .ok rs' ∧ r ∈ rs' := by
  obtain ⟨d, hd, hold, hdocs⟩ := hp.stored (Program.ends_of_run h)
  have hs' := available_of_run hs h
  have hans := (Record.ofDocument_answers hd).mapError VaultError.mapping
  have hdec : decode d = .ok r := hans.eq_ok hleg
  rw [run_findById hs' hold, run_findAll hs, run_findAll hs']
  refine ⟨hdec, fun rs hrs => ?_⟩
  obtain ⟨rs', hrs'⟩ := decodeAll_eq_ok (R := R) fun e (he : e ∈ s'.documents v.collection) => by
    obtain rfl | he := hdocs e he
    · exact ⟨r, hdec⟩
    · obtain ⟨r', -, hr'⟩ := exists_of_decodeAll_eq_ok hrs he
      exact ⟨r', hr'⟩
  obtain ⟨r', hmem, hr'⟩ := exists_of_decodeAll_eq_ok hrs' (mem_of_holding? hold)
  obtain rfl := Except.ok.inj (hdec.symm.trans hr')
  exact ⟨rs', hrs', hmem⟩

/-- Where the result of a write is not legible, every search that meets it fails. -/
theorem Writes.not_found {p : Operation R} (hp : v.Writes p) (hs : s.available = true) {r : R}
    (h : p.run s = (.ok r, s')) (hleg : ¬ Record.Legible r) :
    (∃ e, ((v.findById (Record.id r)).run s').1 = .error (.mapping e)) ∧
      ∃ e, (v.findAll.run s').1 = .error (.mapping e) := by
  obtain ⟨d, hd, hold, -⟩ := hp.stored (Program.ends_of_run h)
  have hs' := available_of_run hs h
  have hans := (Record.ofDocument_answers hd).mapError VaultError.mapping
  have hnot {r' : R} (hdec : decode d = .ok r') : False := hleg (hans.of_eq_ok hdec).1
  rw [run_findById hs' hold, run_findAll hs']
  refine ⟨?_, ?_⟩
  · cases hdec : decode (R := R) d with
    | error e =>
      obtain ⟨m, rfl⟩ := decode_error hdec
      exact ⟨m, rfl⟩
    | ok r' => exact absurd hdec hnot
  · cases hall : decodeAll (R := R) (s'.documents v.collection) with
    | error e =>
      obtain ⟨m, rfl⟩ := decodeAll_error hall
      exact ⟨m, rfl⟩
    | ok rs' =>
      obtain ⟨r', -, hdec⟩ := exists_of_decodeAll_eq_ok hall (mem_of_holding? hold)
      exact absurd hdec hnot

/-- **When a write can be read back.** After a successful write the search for its result answers
that result, and the search for all records, if it succeeded before, answers it among them, provided
that the years of all its timestamps have four digits. Without that both searches fail. -/
theorem read_back_of_write (k : RecordKind) (v : Vault k.Carrier) {s s' : Store}
    {p : Operation k.Carrier} (hp : v.Writes p) (hs : s.available = true) {r : k.Carrier}
    (h : p.run s = (.ok r, s')) :
    ((∀ t ∈ k.timestamps r, t.HasFourDigitYear) →
      ((v.findById (Record.id r)).run s').1 = .ok r ∧
      ∀ rs, (v.findAll.run s).1 = .ok rs →
        ∃ rs', (v.findAll.run s').1 = .ok rs' ∧ r ∈ rs') ∧
    ((¬ ∀ t ∈ k.timestamps r, t.HasFourDigitYear) →
      (∃ e, ((v.findById (Record.id r)).run s').1 = .error (.mapping e)) ∧
      ∃ e, (v.findAll.run s').1 = .error (.mapping e)) := by
  rw [← Record.legible_iff]
  exact ⟨hp.found hs h, hp.not_found hs h⟩

/-- An input created in the last second of the year 9999. -/
theorem read_back_of_write_specimen :
    let v : Vault RecordKind.input.Carrier := ⟨"inputs"⟩
    let r : RecordKind.input.Carrier := Input.specimen .lastLegible
    ∃ s', (v.create r).run Store.empty = (.ok r, s') ∧
      ((v.findById (Record.id r)).run s').1 = .ok r ∧
      ∃ rs, (v.findAll.run s').1 = .ok rs ∧ r ∈ rs := by
  intro v r
  obtain ⟨d, hd⟩ := Record.exists_toDocument r
  have hvalid : Record.validate r = .ok () := Input.validate_specimen _
  have hrun := run_create (v := v) (s := Store.empty) rfl hvalid hd rfl
  obtain ⟨hfound, hall⟩ :=
    (read_back_of_write .input v (.create r) rfl hrun).1 (by decide)
  exact ⟨_, hrun, hfound, hall [] rfl⟩

/-- An input created in the last second of the year 9999 is found, and is lost to all searches when
it is updated in the same second: the update succeeds and moves it into the year 10000. -/
theorem update_past_year_9999 :
    let v : Vault RecordKind.input.Carrier := ⟨"inputs"⟩
    let t : Timestamp := .lastLegible
    let u : Timestamp := ⟨253402300800, false, by decide, by decide, by decide⟩
    let r : RecordKind.input.Carrier := Input.specimen t
    ∃ s₁ s₂, (v.create r).run Store.empty = (.ok r, s₁) ∧
      (∃ rs, (v.findAll.run s₁).1 = .ok rs ∧ r ∈ rs) ∧
      (v.update t r).run s₁ = (.ok (Record.withTimes (R := RecordKind.input.Carrier) r t u), s₂) ∧
      (∃ e, ((v.findById (Record.id r)).run s₂).1 = .error (.mapping e)) ∧
      ∃ e, (v.findAll.run s₂).1 = .error (.mapping e) := by
  intro v t u r
  have hvalid : Record.validate r = .ok () := Input.validate_specimen t
  have hlegible : Record.Legible r := (Record.legible_iff .input r).2 (by decide)
  have hnot : ¬ Record.Legible (Record.withTimes r t u) :=
    (not_congr (Record.legible_iff .input _)).2 (by decide)
  have htime : updateTime? t (Record.updatedAt r) = some u := rfl
  obtain ⟨s₁, hcreate, honly⟩ := run_create_first (v := v) (s := Store.empty) rfl rfl hvalid
  obtain ⟨s₂, hupdate, -⟩ := honly.run_update rfl hvalid hlegible htime
  have hfound := (Writes.create (v := v) r).found rfl hcreate hlegible
  have hlost := (Writes.update (v := v) t r).not_found (available_of_run rfl hcreate) hupdate hnot
  rw [LawfulRecord.id_withTimes] at hlost
  exact ⟨s₁, s₂, hcreate, hfound.2 [] rfl, hupdate, hlost⟩

end Vault

end JobRegistry
