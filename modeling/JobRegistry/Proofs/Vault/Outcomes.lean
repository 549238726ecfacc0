import JobRegistry.Proofs.Vault.Selection
import JobRegistry.Proofs.Vault.UniqueIndex

/-!
# What creations, updates and deletions end with

Which of its outcomes an operation has depends on four things only: whether the record is valid,
whether the store is available, whether the identifier is stored, and whether the stored copy can be
read. `Vault.Creates`, `Vault.Updates` and `Vault.Deletes` are the tables, and `outcomes` says that
the operations follow them wherever a history can lead.

Some of the ways in which an operation is written to fail are never taken. The store refuses no
insertion and no replacement, for the operation has looked for the identifier before and identifiers
are apart; and a time of update that can be read is never the last there is.
-/

namespace JobRegistry

open Operation Store

/-! ## The tables -/

namespace Vault

section

variable {R : Type} [Record R]

/-- What a creation ends with, and the store after it, where some records are stored. -/
structure Creates (v : Vault R) (s : Store) (stored : List R) (r : R)
    (after : Except VaultError R × Store) : Prop where
  invalid : ∀ e, after.1 = .error (.validation e) ↔ Record.validate r = .error e
  offline : (∃ e, after.1 = .error (.storeUnavailable e)) ↔
    Record.validate r = .ok () ∧ s.available = false
  taken : after.1 = .error (v.taken (Record.id r)) ↔
    Record.validate r = .ok () ∧ s.available = true ∧ Record.id r ∈ stored.map Record.id
  created : after.1 = .ok r ↔
    Record.validate r = .ok () ∧ s.available = true ∧ Record.id r ∉ stored.map Record.id
  appended : ∀ r', after.1 = .ok r' → r' = r ∧ ∃ d, Record.toDocument r = .ok d ∧
    after.2 = s.withDocuments v.collection (s.documents v.collection ++ [d])
  unchanged : ∀ e, after.1 = .error e → after.2 = s
  neverMapping : ∀ e, after.1 ≠ .error (.mapping e)

/-- What a deletion ends with, and the store after it, where some records are stored. -/
structure Deletes (v : Vault R) (s : Store) (stored : List R) (id : RecordId)
    (after : Except VaultError Unit × Store) : Prop where
  offline : (∃ e, after.1 = .error (.storeUnavailable e)) ↔ s.available = false
  missing : after.1 = .error (v.missing id) ↔
    s.available = true ∧ id ∉ stored.map Record.id
  deleted : after.1 = .ok () ↔ s.available = true ∧ id ∈ stored.map Record.id
  dropped : after.1 = .ok () → ∃ old ∈ stored, ∃ front d back, Record.id old = id ∧
    Record.toDocument old = .ok d ∧ s.documents v.collection = front ++ d :: back ∧
    after.2 = s.withDocuments v.collection (front ++ back)
  unchanged : ∀ e, after.1 = .error e → after.2 = s

end

/-- What an update ends with, and the store after it, where some records are stored. -/
structure Updates {k : RecordKind} (v : Vault k.Carrier) (s : Store) (stored : List k.Carrier)
    (now : Timestamp) (r : k.Carrier) (after : Except VaultError k.Carrier × Store) : Prop where
  invalid : ∀ e, after.1 = .error (.validation e) ↔ Record.validate r = .error e
  offline : (∃ e, after.1 = .error (.storeUnavailable e)) ↔
    Record.validate r = .ok () ∧ s.available = false
  missing : after.1 = .error (v.missing (Record.id r)) ↔
    Record.validate r = .ok () ∧ s.available = true ∧ Record.id r ∉ stored.map Record.id
  unreadable : (∃ e, after.1 = .error (.mapping e)) ↔
    Record.validate r = .ok () ∧ s.available = true ∧ ∃ old ∈ stored,
      Record.id old = Record.id r ∧ ¬ ∀ t ∈ k.timestamps old, t.HasFourDigitYear
  updated : (∃ r', after.1 = .ok r') ↔
    Record.validate r = .ok () ∧ s.available = true ∧ ∃ old ∈ stored,
      Record.id old = Record.id r ∧ ∀ t ∈ k.timestamps old, t.HasFourDigitYear
  replaced : ∀ r', after.1 = .ok r' → ∃ old ∈ stored, ∃ u front d d' back,
    Record.id old = Record.id r ∧ updateTime? now (Record.updatedAt old) = some u ∧
    r' = Record.withTimes r (Record.createdAt old) u ∧
    Record.toDocument old = .ok d ∧ Record.toDocument r' = .ok d' ∧
    s.documents v.collection = front ++ d :: back ∧
    after.2 = s.withDocuments v.collection (front ++ d' :: back)
  unchanged : ∀ e, after.1 = .error e → after.2 = s
  neverTaken : ∀ c id, after.1 ≠ .error (.alreadyExists c id)

/-! ## Refusals -/

section

variable {R : Type} [Record R] {v : Vault R} {s : Store} {now : Timestamp} {r : R}

theorem run_create_invalid {e : ValidationError} (h : Record.validate r = .error e) :
    (v.create r).run s = (.error (.validation e), s) := by
  rw [create, h]
  rfl

theorem run_update_invalid {e : ValidationError} (h : Record.validate r = .error e) :
    (v.update now r).run s = (.error (.validation e), s) := by
  rw [update, h]
  rfl

theorem run_create_offline (hs : s.available = false) (h : Record.validate r = .ok ()) :
    (v.create r).run s =
      (.error (.storeUnavailable (.unavailable "in-memory store is offline")), s) := by
  refine (run_bind_ok (by rw [run_lift, h]; rfl)).trans ?_
  exact run_bind_error (run_ask_offline hs _)

theorem run_update_offline (hs : s.available = false) (h : Record.validate r = .ok ()) :
    (v.update now r).run s =
      (.error (.storeUnavailable (.unavailable "in-memory store is offline")), s) := by
  refine (run_bind_ok (by rw [run_lift, h]; rfl)).trans ?_
  exact run_bind_error (run_bind_error (run_ask_offline hs _))

omit [Record R] in
theorem run_delete_offline (hs : s.available = false) (id : RecordId) :
    (v.delete id).run s =
      (.error (.storeUnavailable (.unavailable "in-memory store is offline")), s) :=
  run_bind_error (run_ask_offline hs _)

end

/-! ## The tables hold -/

section

variable {R : Type} [Record R] [LawfulRecord R] {v : Vault R} {s : Store} {stored : List R}

theorem creates (h : Stores (s.documents v.collection) stored) (r : R) :
    v.Creates s stored r ((v.create r).run s) := by
  cases hvalid : Record.validate r with
  | error e =>
    rw [run_create_invalid hvalid]
    constructor <;> simp [hvalid, taken]
  | ok u =>
    cases hs : s.available with
    | false =>
      rw [run_create_offline hs hvalid]
      constructor <;> simp [hvalid, hs, taken]
    | true =>
      obtain ⟨hnone, hfresh⟩ | ⟨old, hmem, d, hid, -, hold⟩ := h.holding?_cases (Record.id r)
      · obtain ⟨d, hd⟩ := Record.exists_toDocument r
        rw [run_create hs hvalid hd hnone]
        constructor
        case appended =>
          rintro r' ⟨⟩
          exact ⟨rfl, d, hd, rfl⟩
        all_goals simp [hvalid, hs, hfresh]
      · have hstored : Record.id r ∈ stored.map Record.id := hid ▸ List.mem_map_of_mem hmem
        rw [run_create_taken hs hvalid hold]
        constructor <;> simp [hvalid, hs, hstored, taken]

theorem deletes (h : Stores (s.documents v.collection) stored) (id : RecordId) :
    v.Deletes s stored id ((v.delete id).run s) := by
  cases hs : s.available with
  | false =>
    rw [run_delete_offline hs]
    constructor <;> simp [hs, missing]
  | true =>
    obtain ⟨hnone, hfresh⟩ | ⟨old, hmem, d, hid, hd, hold⟩ := h.holding?_cases id
    · rw [run_delete_missing hs hnone]
      constructor <;> simp [hs, hfresh, missing]
    · have hstored : id ∈ stored.map Record.id := hid ▸ List.mem_map_of_mem hmem
      obtain ⟨front, back, hsplit, hrun⟩ := run_delete (v := v) hs hold
      rw [hrun]
      constructor
      case dropped =>
        exact fun _ => ⟨old, hmem, front, d, back, hid, hd, hsplit.eq, rfl⟩
      all_goals simp [hs, hstored]

end

section

variable {k : RecordKind} {v : Vault k.Carrier} {s : Store} {stored : List k.Carrier}

/-- A time of update that can be read is not the last there is. -/
theorem exists_updateTime? {r : k.Carrier} (h : ∀ t ∈ k.timestamps r, t.HasFourDigitYear)
    (now : Timestamp) : ∃ u, updateTime? now (Record.updatedAt r) = some u := by
  obtain ⟨u, hu⟩ := Timestamp.exists_plusSeconds?_one (h _ (Record.updatedAt_mem_timestamps k r))
  exact ⟨now.latest u, by rw [updateTime?, hu]; rfl⟩

/-- What a document of a record is read as. -/
theorem decode_cases {r : k.Carrier} {d : Document} (hd : Record.toDocument r = .ok d) :
    (∀ t ∈ k.timestamps r, t.HasFourDigitYear) ∧ decode d = .ok r ∨
      (¬ ∀ t ∈ k.timestamps r, t.HasFourDigitYear) ∧
        ∃ e, decode (R := k.Carrier) d = .error (.mapping e) := by
  have hans := (Record.ofDocument_answers hd).mapError VaultError.mapping
  rw [Record.legible_iff] at hans
  by_cases hleg : ∀ t ∈ k.timestamps r, t.HasFourDigitYear
  · exact .inl ⟨hleg, hans.eq_ok hleg⟩
  · refine .inr ⟨hleg, ?_⟩
    cases hdec : decode (R := k.Carrier) d with
    | error e =>
      obtain ⟨m, rfl⟩ := decode_error hdec
      exact ⟨m, rfl⟩
    | ok r' => exact absurd (hans.of_eq_ok hdec).1 hleg

theorem updates (h : Stores (s.documents v.collection) stored)
    (hunique : UniqueIds (s.documents v.collection)) (now : Timestamp) (r : k.Carrier) :
    v.Updates s stored now r ((v.update now r).run s) := by
  cases hvalid : Record.validate r with
  | error e =>
    rw [run_update_invalid hvalid]
    constructor <;> simp [hvalid, missing]
  | ok u =>
    cases hs : s.available with
    | false =>
      rw [run_update_offline hs hvalid]
      constructor <;> simp [hvalid, hs, missing]
    | true =>
      obtain ⟨hnone, hfresh⟩ | ⟨old, hmem, d, hid, hd, hold⟩ := h.holding?_cases (Record.id r)
      · have hnot : ∀ old ∈ stored, Record.id old ≠ Record.id r :=
          fun old hold heq => hfresh (heq ▸ List.mem_map_of_mem hold)
        rw [run_update_missing hs hvalid hnone]
        constructor <;> simp +contextual [hvalid, hs, hfresh, missing, hnot]
      · have hstored : Record.id r ∈ stored.map Record.id := hid ▸ List.mem_map_of_mem hmem
        -- The stored record of the identifier is the only one.
        have honly (p : k.Carrier → Prop) :
            (∃ old' ∈ stored, Record.id old' = Record.id r ∧ p old') ↔ p old := by
          refine ⟨?_, fun hp => ⟨old, hmem, hid, hp⟩⟩
          rintro ⟨old', hmem', hid', hp⟩
          rwa [h.eq_of_id hunique hmem hmem' (hid.trans hid'.symm)]
        obtain ⟨hleg, hdec⟩ | ⟨hleg, e, hdec⟩ := decode_cases hd
        · obtain ⟨u, hu⟩ := exists_updateTime? hleg now
          obtain ⟨d', hd'⟩ :=
            Record.exists_toDocument (Record.withTimes r (Record.createdAt old) u)
          obtain ⟨front, back, hsplit, hrun⟩ := run_update hs hunique hvalid hold hdec hu hd'
          rw [hrun]
          constructor
          case replaced =>
            rintro r' ⟨⟩
            exact ⟨old, hmem, u, front, d, d', back, hid, hu, rfl, hd, hd', hsplit.eq, rfl⟩
          case unreadable =>
            exact iff_of_false nofun fun ⟨_, _, hbad⟩ => (honly _).1 hbad hleg
          case updated => exact iff_of_true ⟨_, rfl⟩ ⟨hvalid, hs, (honly _).2 hleg⟩
          all_goals simp [hvalid, hs, hstored]
        · rw [run_update_unreadable hs hvalid hold hdec]
          constructor
          case unreadable => exact iff_of_true ⟨e, rfl⟩ ⟨hvalid, hs, (honly _).2 hleg⟩
          case updated =>
            exact iff_of_false nofun fun ⟨_, _, hgood⟩ => hleg ((honly _).1 hgood)
          all_goals simp [hvalid, hs, hstored, missing]

/-- **The outcomes of a vault.** Wherever a history has led that began with an empty collection,
each operation ends as its table says for the records that are stored now, whether or not the store
is available, and no two of those have the same identifier. The fault of a stored time of update
that cannot be advanced never shows: a document that can be read has such a time. -/
theorem outcomes (k : RecordKind) (v : Vault k.Carrier) {s₀ s₁ : Store}
    {es : List (Event k.Carrier)} (h : v.History s₀ es s₁) (h₀ : s₀.documents v.collection = [])
    (available : Bool) :
    let s : Store := { s₁ with available }
    ∃ stored : List k.Carrier,
      Stores (s.documents v.collection) stored ∧ (stored.map Record.id).Nodup ∧
      (∀ r, v.Creates s stored r ((v.create r).run s)) ∧
      (∀ now r, v.Updates s stored now r ((v.update now r).run s)) ∧
      (∀ id, v.Deletes s stored id ((v.delete id).run s)) ∧
      ∀ d ∈ s.documents v.collection, ∀ r : k.Carrier, decode d = .ok r →
        ∀ now, updateTime? now (Record.updatedAt r) ≠ none := by
  intro s
  have hsound : Sound k.Carrier (s.documents v.collection) :=
    h.sound (by rw [h₀]; exact ⟨nofun, .nil⟩)
  obtain ⟨stored, hstored⟩ := hsound.exists_stores
  refine ⟨stored, hstored, hstored.nodup_ids hsound.unique, creates hstored,
    updates hstored hsound.unique, deletes hstored, fun d hd r hdec now hnone => ?_⟩
  obtain ⟨r₀, hr₀, -⟩ := hsound.records d hd
  obtain rfl := eq_of_decode hr₀ hdec
  obtain ⟨hleg, -⟩ | ⟨-, e, he⟩ := decode_cases hr₀
  · obtain ⟨u, hu⟩ := exists_updateTime? hleg now
    cases hu.symm.trans hnone
  · cases hdec.symm.trans he

/-- An input that was just created cannot be created again, and can be updated and deleted. -/
theorem outcomes_specimen :
    let v : Vault RecordKind.input.Carrier := ⟨"inputs"⟩
    let r : RecordKind.input.Carrier := Input.specimen .lastLegible
    let s : Store := { ((v.create r).run Store.empty).2 with available := true }
    ((v.create r).run s).1 = .error (v.taken (Record.id r)) ∧
      (∃ r', ((v.update .lastLegible r).run s).1 = .ok r') ∧
      ((v.delete (Record.id r)).run s).1 = .ok () := by
  intro v r s
  have hvalid : Record.validate r = .ok () := Input.validate_specimen _
  obtain ⟨d, hd⟩ := Record.exists_toDocument r
  have hrun := run_create (v := v) (s := Store.empty) rfl hvalid hd rfl
  -- By reduction alone this would take the digest of the identifier.
  have hs : s = Store.empty.withDocuments v.collection [d] := by
    dsimp only [s]
    rw [hrun]
    rfl
  have hdocs : s.documents v.collection = [d] := by
    rw [hs, documents_withDocuments_self]
  obtain ⟨stored, hstored, -, hcreate, hupdate, hdelete, -⟩ :=
    outcomes .input v (.single (.create r) Store.empty) rfl true
  have hhold : holding? (s.documents v.collection) (Record.id r).toHex = some d := by
    rw [hdocs, holding?_cons_self (Record.idOf?_toDocument hd)]
  obtain ⟨hnone, -⟩ | ⟨old, hmem, d', hid, hd', hsome⟩ := hstored.holding?_cases (Record.id r)
  · cases hhold.symm.trans hnone
  · have hleg : ∀ t ∈ RecordKind.input.timestamps old, t.HasFourDigitYear := by
      obtain rfl := Option.some.inj (hhold.symm.trans hsome)
      obtain ⟨-, hdec⟩ | ⟨hnot, -⟩ := decode_cases hd
      · rw [← eq_of_decode hd' hdec]
        decide
      · exact absurd (by decide) hnot
    have hin : Record.id r ∈ stored.map Record.id := hid ▸ List.mem_map_of_mem hmem
    exact ⟨(hcreate r).taken.2 ⟨hvalid, rfl, hin⟩,
      (hupdate _ r).updated.2 ⟨hvalid, rfl, old, hmem, hid, hleg⟩,
      (hdelete _).deleted.2 ⟨rfl, hin⟩⟩

end

end Vault

end JobRegistry
