import JobRegistry.Proofs.Record.Lawful
import JobRegistry.Proofs.Store.Runs
import JobRegistry.Vault.Basic

/-!
# What operations do to a collection

For every operation of a vault, what a run of it can end with and what it leaves behind
(`create_ends`, `update_ends`, `delete_ends`, `find_ends` and so on), while the store goes offline
and comes back as it likes. An operation that ends with a fault leaves all collections as they
were, and so does one that only reads.
-/

namespace JobRegistry

open Program (Ends)
open Operation Store

namespace Vault

variable {R : Type} [Record R] {s s' : Store} {v : Vault R}

/-! ## Calls -/

theorem findOne_ends {c : String} {filter : Filter} {x : Except VaultError (Option Document)}
    (h : Ends (ask (.findOne c filter)) s x s') : s'.collections = s.collections ∧
      ((∃ e, x = .error e) ∨ x = .ok ((s.documents c).find? filter.accepts)) := by
  obtain ⟨e, rfl, hs⟩ | ⟨rfl, hs⟩ := ends_ask h
  · exact ⟨hs, .inl ⟨e, rfl⟩⟩
  · exact ⟨hs, .inr rfl⟩

theorem insertOne_ends {c : String} {d : Document} {x : Except VaultError String}
    (h : Ends (ask (.insertOne c d)) s x s') :
    (∃ e, x = .error e ∧ s'.collections = s.collections) ∨
      ∃ id, x = .ok id ∧ idOf? d = some id ∧ holding? (s.documents c) id = none ∧
        s'.collections = (s.withDocuments c (s.documents c ++ [d])).collections := by
  obtain ⟨e, rfl, hs⟩ | ⟨hx, hs⟩ := ends_ask h
  · exact .inl ⟨e, rfl, hs⟩
  · simp only [answer] at hx hs
    obtain ⟨e, he⟩ | ⟨id, hid, hnone, he⟩ := s.insertOne_cases c d
    · rw [he] at hx hs
      exact .inl ⟨_, hx, hs⟩
    · rw [he] at hx hs
      exact .inr ⟨id, hx, hid, hnone, hs⟩

theorem updateOne_ends {c : String} {filter : Filter} {d : Document} {x : Except VaultError Bool}
    (h : Ends (ask (.updateOne c filter d)) s x s') :
    ((∃ e, x = .error e) ∨ x = .ok false) ∧ s'.collections = s.collections ∨
      x = .ok true ∧ ∃ before old after, Split (s.documents c) filter before old after ∧
        s'.collections = (s.withDocuments c (before ++ d :: after)).collections := by
  obtain ⟨e, rfl, hs⟩ | ⟨hx, hs⟩ := ends_ask h
  · exact .inl ⟨.inl ⟨e, rfl⟩, hs⟩
  · simp only [answer] at hx hs
    obtain ⟨e, he⟩ | ⟨-, he⟩ | ⟨before, old, after, hsplit, he⟩ := s.updateOne_cases c filter d
    · rw [he] at hx hs
      exact .inl ⟨.inl ⟨_, hx⟩, hs⟩
    · rw [he] at hx hs
      exact .inl ⟨.inr hx, hs⟩
    · rw [he] at hx hs
      exact .inr ⟨hx, before, old, after, hsplit, hs⟩

theorem deleteOne_ends {c : String} {filter : Filter} {x : Except VaultError Bool}
    (h : Ends (ask (.deleteOne c filter)) s x s') :
    ((∃ e, x = .error e) ∨ x = .ok false) ∧ s'.collections = s.collections ∨
      x = .ok true ∧ ∃ before old after, Split (s.documents c) filter before old after ∧
        s'.collections = (s.withDocuments c (before ++ after)).collections := by
  obtain ⟨e, rfl, hs⟩ | ⟨hx, hs⟩ := ends_ask h
  · exact .inl ⟨.inl ⟨e, rfl⟩, hs⟩
  · simp only [answer] at hx hs
    obtain ⟨-, he⟩ | ⟨before, old, after, hsplit, he⟩ := s.deleteOne_cases c filter
    · rw [he] at hx hs
      exact .inl ⟨.inr hx, hs⟩
    · rw [he] at hx hs
      exact .inr ⟨hx, before, old, after, hsplit, hs⟩

/-! ## Reading -/

theorem find_ends {filter : Filter} {x : Except VaultError (List R)}
    (h : Ends (v.find filter) s x s') : s'.collections = s.collections := by
  obtain ⟨e, -, hc₁⟩ | ⟨docs, s₁, hc₁, hrest₁⟩ := ends_bind.1 h
  · obtain ⟨_, _, hs⟩ | ⟨_, hs⟩ := ends_ask hc₁ <;> exact hs
  · obtain ⟨-, rfl⟩ := ends_lift.1 hrest₁
    obtain ⟨_, _, hs⟩ | ⟨_, hs⟩ := ends_ask hc₁ <;> exact hs

/-- A search that ends with a record has read the first document that the filter accepts. -/
theorem findFirst_ends {filter : Filter} {x : Except VaultError (Option R)}
    (h : Ends (v.findFirst filter) s x s') : s'.collections = s.collections ∧
      (x = .ok none → (s.documents v.collection).find? filter.accepts = none) ∧
      ∀ r, x = .ok (some r) → ∃ d, (s.documents v.collection).find? filter.accepts = some d ∧
        decode d = .ok r := by
  obtain ⟨e, rfl, hc₁⟩ | ⟨found, s₁, hc₁, hrest₁⟩ := ends_bind.1 h
  · exact ⟨(findOne_ends hc₁).1, nofun, nofun⟩
  · obtain ⟨hs, ⟨_, he⟩ | he⟩ := findOne_ends hc₁
    · cases he
    · obtain rfl := Except.ok.inj he
      split at hrest₁
      · next hf =>
        obtain ⟨rfl, rfl⟩ := ends_pure.1 hrest₁
        exact ⟨hs, fun _ => hf, nofun⟩
      · next d hf =>
        obtain ⟨e, rfl, hc₂⟩ | ⟨r, s₂, hc₂, hrest₂⟩ := ends_bind.1 hrest₁
        · obtain ⟨-, rfl⟩ := ends_lift.1 hc₂
          exact ⟨hs, nofun, nofun⟩
        · obtain ⟨hd, rfl⟩ := ends_lift_ok.1 hc₂
          obtain ⟨rfl, rfl⟩ := ends_pure.1 hrest₂
          refine ⟨hs, nofun, fun r' hr' => ⟨d, hf, ?_⟩⟩
          cases hr'
          exact hd

theorem findById_ends {id : RecordId} {x : Except VaultError R}
    (h : Ends (v.findById id) s x s') : s'.collections = s.collections := by
  obtain ⟨e, -, hc₁⟩ | ⟨found, s₁, hc₁, hrest₁⟩ := ends_bind.1 h
  · exact (findFirst_ends hc₁).1
  · rw [← (findFirst_ends hc₁).1]
    split at hrest₁
    · rw [(ends_fail.1 hrest₁).2]
    · rw [(ends_pure.1 hrest₁).2]

/-! ## Writing -/

/-- A record is created by putting its document at the end. -/
theorem create_ends {r : R} {x : Except VaultError R} (h : Ends (v.create r) s x s') :
    (∃ e, x = .error e) ∧ s'.collections = s.collections ∨
      x = .ok r ∧ Record.validate r = .ok () ∧ ∃ d id, Record.toDocument r = .ok d ∧
        idOf? d = some id ∧ holding? (s.documents v.collection) id = none ∧
        s'.collections =
          (s.withDocuments v.collection (s.documents v.collection ++ [d])).collections := by
  obtain ⟨e, rfl, hc₁⟩ | ⟨u, s₁, hc₁, hrest₁⟩ := ends_bind.1 h
  · exact .inl ⟨⟨e, rfl⟩, by rw [(ends_lift.1 hc₁).2]⟩
  obtain ⟨hvalid, rfl⟩ := ends_lift_ok.1 hc₁
  obtain ⟨e, rfl, hc₂⟩ | ⟨found, s₂, hc₂, hrest₂⟩ := ends_bind.1 hrest₁
  · exact .inl ⟨⟨e, rfl⟩, (findOne_ends hc₂).1⟩
  have hs₂ := (findOne_ends hc₂).1
  split at hrest₂
  · obtain ⟨rfl, rfl⟩ := ends_fail.1 hrest₂
    exact .inl ⟨⟨_, rfl⟩, hs₂⟩
  obtain ⟨e, rfl, hc₃⟩ | ⟨d, s₃, hc₃, hrest₃⟩ := ends_bind.1 hrest₂
  · exact .inl ⟨⟨e, rfl⟩, by rw [(ends_lift.1 hc₃).2, hs₂]⟩
  obtain ⟨hd, rfl⟩ := ends_lift_ok.1 hc₃
  obtain ⟨e, rfl, hc₄⟩ | ⟨id, s₄, hc₄, hrest₄⟩ := ends_bind.1 hrest₃
  · obtain ⟨_, _, hs⟩ | ⟨_, hx, _⟩ := insertOne_ends hc₄
    · exact .inl ⟨⟨e, rfl⟩, hs.trans hs₂⟩
    · cases hx
  obtain ⟨rfl, rfl⟩ := ends_pure.1 hrest₄
  obtain ⟨_, hx, _⟩ | ⟨id', -, hid, hnone, hs⟩ := insertOne_ends hc₄
  · cases hx
  · rw [documents_congr hs₂] at hnone hs
    refine .inr ⟨rfl, hvalid, d, id', hd, hid, hnone, ?_⟩
    rw [hs, withDocuments, withDocuments, hs₂]

/-- A record is updated by putting its document, with the stored time of creation and a later time
of update, in the place of the stored one. -/
theorem update_ends {now : Timestamp} {r : R} {x : Except VaultError R}
    (h : Ends (v.update now r) s x s') :
    (∃ e, x = .error e) ∧ s'.collections = s.collections ∨
      Record.validate r = .ok () ∧ ∃ before old after, ∃ stored : R, ∃ u d,
        Split (s.documents v.collection) (byId (Record.id r)) before old after ∧
        decode old = .ok stored ∧ updateTime? now (Record.updatedAt stored) = some u ∧
        x = .ok (Record.withTimes r (Record.createdAt stored) u) ∧
        Record.toDocument (Record.withTimes r (Record.createdAt stored) u) = .ok d ∧
        s'.collections = (s.withDocuments v.collection (before ++ d :: after)).collections := by
  obtain ⟨e, rfl, hc₁⟩ | ⟨_, s₁, hc₁, hrest₁⟩ := ends_bind.1 h
  · exact .inl ⟨⟨e, rfl⟩, by rw [(ends_lift.1 hc₁).2]⟩
  obtain ⟨hvalid, rfl⟩ := ends_lift_ok.1 hc₁
  obtain ⟨e, rfl, hc₂⟩ | ⟨found, s₂, hc₂, hrest₂⟩ := ends_bind.1 hrest₁
  · exact .inl ⟨⟨e, rfl⟩, (findFirst_ends hc₂).1⟩
  obtain ⟨hs₂, -, hfound⟩ := findFirst_ends hc₂
  split at hrest₂
  · obtain ⟨rfl, rfl⟩ := ends_fail.1 hrest₂
    exact .inl ⟨⟨_, rfl⟩, hs₂⟩
  next _ stored =>
  obtain ⟨old, hold, hdec⟩ := hfound stored rfl
  split at hrest₂
  · obtain ⟨rfl, rfl⟩ := ends_fail.1 hrest₂
    exact .inl ⟨⟨_, rfl⟩, hs₂⟩
  next u hu =>
  obtain ⟨e, rfl, hc₃⟩ | ⟨d, s₃, hc₃, hrest₃⟩ := ends_bind.1 hrest₂
  · exact .inl ⟨⟨e, rfl⟩, by rw [(ends_lift.1 hc₃).2, hs₂]⟩
  obtain ⟨hd, rfl⟩ := ends_lift_ok.1 hc₃
  obtain ⟨e, rfl, hc₄⟩ | ⟨b, s₄, hc₄, hrest₄⟩ := ends_bind.1 hrest₃
  · obtain ⟨-, hs⟩ | ⟨hx, -⟩ := updateOne_ends hc₄
    · exact .inl ⟨⟨e, rfl⟩, hs.trans hs₂⟩
    · cases hx
  split at hrest₄
  · obtain ⟨rfl, rfl⟩ := ends_pure.1 hrest₄
    obtain ⟨⟨_, hx⟩ | hx, -⟩ | ⟨-, before, old', after, hsplit, hs⟩ := updateOne_ends hc₄
    · cases hx
    · cases hx
    · rw [documents_congr hs₂] at hsplit
      obtain rfl := Option.some.inj (hsplit.find?_eq.symm.trans hold)
      refine .inr ⟨hvalid, before, old', after, stored, u, d, hsplit, hdec, hu, rfl, hd, ?_⟩
      rw [hs, withDocuments, withDocuments, hs₂]
  · obtain ⟨rfl, rfl⟩ := ends_fail.1 hrest₄
    obtain ⟨-, hs⟩ | ⟨hx, -⟩ := updateOne_ends hc₄
    · exact .inl ⟨⟨_, rfl⟩, hs.trans hs₂⟩
    · cases hx

omit [Record R] in
/-- A record is deleted by dropping the first document with its identifier. -/
theorem delete_ends {id : RecordId} {x : Except VaultError Unit} (h : Ends (v.delete id) s x s') :
    (∃ e, x = .error e) ∧ s'.collections = s.collections ∨
      x = .ok () ∧ ∃ before old after,
        Split (s.documents v.collection) (byId id) before old after ∧
        s'.collections = (s.withDocuments v.collection (before ++ after)).collections := by
  obtain ⟨e, rfl, hc₁⟩ | ⟨b, s₁, hc₁, hrest₁⟩ := ends_bind.1 h
  · obtain ⟨-, hs⟩ | ⟨hx, -⟩ := deleteOne_ends hc₁
    · exact .inl ⟨⟨e, rfl⟩, hs⟩
    · cases hx
  split at hrest₁
  · obtain ⟨rfl, rfl⟩ := ends_pure.1 hrest₁
    obtain ⟨⟨_, hx⟩ | hx, -⟩ | ⟨-, h⟩ := deleteOne_ends hc₁
    · cases hx
    · cases hx
    · exact .inr ⟨rfl, h⟩
  · obtain ⟨rfl, rfl⟩ := ends_fail.1 hrest₁
    obtain ⟨-, hs⟩ | ⟨hx, -⟩ := deleteOne_ends hc₁
    · exact .inl ⟨⟨_, rfl⟩, hs⟩
    · cases hx

end Vault

end JobRegistry
