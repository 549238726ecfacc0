import JobRegistry.Proofs.Record.Kinds
import JobRegistry.Proofs.Vault.History
import JobRegistry.Proofs.Vault.Online
import JobRegistry.Proofs.Vault.Soundness

/-!
# What happens under one identifier

From its creation to its deletion the record under an identifier is made of three things: the time
of its creation, the record that was written last (`Event.written`), and a time of update that the
successful updates move forward (`Event.advance`). `Effect.holds` is the step, `History.holds` the
run, and `history_after_create` the law of whole histories, in which anything may happen under other
identifiers, requests may fail, and the clock may stand still or go back.
-/

namespace JobRegistry

open Store
open Vault (updateTime?)

variable {R : Type} [Record R]

namespace Event

/-- The record written last under an identifier. -/
def written (id : RecordId) (last : R) : Event R → R
  | ⟨.update _ r, .ok _⟩ => if Record.id r = id then r else last
  | _ => last

/-- The time of update under an identifier after an event, if it was `t` before. -/
def advance (id : RecordId) (t : Timestamp) : Event R → Timestamp
  | ⟨.update now r, .ok _⟩ => if Record.id r = id then (updateTime? now t).getD t else t
  | _ => t

theorem unchanged_of_not_updates {id : RecordId} {e : Event R} (h : ¬ e.Updates id) (last : R)
    (t : Timestamp) : e.written id last = last ∧ e.advance id t = t := by
  obtain ⟨q, x⟩ := e
  cases q with
  | update now r =>
    cases x with
    | error e => exact ⟨rfl, rfl⟩
    | ok y => exact ⟨if_neg h, if_neg h⟩
  | _ => exact ⟨rfl, rfl⟩

theorem id_written (e : Event R) (last : R) :
    Record.id (e.written (Record.id last) last) = Record.id last := by
  unfold written
  split
  · split
    · next h => exact h
    · rfl
  · rfl

theorem id_foldl_written (es : List (Event R)) (last : R) :
    Record.id (es.foldl (written (Record.id last)) last) = Record.id last := by
  induction es generalizing last with
  | nil => rfl
  | cons e es ih =>
    have := ih (e.written (Record.id last) last)
    rwa [id_written] at this

/-- No event moves the time of update back. -/
theorem le_advance (id : RecordId) (t : Timestamp) (e : Event R) : t ≤ e.advance id t := by
  have hrefl : t ≤ t := Timestamp.le_refl t
  unfold advance
  split
  · split
    · next now _ _ _ =>
      cases hu : updateTime? now t with
      | none => exact hrefl
      | some u => exact Timestamp.le_of_lt (Vault.lt_of_updateTime? hu)
    · exact hrefl
  · exact hrefl

theorem le_foldl_advance (id : RecordId) (t : Timestamp) (es : List (Event R)) :
    t ≤ es.foldl (advance id) t := by
  induction es generalizing t with
  | nil => exact Timestamp.le_refl t
  | cons e es ih => exact Timestamp.le_trans (le_advance id t e) (ih _)

theorem not_updates_of_isQuiet {id : RecordId} {e : Event R} (h : e.IsQuiet) : ¬ e.Updates id := by
  obtain ⟨q, x⟩ := e
  cases q with
  | update now r =>
    cases x with
    | error e => exact not_false
    | ok y => exact absurd h not_false
  | _ => exact not_false

end Event

namespace Vault

variable [LawfulRecord R] {v : Vault R} {s s' : Store}

/-- The document of the record stands under its identifier. -/
def Holds (v : Vault R) (s : Store) (r : R) : Prop :=
  ∃ d, Record.toDocument r = .ok d ∧
    holding? (s.documents v.collection) (Record.id r).toHex = some d

omit [LawfulRecord R] in
/-- The document of the record still stands under its identifier when nothing there changed. -/
theorem Holds.congr {r : R} (h : v.Holds s r)
    (hs : holding? (s'.documents v.collection) (Record.id r).toHex =
      holding? (s.documents v.collection) (Record.id r).toHex) : v.Holds s' r := by
  obtain ⟨d, hd, hold⟩ := h
  exact ⟨d, hd, hs.trans hold⟩

/-- What an update reads is the record that stands under the identifier. -/
theorem Holds.stored_eq {r₀ r stored : R} {before after : List Document} {old : Document}
    (h : v.Holds s r₀) (hid : Record.id r = Record.id r₀)
    (split : Split (s.documents v.collection) (byId (Record.id r)) before old after)
    (decoded : decode old = .ok stored) : stored = r₀ := by
  obtain ⟨d, hd, hold⟩ := h
  rw [← hid] at hold
  obtain rfl := Option.some.inj (hold.symm.trans split.find?_eq)
  exact eq_of_decode hd decoded

/-- What an event does to the record under an identifier that it does not delete. -/
theorem Effect.holds {e : Event R} (he : Effect v s s' e) {last : R} {c t : Timestamp}
    (h : v.Holds s (Record.withTimes last c t)) (hdel : ¬ e.Deletes (Record.id last)) :
    v.Holds s' (Record.withTimes (e.written (Record.id last) last) c
      (e.advance (Record.id last) t)) := by
  cases he with
  | quiet isQuiet same =>
    have hnot : ¬ e.Updates (Record.id last) := Event.not_updates_of_isQuiet isQuiet
    obtain ⟨hw, ha⟩ := Event.unchanged_of_not_updates hnot last t
    rw [hw, ha]
    exact h.congr (by rw [documents_congr same])
  | @created r d valid hd fresh appended =>
    refine h.congr ?_
    rw [documents_of_collections appended,
      holding?_append_singleton (Record.idOf?_toDocument hd) fresh]
    refine if_neg fun heq => ?_
    obtain ⟨d₀, -, hold⟩ := h
    rw [heq, fresh] at hold
    cases hold
  | @updated now u r stored before after old d valid split decoded later hd replaced =>
    have hid := Record.idOf?_toDocument hd
    rw [LawfulRecord.id_withTimes] at hid
    have hrepl := split.holding?_replace hid (Record.id last).toHex
    by_cases heq : Record.id r = Record.id last
    · obtain rfl := h.stored_eq (by rw [heq, LawfulRecord.id_withTimes]) split decoded
      simp only [LawfulRecord.createdAt_withTimes, LawfulRecord.updatedAt_withTimes] at hd later
      simp only [Event.written, Event.advance, if_pos heq, later, Option.getD_some]
      refine ⟨d, hd, ?_⟩
      rw [documents_of_collections replaced, LawfulRecord.id_withTimes, heq, hrepl, heq, if_pos rfl]
    · simp only [Event.written, Event.advance, if_neg heq]
      refine h.congr ?_
      rw [documents_of_collections replaced, LawfulRecord.id_withTimes, hrepl,
        if_neg fun hhex => heq (RecordId.toHex_inj.1 hhex).symm]
  | @deleted id before after old split dropped =>
    refine h.congr ?_
    rw [documents_of_collections dropped, LawfulRecord.id_withTimes]
    exact split.holding?_drop_of_ne fun hhex => hdel (RecordId.toHex_inj.1 hhex).symm

/-- A successful update moves the time of update to the reading of the clock, or to one second past
the stored time if that is later. -/
theorem Effect.advances {now : Timestamp} {x y : R} (he : Effect v s s' ⟨.update now x, .ok y⟩)
    {last : R} {c t : Timestamp} (h : v.Holds s (Record.withTimes last c t))
    (hid : Record.id x = Record.id last) : ∃ u, t.plusSeconds? 1 = some u ∧
      Event.advance (Record.id last) t ⟨.update now x, .ok y⟩ = now.latest u := by
  cases he with
  | quiet isQuiet => exact absurd isQuiet not_false
  | updated valid split decoded later hd replaced =>
    obtain rfl := h.stored_eq (by rw [hid, LawfulRecord.id_withTimes]) split decoded
    rw [LawfulRecord.updatedAt_withTimes] at later
    obtain ⟨u, hu, rfl⟩ := Option.map_eq_some_iff.1 later
    refine ⟨u, hu, ?_⟩
    simp only [Event.advance, if_pos hid, later, Option.getD_some]

/-- What a history does to the record under an identifier that it does not delete. -/
theorem History.holds {es : List (Event R)} (h : v.History s es s') {last : R} {c t : Timestamp}
    (hs : v.Holds s (Record.withTimes last c t)) (hdel : ∀ e ∈ es, ¬ e.Deletes (Record.id last)) :
    v.Holds s' (Record.withTimes (es.foldl (Event.written (Record.id last)) last) c
      (es.foldl (Event.advance (Record.id last)) t)) := by
  induction h generalizing last t with
  | nil => exact hs
  | cons run _ ih =>
    obtain ⟨hdel, hrest⟩ := List.forall_mem_cons.1 hdel
    have := (effect_of_ends run).holds hs hdel
    rw [List.foldl_cons, List.foldl_cons]
    rw [← Event.id_written _ last] at hrest
    have := ih this hrest
    rwa [Event.id_written] at this

/-- What a successful update in the midst of a history does to the time of update. -/
theorem History.advances {earlier rest : List (Event R)} {now : Timestamp} {x y last : R}
    {c t : Timestamp} (h : v.History s (earlier ++ ⟨.update now x, .ok y⟩ :: rest) s')
    (hs : v.Holds s (Record.withTimes last c t))
    (hdel : ∀ e ∈ earlier, ¬ e.Deletes (Record.id last)) (hx : Record.id x = Record.id last) :
    ∃ u, (earlier.foldl (Event.advance (Record.id last)) t).plusSeconds? 1 = some u ∧
      Event.advance (Record.id last) (earlier.foldl (Event.advance (Record.id last)) t)
        ⟨.update now x, .ok y⟩ = now.latest u := by
  obtain ⟨s₁, hearlier, hrest⟩ := h.append_inv
  have hs₁ := hearlier.holds hs hdel
  have hid := Event.id_foldl_written earlier last
  cases hrest with
  | cons run _ =>
    have := (effect_of_ends run).advances hs₁ (hx.trans hid.symm)
    rwa [hid] at this

theorem History.holds_of_create {past later : List (Event R)} {r r' : R}
    (h : v.History s (past ++ ⟨.create r, .ok r'⟩ :: later) s') :
    ∃ s₁, v.Holds s₁ (Record.withTimes r (Record.createdAt r) (Record.updatedAt r)) ∧
      v.History s₁ later s' := by
  obtain ⟨s₀, -, h⟩ := h.append_inv
  cases h with
  | cons run rest =>
    refine ⟨_, ?_, rest⟩
    rw [LawfulRecord.withTimes_self]
    cases effect_of_ends run with
    | quiet isQuiet => exact absurd isQuiet not_false
    | created valid hd fresh appended =>
      refine ⟨_, hd, ?_⟩
      rw [documents_of_collections appended,
        holding?_append_singleton (Record.idOf?_toDocument hd) fresh, if_pos rfl]

/-- **The law of histories.** After a record was created, and as long as none with its identifier is
deleted, a record stands under that identifier whose time of creation is that of the created record,
whatever the records say that updated it, and which is else the one written last. Its time of update
never goes back. Only the successful updates of the identifier move it, each forward to the later of
two times: one second past the time before, and the reading of the clock. -/
theorem history_after_create (k : RecordKind) (v : Vault k.Carrier) {s s' : Store}
    {past later : List (Event k.Carrier)} {r r' : k.Carrier}
    (h : v.History s (past ++ ⟨.create r, .ok r'⟩ :: later) s')
    (hdel : ∀ e ∈ later, ¬ e.Deletes (Record.id r)) :
    let time (es : List (Event k.Carrier)) : Timestamp :=
      es.foldl (Event.advance (Record.id r)) (Record.updatedAt r)
    let last : k.Carrier := later.foldl (Event.written (Record.id r)) r
    (∃ cur d, Record.toDocument cur = .ok d ∧
      holding? (s'.documents v.collection) (Record.id r).toHex = some d ∧
      Record.createdAt cur = Record.createdAt r ∧ Record.updatedAt cur = time later ∧
      cur = Record.withTimes last (Record.createdAt cur) (Record.updatedAt cur)) ∧
    (∀ earlier rest, later = earlier ++ rest → time earlier ≤ time later) ∧
    ∀ earlier e rest, later = earlier ++ e :: rest →
      (¬ e.Updates (Record.id r) → time (earlier ++ [e]) = time earlier) ∧
      ∀ now x y, e = ⟨.update now x, .ok y⟩ → Record.id x = Record.id r →
        ∃ u, (time earlier).plusSeconds? 1 = some u ∧
          (u.seconds = (time earlier).seconds + 1 ∧ u.leap = false) ∧
          (now ≤ u → time (earlier ++ [e]) = u) ∧ (u < now → time (earlier ++ [e]) = now) ∧
          time earlier < time (earlier ++ [e]) := by
  intro time last
  obtain ⟨s₁, hs₁, hlater⟩ := h.holds_of_create
  have hsnoc (es : List (Event k.Carrier)) (e : Event k.Carrier) :
      time (es ++ [e]) = e.advance (Record.id r) (time es) := by
    simp only [time, List.foldl_append, List.foldl_cons, List.foldl_nil]
  refine ⟨?_, ?_, ?_⟩
  · obtain ⟨d, hd, hold⟩ := hlater.holds hs₁ hdel
    rw [LawfulRecord.id_withTimes, Event.id_foldl_written] at hold
    refine ⟨_, d, hd, hold, LawfulRecord.createdAt_withTimes ..,
      LawfulRecord.updatedAt_withTimes .., ?_⟩
    rw [LawfulRecord.createdAt_withTimes, LawfulRecord.updatedAt_withTimes]
  · rintro earlier rest rfl
    show time earlier ≤ (earlier ++ rest).foldl _ _
    rw [List.foldl_append]
    exact Event.le_foldl_advance _ _ rest
  · intro earlier e rest heq
    refine ⟨fun hnot => ?_, fun now x y he hx => ?_⟩
    · rw [hsnoc]
      exact (Event.unchanged_of_not_updates hnot r _).2
    · subst he
      rw [heq] at hlater hdel
      obtain ⟨u, hu, hadv⟩ :=
        hlater.advances hs₁ (fun e he => hdel e (List.mem_append_left _ he)) hx
      have hlt := Timestamp.lt_of_plusSeconds? (by decide) hu
      rw [hsnoc, hadv]
      exact ⟨u, hu, Timestamp.seconds_of_plusSeconds? (by decide) hu, Timestamp.latest_of_le,
        Timestamp.latest_of_gt, Timestamp.lt_of_lt_of_le hlt (Timestamp.le_latest_right now u)⟩

/-- An input that is updated while the clock stands still, then a day later, and once more after
the clock went back. In between it is created a second time, which is refused. -/
theorem history_after_create_specimen :
    let v : Vault RecordKind.input.Carrier := ⟨"inputs"⟩
    let noon : Timestamp := ⟨1714564800, false, by decide, by decide, by decide⟩
    let pastNoon : Timestamp := ⟨1714564801, false, by decide, by decide, by decide⟩
    let nextNoon : Timestamp := ⟨1714651200, false, by decide, by decide, by decide⟩
    let pastNextNoon : Timestamp := ⟨1714651201, false, by decide, by decide, by decide⟩
    let r : RecordKind.input.Carrier := Input.specimen noon
    let r' : RecordKind.input.Carrier := Input.specimen nextNoon
    let updated (u : Timestamp) : RecordKind.input.Carrier :=
      Record.withTimes (R := RecordKind.input.Carrier) r noon u
    let still : Event RecordKind.input.Carrier := ⟨.update noon r, .ok (updated pastNoon)⟩
    let ahead : Event RecordKind.input.Carrier := ⟨.update nextNoon r', .ok (updated nextNoon)⟩
    let refused : Event RecordKind.input.Carrier := ⟨.create r', .error (v.taken (Record.id r'))⟩
    let back : Event RecordKind.input.Carrier := ⟨.update noon r', .ok (updated pastNextNoon)⟩
    let time (es : List (Event RecordKind.input.Carrier)) : Timestamp :=
      es.foldl (Event.advance (Record.id r)) (Record.updatedAt r)
    ∃ s', v.History Store.empty ([] ++ ⟨.create r, .ok r⟩ :: [still, ahead, refused, back]) s' ∧
      (∀ e ∈ [still, ahead, refused, back], ¬ e.Deletes (Record.id r)) ∧
      (∃ (cur : RecordKind.input.Carrier) (d : Document), Record.toDocument cur = .ok d ∧
        holding? (s'.documents "inputs") (Record.id r).toHex = some d ∧
        Record.createdAt cur = noon ∧ Record.updatedAt cur = pastNextNoon) ∧
      time [still] = pastNoon ∧ time [still, ahead] = nextNoon ∧
      time [still, ahead, refused] = nextNoon ∧
      time [still, ahead, refused, back] = pastNextNoon := by
  intro v noon pastNoon nextNoon pastNextNoon r r' updated still ahead refused back time
  have hvalid : Record.validate r = .ok () := Input.validate_specimen noon
  have hvalid' : Record.validate r' = .ok () := Input.validate_specimen nextNoon
  obtain ⟨s₁, hcreate, h₁⟩ := run_create_first (v := v) (s := Store.empty) rfl rfl hvalid
  obtain ⟨s₂, hstill, h₂⟩ := h₁.run_update (r := r) rfl hvalid
    ((Record.legible_iff .input _).2 (by decide))
    (show updateTime? noon noon = some pastNoon from rfl)
  obtain ⟨s₃, hahead, h₃⟩ := h₂.run_update (r := r') rfl hvalid'
    ((Record.legible_iff .input _).2 (by decide))
    (show updateTime? nextNoon pastNoon = some nextNoon from rfl)
  have hrefused := h₃.run_create (r := r') rfl hvalid'
  obtain ⟨s₄, hback, -⟩ := h₃.run_update (r := r') rfl hvalid'
    ((Record.legible_iff .input _).2 (by decide))
    (show updateTime? noon nextNoon = some pastNextNoon from rfl)
  have hrun : v.History Store.empty
      ([] ++ ⟨.create r, .ok r⟩ :: [still, ahead, refused, back]) s₄ :=
    .cons (Program.ends_of_run hcreate) <| .cons (Program.ends_of_run hstill) <|
      .cons (Program.ends_of_run hahead) <| .cons (Program.ends_of_run hrefused) <|
        .cons (Program.ends_of_run hback) (.nil s₄)
  have hdel : ∀ e ∈ [still, ahead, refused, back], ¬ e.Deletes (Record.id r) := by
    simp only [List.mem_cons, List.not_mem_nil, or_false, forall_eq_or_imp, forall_eq]
    exact ⟨not_false, not_false, not_false, not_false⟩
  obtain ⟨⟨cur, d, hd, hold, hc, hu, -⟩, -, hstep⟩ := history_after_create .input v hrun hdel
  have htime₁ : time [still] = pastNoon := by
    obtain ⟨u, hu, -, hle, -⟩ := (hstep [] still [ahead, refused, back] rfl).2 noon r _ rfl rfl
    obtain rfl : pastNoon = u := Option.some.inj hu
    exact hle (by decide)
  have htime₂ : time [still, ahead] = nextNoon := by
    obtain ⟨u, hu, -, -, hlt, -⟩ := (hstep [still] ahead [refused, back] rfl).2 nextNoon r' _ rfl rfl
    change (time [still]).plusSeconds? 1 = some u at hu
    rw [htime₁] at hu
    obtain rfl := Option.some.inj hu
    exact hlt (by decide)
  have htime₃ : time [still, ahead, refused] = nextNoon :=
    ((hstep [still, ahead] refused [back] rfl).1 not_false).trans htime₂
  have htime₄ : time [still, ahead, refused, back] = pastNextNoon := by
    obtain ⟨u, hu, -, hle, -⟩ := (hstep [still, ahead, refused] back [] rfl).2 noon r' _ rfl rfl
    change (time [still, ahead, refused]).plusSeconds? 1 = some u at hu
    rw [htime₃] at hu
    obtain rfl : pastNextNoon = u := Option.some.inj hu
    exact hle (by decide)
  exact ⟨s₄, hrun, hdel, ⟨cur, d, hd, hold, hc, hu.trans htime₄⟩, htime₁, htime₂, htime₃, htime₄⟩

end Vault

end JobRegistry
