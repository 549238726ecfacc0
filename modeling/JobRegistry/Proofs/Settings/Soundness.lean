import JobRegistry.Settings.File

/-!
# Sound settings

Settings are sound (`Settings.Sound`) when requests have time and every vault has a collection of
its own, whose name is not blank. The search for a fault, which compares each name with those before
it, finds none exactly in sound settings (`fault?_eq_none`), so that only sound settings are read
from a document (`sound_of_ofToml`).
-/

namespace JobRegistry

/-- The names of the collections, in the order of the vaults. -/
def CollectionNames.all (c : CollectionNames) : List String :=
  [c.configs, c.outputs, c.schemas, c.inputs]

namespace Settings

/-- Requests have time, and every vault has a collection of its own. -/
structure Sound (s : Settings) : Prop where
  timeout : 0 < s.requestTimeoutMs
  named : ∀ name ∈ s.collections.all, Text.isBlank name = false
  apart : s.collections.all.Nodup

/-- What it means that names have no fault where some names are taken. -/
theorem nameFault?_eq_none {taken : List String} {names : List (String × String)} :
    nameFault? taken names = none ↔
      (∀ e ∈ names, Text.isBlank e.2 = false ∧ e.2 ∉ taken) ∧ (names.map Prod.snd).Nodup := by
  induction names generalizing taken with
  | nil => exact iff_of_true rfl ⟨List.forall_mem_nil _, .nil⟩
  | cons entry rest ih =>
    obtain ⟨vault, name⟩ := entry
    rw [nameFault?, List.forall_mem_cons, List.map_cons, List.nodup_cons]
    split
    · next hblank => exact iff_of_false nofun fun h => absurd h.1.1.1 (by simp [hblank])
    · next hblank =>
      split
      · next htaken =>
        exact iff_of_false nofun fun h => h.1.1.2 (List.contains_iff_mem.1 htaken)
      · next htaken =>
        have hname : Text.isBlank name = false ∧ name ∉ taken :=
          ⟨eq_false_of_ne_true hblank, fun h => htaken (List.contains_iff_mem.2 h)⟩
        have hfresh : (∀ e ∈ rest, e.2 ≠ name) ↔ name ∉ rest.map Prod.snd := by
          simp only [List.mem_map, not_exists, not_and]
        simp only [ih, List.mem_cons, not_or, ← hfresh]
        constructor
        · rintro ⟨h, hnodup⟩
          exact ⟨⟨hname, fun e he => ⟨(h e he).1, (h e he).2.2⟩⟩, fun e he => (h e he).2.1, hnodup⟩
        · rintro ⟨⟨-, h⟩, hne, hnodup⟩
          exact ⟨fun e he => ⟨(h e he).1, hne e he, (h e he).2⟩, hnodup⟩

/-- **Settings have no fault exactly if they are sound.** -/
theorem fault?_eq_none {s : Settings} : s.fault? = none ↔ s.Sound := by
  have hnames : nameFault? [] (named s.collections) = none ↔
      (∀ name ∈ s.collections.all, Text.isBlank name = false) ∧ s.collections.all.Nodup := by
    rw [nameFault?_eq_none]
    show _ ↔ (∀ name ∈ (named s.collections).map Prod.snd, _) ∧ _
    rw [List.forall_mem_map]
    simp only [List.not_mem_nil, not_false_eq_true, and_true]
    rfl
  unfold fault?
  split
  · next hzero => exact iff_of_false nofun fun h => absurd h.timeout (by omega)
  · next hzero =>
    rw [hnames]
    exact ⟨fun h => ⟨Nat.pos_of_ne_zero hzero, h.1, h.2⟩, fun h => ⟨h.named, h.apart⟩⟩

theorem checked_eq_ok {s : Settings} : s.checked = .ok s ↔ s.Sound := by
  rw [← fault?_eq_none, checked]
  cases s.fault? <;> simp

/-- Settings that are checked are not changed. -/
theorem eq_of_checked {s s' : Settings} (h : s.checked = .ok s') : s = s' := by
  unfold checked at h
  split at h
  · cases h
  · exact Except.ok.inj h

/-- **Only sound settings are read from a document.** -/
theorem sound_of_ofToml {text : String} {s : Settings} (h : ofToml text = .ok s) : s.Sound := by
  unfold ofToml at h
  split at h
  · obtain rfl := eq_of_checked h
    exact checked_eq_ok.1 h
  · cases h

end Settings

end JobRegistry
