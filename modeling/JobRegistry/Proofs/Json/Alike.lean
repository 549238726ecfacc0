import JobRegistry.Proofs.Canonical
import JobRegistry.Proofs.Json.Normal
import JobRegistry.Proofs.Number.Numeral

/-!
# Trees with one canonical value

The canonical value of a tree tells everything about it, with one exception: a number that is not an
integer of sixty-four bits with a sign has the same canonical value as the text of its numeral.
`Alike` relates the trees that differ in no more than that, and two trees in normal form have the
same canonical value exactly when they are alike (`ofJson_eq_iff`). In particular no two numbers are
confused with each other.
-/

namespace JobRegistry

open Number Text

namespace Json

/-- The numeral that stands for a number in canonical values, if the number is no integer of
sixty-four bits with a sign. -/
def numeral? : Json → Option String
  | .whole n =>
    if 9223372036854775807 < n.1 then some (String.ofList (Digits.ofInt n.1)) else none
  | .real x => some (String.ofList (realText x))
  | _ => none

mutual

/-- The trees differ only where one has a number and the other the text of its numeral. -/
inductive Alike : Json → Json → Prop
  | refl (j : Json) : Alike j j
  | number {j : Json} {s : String} (h : j.numeral? = some s) : Alike j (.text s)
  | text {j : Json} {s : String} (h : j.numeral? = some s) : Alike (.text s) j
  | array {items items' : List Json} (h : AlikeItems items items') :
    Alike (.array items) (.array items')
  | object {members members' : List (String × Json)} (h : AlikeMembers members members') :
    Alike (.object members) (.object members')

/-- The lists have the same length and alike items. -/
inductive AlikeItems : List Json → List Json → Prop
  | nil : AlikeItems [] []
  | cons {j k : Json} {items items' : List Json} (h : Alike j k) (hs : AlikeItems items items') :
    AlikeItems (j :: items) (k :: items')

/-- The lists have the same names in the same order and alike values. -/
inductive AlikeMembers : List (String × Json) → List (String × Json) → Prop
  | nil : AlikeMembers [] []
  | cons {name : String} {j k : Json} {members members' : List (String × Json)} (h : Alike j k)
    (hs : AlikeMembers members members') :
    AlikeMembers ((name, j) :: members) ((name, k) :: members')

end

theorem numeral?_whole {n : Whole64} {s : String} (h : (whole n).numeral? = some s) :
    9223372036854775807 < n.1 ∧ s = String.ofList (Digits.ofInt n.1) := by
  rw [numeral?] at h
  split at h
  · next hn => exact ⟨hn, (Option.some.inj h).symm⟩
  · cases h

/-- Different numbers have different numerals. -/
theorem numeral?_inj {j k : Json} (hj : j.Normal) (hk : k.Normal) {s : String}
    (h : j.numeral? = some s) (h' : k.numeral? = some s) : j = k := by
  have hreal {x : Double} (hx : x.isFinite = true) (h : (real x).numeral? = some s) :
      s = String.ofList (x.numeral .compact) := by
    rw [numeral?, realText, if_pos hx] at h
    exact (Option.some.inj h).symm
  cases hj with
  | whole n =>
    have hn := (numeral?_whole h).2
    cases hk with
    | whole m =>
      have he := String.ofList_injective (hn.symm.trans (numeral?_whole h').2)
      have hnm : n.1 = m.1 := by
        apply (Digits.ofInt_append_inj Digits.noDigit_nil Digits.noDigit_nil _).1
        rw [he]
      rw [Subtype.ext hnm]
    | real hy =>
      have he := String.ofList_injective (hn.symm.trans (hreal hy h'))
      exact absurd he.symm (Floating.numeral_ne_ofInt hy n.1)
    | _ => cases h'
  | real hx =>
    have hn := hreal hx h
    cases hk with
    | whole m =>
      have he := String.ofList_injective (hn.symm.trans (numeral?_whole h').2)
      exact absurd he (Floating.numeral_ne_ofInt hx m.1)
    | real hy =>
      have he := String.ofList_injective (hn.symm.trans (hreal hy h'))
      rw [Floating.numeral_inj hx hy he]
    | _ => cases h'
  | _ => cases h

end Json

namespace Canonical

open Json (Alike AlikeItems AlikeMembers)

/-! ## The tree of a canonical value -/

/-- What a canonical value tells about its tree. -/
def Origin (j : Json) : Canonical → Prop
  | .null => j = .null
  | .bool b => j = .bool b
  | .int m => ∃ n, j = .whole n ∧ n.1 = m.1
  | .text s => j = .text s ∨ j.numeral? = some s
  | .seq vs => ∃ items, j = .array items ∧ ofItems items = vs
  | .map entries => ∃ members, j = .object members ∧
    Sorted.ofList Sorted.textBefore (ofMembers members) = entries

theorem ofWhole_of_le {n : Whole64} (h : n.1 ≤ 9223372036854775807) :
    ofWhole n = .int ⟨n.1, n.2.1, h⟩ := by
  rw [ofWhole, Ranged.ofInt?, dif_pos ⟨n.2.1, h⟩]

theorem ofWhole_of_lt {n : Whole64} (h : 9223372036854775807 < n.1) :
    ofWhole n = .text (String.ofList (Digits.ofInt n.1)) := by
  rw [ofWhole, Ranged.ofInt?, dif_neg fun hn => absurd hn.2 (not_le.2 h)]

theorem origin_of_eq {j : Json} {v : Canonical} (h : ofJson j = v) : Origin j v := by
  subst h
  cases j with
  | null => rfl
  | bool b => rfl
  | whole n =>
    rw [ofJson]
    rcases le_or_gt n.1 9223372036854775807 with hn | hn
    · rw [ofWhole_of_le hn]
      exact ⟨n, rfl, rfl⟩
    · rw [ofWhole_of_lt hn]
      exact .inr (if_pos hn)
  | real x => exact .inr rfl
  | text s => exact .inl rfl
  | array items => exact ⟨items, rfl, rfl⟩
  | object members => exact ⟨members, rfl, rfl⟩

theorem ofJson_of_numeral? {j : Json} {s : String} (h : j.numeral? = some s) :
    ofJson j = .text s := by
  cases j with
  | whole n =>
    obtain ⟨hn, rfl⟩ := Json.numeral?_whole h
    exact ofWhole_of_lt hn
  | real x =>
    obtain rfl := Option.some.inj h
    rfl
  | _ => cases h

/-! ## Alike trees -/

mutual

theorem ofJson_eq_of_alike : ∀ {j k : Json}, Alike j k → ofJson j = ofJson k
  | _, _, .refl _ => rfl
  | _, _, .number h => ofJson_of_numeral? h
  | _, _, .text h => (ofJson_of_numeral? h).symm
  | _, _, .array h => by rw [ofJson, ofJson, ofItems_eq_of_alike h]
  | _, _, .object h => by rw [ofJson, ofJson, ofMembers_eq_of_alike h]

theorem ofItems_eq_of_alike : ∀ {items items' : List Json}, AlikeItems items items' →
    ofItems items = ofItems items'
  | _, _, .nil => rfl
  | _, _, .cons h hs => by
    rw [ofItems, ofItems, ofJson_eq_of_alike h, ofItems_eq_of_alike hs]

theorem ofMembers_eq_of_alike : ∀ {members members' : List (String × Json)},
    AlikeMembers members members' → ofMembers members = ofMembers members'
  | _, _, .nil => rfl
  | _, _, .cons h hs => by
    rw [ofMembers, ofMembers, ofJson_eq_of_alike h, ofMembers_eq_of_alike hs]

end

theorem alike_of_text {j k : Json} (hj : j.Normal) (hk : k.Normal) {s : String}
    (h : ofJson j = .text s) (h' : ofJson k = .text s) : Alike j k := by
  rcases origin_of_eq h with rfl | hn
  · rcases origin_of_eq h' with rfl | hn'
    · exact .refl _
    · exact .text hn'
  · rcases origin_of_eq h' with rfl | hn'
    · exact .number hn
    · rw [Json.numeral?_inj hj hk hn hn']
      exact .refl _

theorem alikeItems_of_eq {items items' : List Json}
    (hitems : ∀ j ∈ items, ∀ k ∈ items', ofJson j = ofJson k → Alike j k)
    (h : ofItems items = ofItems items') : AlikeItems items items' := by
  induction items generalizing items' with
  | nil =>
    cases items' with
    | nil => exact .nil
    | cons k items' => cases h
  | cons j items ih =>
    cases items' with
    | nil => cases h
    | cons k items' =>
      rw [ofItems, ofItems, List.cons.injEq] at h
      apply AlikeItems.cons
      · exact hitems j List.mem_cons_self k List.mem_cons_self h.1
      · apply ih _ h.2
        intro j hj k hk
        exact hitems j (List.mem_cons_of_mem _ hj) k (List.mem_cons_of_mem _ hk)

theorem alikeMembers_of_eq {members members' : List (String × Json)}
    (hmembers : ∀ m ∈ members, ∀ n ∈ members', ofJson m.2 = ofJson n.2 → Alike m.2 n.2)
    (h : ofMembers members = ofMembers members') : AlikeMembers members members' := by
  induction members generalizing members' with
  | nil =>
    cases members' with
    | nil => exact .nil
    | cons n members' => cases h
  | cons m members ih =>
    cases members' with
    | nil => cases h
    | cons n members' =>
      obtain ⟨name, j⟩ := m
      obtain ⟨name', k⟩ := n
      rw [ofMembers, ofMembers, List.cons.injEq, Prod.mk.injEq] at h
      obtain ⟨⟨rfl, hjk⟩, h⟩ := h
      apply AlikeMembers.cons
      · exact hmembers _ List.mem_cons_self _ List.mem_cons_self hjk
      · apply ih _ h
        intro m hm n hn
        exact hmembers m (List.mem_cons_of_mem _ hm) n (List.mem_cons_of_mem _ hn)

theorem ofMembers_eq_map (members : List (String × Json)) :
    ofMembers members = members.map fun m => (m.1, ofJson m.2) := by
  induction members with
  | nil => rfl
  | cons m members ih => rw [ofMembers, ih, List.map_cons]

/-- The canonical values of members in order are in order. -/
theorem ofList_ofMembers {members : List (String × Json)} (h : Sorted.Ordered members) :
    Sorted.ofList Sorted.textBefore (ofMembers members) = ofMembers members := by
  apply Sorted.ofList_of_ordered
  rw [ofMembers_eq_map]
  exact List.pairwise_map.2 h

theorem alike_of_ofJson_eq {j k : Json} (hj : j.Normal) (hk : k.Normal)
    (h : ofJson j = ofJson k) : Alike j k := by
  induction hj generalizing k with
  | null =>
    obtain rfl : k = .null := origin_of_eq h.symm
    exact .refl _
  | bool b =>
    obtain rfl : k = .bool b := origin_of_eq h.symm
    exact .refl _
  | whole n =>
    rcases le_or_gt n.1 9223372036854775807 with hn | hn
    · rw [ofJson, ofWhole_of_le hn] at h
      obtain ⟨m, rfl, hm⟩ := origin_of_eq h.symm
      obtain rfl : m = n := Subtype.ext hm
      exact .refl _
    · have hv : ofJson (.whole n) = .text (String.ofList (Digits.ofInt n.1)) := ofWhole_of_lt hn
      exact alike_of_text (.whole n) hk hv (h.symm.trans hv)
  | real hx => exact alike_of_text (.real hx) hk rfl h.symm
  | text s => exact alike_of_text (.text s) hk rfl h.symm
  | array hitems ih =>
    obtain ⟨items', rfl, hitems'⟩ := origin_of_eq h.symm
    cases hk with
    | array hk =>
      apply Alike.array
      apply alikeItems_of_eq _ hitems'.symm
      intro j hj k hk' hjk
      exact ih j hj (hk k hk') hjk
  | object hordered hmembers ih =>
    obtain ⟨members', rfl, hmembers'⟩ := origin_of_eq h.symm
    cases hk with
    | object hordered' hk =>
      rw [ofList_ofMembers hordered, ofList_ofMembers hordered'] at hmembers'
      apply Alike.object
      apply alikeMembers_of_eq _ hmembers'.symm
      intro m hm n hn hmn
      exact ih m hm (hk n hn) hmn

/-- **Trees in normal form have the same canonical value exactly when they are alike.** -/
theorem ofJson_eq_iff {j k : Json} (hj : j.Normal) (hk : k.Normal) :
    ofJson j = ofJson k ↔ Alike j k :=
  ⟨alike_of_ofJson_eq hj hk, ofJson_eq_of_alike⟩

end Canonical

end JobRegistry
