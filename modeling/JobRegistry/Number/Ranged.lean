/-!
# Integers of a range

Integers between two bounds, both included. A number that is out of range is refused, never
wrapped.
-/

namespace JobRegistry.Number

/-- The integers from `low` to `high`. -/
abbrev Ranged (low high : Int) := { n : Int // low ≤ n ∧ n ≤ high }

/-- The integers of sixty-four bits with a sign. -/
abbrev Signed64 := Ranged (-9223372036854775808) 9223372036854775807

/-- The integers of sixty-four bits with or without a sign. -/
abbrev Whole64 := Ranged (-9223372036854775808) 18446744073709551615

namespace Ranged

/-- The integer, if it is in range. -/
def ofInt? (low high n : Int) : Option (Ranged low high) :=
  if h : low ≤ n ∧ n ≤ high then some ⟨n, h⟩ else none

theorem ofInt?_eq_some {low high n : Int} {r : Ranged low high} :
    ofInt? low high n = some r ↔ n = r.1 := by
  unfold ofInt?
  split
  · constructor
    · rintro ⟨⟩; rfl
    · rintro rfl; rfl
  · constructor
    · rintro ⟨⟩
    · rintro rfl; exact absurd r.2 ‹_›

end Ranged

end JobRegistry.Number
