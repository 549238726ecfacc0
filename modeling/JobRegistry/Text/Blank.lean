/-!
# Blank text

A text is blank when it is empty or holds white space only. White space is the `White_Space`
property of the character database: twenty-five characters, of which the zero-width space and the
byte order mark are none.
-/

namespace JobRegistry.Text

/-- The `White_Space` property. -/
def isWhite (c : Char) : Bool :=
  (0x9 ≤ c.toNat && c.toNat ≤ 0xD) || c.toNat == 0x20 || c.toNat == 0x85 || c.toNat == 0xA0 ||
    c.toNat == 0x1680 || (0x2000 ≤ c.toNat && c.toNat ≤ 0x200A) || c.toNat == 0x2028 ||
    c.toNat == 0x2029 || c.toNat == 0x202F || c.toNat == 0x205F || c.toNat == 0x3000

/-- Text without a character that is not white space. -/
def isBlank (s : String) : Bool :=
  s.toList.all isWhite

theorem isBlank_iff (s : String) : isBlank s = true ↔ ∀ c ∈ s.toList, isWhite c = true := by
  simp [isBlank]

end JobRegistry.Text
