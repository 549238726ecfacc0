import JobRegistry.Proofs.Text.Hex
import JobRegistry.RecordId

/-!
# Texts of identifiers

The text form of an identifier reads back (`ofHex_toHex`), so different identifiers have different
texts; and none of these texts is empty, which a store asks of the identifiers of its documents.

Every text is an identifier, possibly in upper case, or has one of three faults, of which the first
is reported (`Reading`). Identifiers and their text forms are in the same order (`lt_iff`).
-/

namespace JobRegistry.RecordId

open Text

theorem ofHex_toHex (id : RecordId) : ofHex id.toHex = .ok id := by
  simp only [ofHex, toHex, Hex.decode_encode]
  exact dif_pos id.length_bytes

theorem ofHex?_toHex (id : RecordId) : ofHex? id.toHex = some id := by
  rw [ofHex?, ofHex_toHex]
  rfl

theorem toHex_inj {a b : RecordId} : a.toHex = b.toHex ↔ a = b := by
  refine ⟨fun h => ?_, congrArg toHex⟩
  have := ofHex?_toHex a
  rw [h, ofHex?_toHex] at this
  exact (Option.some.inj this).symm

theorem toHex_ne_empty (id : RecordId) : id.toHex ≠ "" := by
  intro h
  have hl : (id.bytes.flatMap Hex.digits).length = 0 := by
    rw [show id.bytes.flatMap Hex.digits = [] from String.ofList_eq_empty_iff.1 h]
    rfl
  rw [Hex.length_digits, id.length_bytes] at hl
  exact absurd hl (by decide)

theorem isNull_eq_false {id : RecordId} :
    id.isNull = false ↔ id.bytes ≠ List.replicate 32 0 := by
  obtain ⟨bytes, h⟩ := id
  rw [isNull, decide_eq_false_iff_not, null, mk.injEq]

/-! ## The order of identifiers -/

/-- Identifiers are in the order of their text forms. -/
theorem lt_iff {a b : RecordId} : a < b ↔ a.toHex.toUTF8.toList < b.toHex.toUTF8.toList := by
  rw [toHex, toHex, Hex.encode_lt_encode_iff]
  exact compare_eq_lt

/-! ## Reading any text -/

/-- What the reading of a text ends with. The text is judged by its bytes: first by whether their
number is even, then by whether all of them are digits, and at last by their number. -/
structure Reading (s : String) (outcome : Except Error RecordId) : Prop where
  accepted : (∃ id, outcome = .ok id) ↔
    s.toUTF8.toList.length = 64 ∧ ∀ b ∈ s.toUTF8.toList, Hex.IsDigit b
  lowerCase : ∀ id, outcome = .ok id → id.toHex = s.toLower
  oddLength : outcome = .error (.hex .oddLength) ↔ s.toUTF8.toList.length % 2 = 1
  badDigit : ∀ byte position, outcome = .error (.hex (.badDigit byte position)) ↔
    s.toUTF8.toList.length % 2 = 0 ∧ ∃ front back, s.toUTF8.toList = front ++ byte :: back ∧
      front.length = position ∧ (∀ b ∈ front, Hex.IsDigit b) ∧ ¬ Hex.IsDigit byte
  length : ∀ count, outcome = .error (.length count) ↔
    s.toUTF8.toList.length = 2 * count ∧ (∀ b ∈ s.toUTF8.toList, Hex.IsDigit b) ∧ count ≠ 32

variable {s : String}

theorem reading_of_odd (hodd : s.toUTF8.toList.length % 2 = 1) : Reading s (ofHex s) := by
  rw [ofHex, Hex.decode_odd hodd]
  exact {
    accepted := iff_of_false nofun fun h => by omega
    lowerCase := nofun
    oddLength := iff_of_true rfl hodd
    badDigit := fun _ _ => iff_of_false nofun fun h => by omega
    length := fun _ => iff_of_false nofun fun h => by omega }

theorem ofHex_of_not_digit {front back : List UInt8} {byte : UInt8}
    (heven : s.toUTF8.toList.length % 2 = 0) (hs : s.toUTF8.toList = front ++ byte :: back)
    (hfront : ∀ b ∈ front, Hex.IsDigit b) (hbyte : ¬ Hex.IsDigit byte) :
    ofHex s = .error (.hex (.badDigit byte front.length)) := by
  rw [ofHex, Hex.decode_of_not_digit heven hs hfront hbyte]

theorem reading_of_not_digit {front back : List UInt8} {byte : UInt8}
    (heven : s.toUTF8.toList.length % 2 = 0) (hs : s.toUTF8.toList = front ++ byte :: back)
    (hfront : ∀ b ∈ front, Hex.IsDigit b) (hbyte : ¬ Hex.IsDigit byte) :
    Reading s (ofHex s) := by
  have hout := ofHex_of_not_digit heven hs hfront hbyte
  have hnot : ¬ ∀ b ∈ s.toUTF8.toList, Hex.IsDigit b := by
    rw [hs]
    exact fun h => hbyte (h byte (List.mem_append_right _ List.mem_cons_self))
  constructor
  case badDigit =>
    intro byte' position
    constructor
    · intro h
      obtain ⟨rfl, rfl⟩ : byte = byte' ∧ front.length = position := by
        simpa [hout] using h
      exact ⟨heven, front, back, hs, rfl, hfront, hbyte⟩
    · rintro ⟨-, front', back', hs', rfl, hfront', hbyte'⟩
      exact ofHex_of_not_digit heven hs' hfront' hbyte'
  all_goals rw [hout]
  case accepted => exact iff_of_false nofun fun h => hnot h.2
  case lowerCase => exact nofun
  case oddLength => exact iff_of_false nofun fun h => by omega
  case length => exact fun _ => iff_of_false nofun fun h => hnot h.2.1

theorem reading_of_digits (heven : s.toUTF8.toList.length % 2 = 0)
    (hdigits : ∀ b ∈ s.toUTF8.toList, Hex.IsDigit b) : Reading s (ofHex s) := by
  obtain ⟨read, hread, hlength, htext⟩ := Hex.exists_decode heven hdigits
  have hnone (byte : UInt8) (position : Nat) : ¬ (s.toUTF8.toList.length % 2 = 0 ∧
      ∃ front back, s.toUTF8.toList = front ++ byte :: back ∧ front.length = position ∧
        (∀ b ∈ front, Hex.IsDigit b) ∧ ¬ Hex.IsDigit byte) := by
    rintro ⟨-, front, back, hs, -, -, hbyte⟩
    rw [hs] at hdigits
    exact hbyte (hdigits byte (List.mem_append_right _ List.mem_cons_self))
  rw [ofHex, hread]
  dsimp only
  split
  · next h =>
    exact {
      accepted := iff_of_true ⟨_, rfl⟩ ⟨by omega, hdigits⟩
      lowerCase := fun id hid => by
        obtain rfl := Except.ok.inj hid
        exact htext
      oddLength := iff_of_false nofun fun h => by omega
      badDigit := fun byte position => iff_of_false nofun (hnone byte position)
      length := fun _ => iff_of_false nofun fun h => by omega }
  · next h =>
    exact {
      accepted := iff_of_false nofun fun h => by omega
      lowerCase := nofun
      oddLength := iff_of_false nofun fun h => by omega
      badDigit := fun byte position => iff_of_false nofun (hnone byte position)
      length := fun count => by
        rw [Except.error.injEq, Error.length.injEq]
        exact ⟨fun hc => ⟨by omega, hdigits, by omega⟩, fun hc => by omega⟩ }

theorem reading (s : String) : Reading s (ofHex s) := by
  obtain heven | hodd := Nat.mod_two_eq_zero_or_one s.toUTF8.toList.length
  · obtain hdigits | ⟨front, byte, back, hs, hfront, hbyte⟩ :=
      Hex.digits_or_first s.toUTF8.toList
    · exact reading_of_digits heven hdigits
    · exact reading_of_not_digit heven hs hfront hbyte
  · exact reading_of_odd hodd

/-- **The text form of identifiers.** A text is read if it has sixty-four digits in any mix of
cases, and its identifier is written as the text in lower case; every other text has the first fault
in the order of `Reading`, and the message on a byte that is no digit names its position. Every
identifier reads back from its own text, and identifiers are in the order of the bytes of their
texts. -/
theorem text_form (s : String) (a b : RecordId) :
    Reading s (ofHex s) ∧
    (∀ byte position, (Error.hex (.badDigit byte position)).message =
      "invalid hex string: " ++ ("Invalid character " ++ quoteChar (Char.ofNat byte.toNat) ++
        " at position " ++ String.ofList (Digits.ofNat position))) ∧
    ofHex a.toHex = .ok a ∧ (a < b ↔ a.toHex.toUTF8.toList < b.toHex.toUTF8.toList) :=
  ⟨reading s, fun _ _ => rfl, ofHex_toHex a, lt_iff⟩

/-- A letter of two bytes is reported by the first of them. -/
example : ofHex "abé" = .error (.hex (.badDigit 0xC3 2)) := by cbv

end JobRegistry.RecordId
