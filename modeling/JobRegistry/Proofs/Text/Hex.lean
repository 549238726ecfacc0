import JobRegistry.Proofs.Text.Bytes
import Mathlib.Tactic.SplitIfs

/-!
# Which texts are hexadecimal

Reading goes by pairs of bytes, and so do the proofs. An even number of digits can be read
(`exists_decodePairs`), and what is read has these digits in lower case; otherwise the first byte
that is no digit is the fault, wherever in a pair it stands (`decodePairs_of_not_digit`).

The digits of bytes are in the order of the bytes (`encode_lt_encode_iff`), for the high half of a
byte is written first.
-/

namespace JobRegistry.Text.Hex

/-! ## Single digits -/

/-- The code of a hexadecimal digit, whose letters may be of either case. -/
def IsDigit (byte : UInt8) : Prop :=
  '0'.toNat ≤ byte.toNat ∧ byte.toNat ≤ '9'.toNat ∨
    'A'.toNat ≤ byte.toNat ∧ byte.toNat ≤ 'F'.toNat ∨
    'a'.toNat ≤ byte.toNat ∧ byte.toNat ≤ 'f'.toNat

instance : DecidablePred IsDigit := fun _ => inferInstanceAs (Decidable (_ ∨ _ ∨ _))

theorem isDigit_iff {byte : UInt8} : IsDigit byte ↔ 48 ≤ byte.toNat ∧ byte.toNat ≤ 57 ∨
    65 ≤ byte.toNat ∧ byte.toNat ≤ 70 ∨ 97 ≤ byte.toNat ∧ byte.toNat ≤ 102 :=
  Iff.rfl

theorem IsDigit.ascii {byte : UInt8} (h : IsDigit byte) : byte.toNat < 128 := by
  rw [isDigit_iff] at h
  omega

theorem nibble?_eq (byte : UInt8) : nibble? byte =
    if 48 ≤ byte.toNat ∧ byte.toNat ≤ 57 then some (byte.toNat - 48)
    else if 97 ≤ byte.toNat ∧ byte.toNat ≤ 102 then some (byte.toNat - 87)
    else if 65 ≤ byte.toNat ∧ byte.toNat ≤ 70 then some (byte.toNat - 55)
    else none := by
  have hcode : (Char.ofNat byte.toNat).val.toNat = byte.toNat := toNat_ofNat_byte byte
  simp only [nibble?, Digits.hexValue?, Char.le_def, UInt32.le_iff_toNat_le, Char.toNat, hcode]
  rfl

theorem nibble?_eq_none {byte : UInt8} : nibble? byte = none ↔ ¬ IsDigit byte := by
  rw [nibble?_eq, isDigit_iff]
  split_ifs <;> simp <;> omega

/-- The digit of a byte in lower case, with its value. -/
theorem exists_nibble? {byte : UInt8} (h : IsDigit byte) : ∃ n < 16, nibble? byte = some n ∧
    Digits.hexDigit n = (Char.ofNat byte.toNat).toLower := by
  have hdigits : ∀ n < 10, Digits.hexDigit n = (Char.ofNat (48 + n)).toLower := by decide
  have hupper : ∀ n < 6, Digits.hexDigit (10 + n) = (Char.ofNat (65 + n)).toLower := by decide
  have hlower : ∀ n < 6, Digits.hexDigit (10 + n) = (Char.ofNat (97 + n)).toLower := by decide
  rw [nibble?_eq]
  obtain ⟨hl, hu⟩ | ⟨hl, hu⟩ | ⟨hl, hu⟩ := isDigit_iff.1 h
  · refine ⟨byte.toNat - 48, by omega, if_pos ⟨hl, hu⟩, ?_⟩
    rw [hdigits _ (by omega), Nat.add_sub_cancel' hl]
  · refine ⟨10 + (byte.toNat - 65), by omega, ?_, ?_⟩
    · rw [if_neg (by omega), if_neg (by omega), if_pos ⟨hl, hu⟩]
      exact congrArg some (by omega)
    · rw [hupper _ (by omega), Nat.add_sub_cancel' hl]
  · refine ⟨10 + (byte.toNat - 97), by omega, ?_, ?_⟩
    · rw [if_neg (by omega), if_pos ⟨hl, hu⟩]
      exact congrArg some (by omega)
    · rw [hlower _ (by omega), Nat.add_sub_cancel' hl]

/-! ## Reading pairs -/

/-- An even number of digits can be read; what is read has the same digits in lower case. -/
theorem exists_decodePairs : (bytes : List UInt8) → bytes.length % 2 = 0 →
    (∀ b ∈ bytes, IsDigit b) → (position : Nat) → ∃ read, decodePairs position bytes = .ok read ∧
      2 * read.length = bytes.length ∧
      read.flatMap digits = bytes.map fun b => (Char.ofNat b.toNat).toLower
  | [], _, _, _ => ⟨[], rfl, rfl, rfl⟩
  | [_], heven, _, _ => absurd heven (by simp)
  | high :: low :: rest, heven, hdigits, position => by
    simp only [List.mem_cons, forall_eq_or_imp] at hdigits
    obtain ⟨hhigh, hlow, hrest⟩ := hdigits
    obtain ⟨h, hlt, hvalue, hdigit⟩ := exists_nibble? hhigh
    obtain ⟨l, hlt', hvalue', hdigit'⟩ := exists_nibble? hlow
    have heven' : rest.length % 2 = 0 := by
      simp only [List.length_cons] at heven
      omega
    obtain ⟨read, hread, hlength, hlower⟩ := exists_decodePairs rest heven' hrest (position + 2)
    have hbyte : (UInt8.ofNat (16 * h + l)).toNat = 16 * h + l := by
      rw [UInt8.toNat_ofNat']
      omega
    refine ⟨UInt8.ofNat (16 * h + l) :: read, ?_, ?_, ?_⟩
    · rw [decodePairs, hvalue, hvalue', hread]
      rfl
    · simp only [List.length_cons]
      omega
    · have hhalf : Digits.hexDigit (16 * h + l) = Digits.hexDigit l := by
        rw [← hexDigit_mod, Nat.mul_add_mod, hexDigit_mod]
      rw [List.flatMap_cons, hlower, digits, hbyte, show (16 * h + l) / 16 = h by omega, hhalf,
        hdigit, hdigit']
      rfl

/-- Among an even number of bytes the first that is no digit is the fault. -/
theorem decodePairs_of_not_digit {byte : UInt8} {back : List UInt8} (hbyte : ¬ IsDigit byte) :
    (front : List UInt8) → (front ++ byte :: back).length % 2 = 0 → (∀ b ∈ front, IsDigit b) →
    (position : Nat) → decodePairs position (front ++ byte :: back) =
      .error (.badDigit byte (position + front.length))
  | [], heven, _, position => by
    cases back with
    | nil => exact absurd heven (by simp)
    | cons low rest =>
      rw [List.nil_append, decodePairs, nibble?_eq_none.2 hbyte]
      rfl
  | [high], _, hfront, position => by
    obtain ⟨h, -, hvalue, -⟩ := exists_nibble? (hfront high List.mem_cons_self)
    rw [List.singleton_append, decodePairs, hvalue, nibble?_eq_none.2 hbyte]
    rfl
  | high :: low :: front, heven, hfront, position => by
    simp only [List.mem_cons, forall_eq_or_imp] at hfront
    obtain ⟨hhigh, hlow, hfront⟩ := hfront
    obtain ⟨h, -, hvalue, -⟩ := exists_nibble? hhigh
    obtain ⟨l, -, hvalue', -⟩ := exists_nibble? hlow
    have heven' : (front ++ byte :: back).length % 2 = 0 := by
      simp only [List.cons_append, List.length_cons] at heven
      omega
    have hrest := decodePairs_of_not_digit hbyte front heven' hfront (position + 2)
    rw [List.cons_append, List.cons_append, decodePairs, hvalue, hvalue', hrest]
    simp only [Except.map, List.length_cons, Except.error.injEq, Error.badDigit.injEq, true_and]
    omega

/-- Bytes are all digits, or there is a first that is none. -/
theorem digits_or_first (bytes : List UInt8) : (∀ b ∈ bytes, IsDigit b) ∨
    ∃ front byte back, bytes = front ++ byte :: back ∧ (∀ b ∈ front, IsDigit b) ∧
      ¬ IsDigit byte := by
  induction bytes with
  | nil => exact .inl (List.forall_mem_nil _)
  | cons b rest ih =>
    by_cases hb : IsDigit b
    · obtain hrest | ⟨front, byte, back, rfl, hfront, hbyte⟩ := ih
      · exact .inl (List.forall_mem_cons.2 ⟨hb, hrest⟩)
      · exact .inr ⟨b :: front, byte, back, rfl, List.forall_mem_cons.2 ⟨hb, hfront⟩, hbyte⟩
    · exact .inr ⟨[], b, rest, rfl, List.forall_mem_nil _, hb⟩

/-! ## Reading texts -/

variable {s : String}

theorem decode_odd (h : s.toUTF8.toList.length % 2 = 1) : decode s = .error .oddLength :=
  if_pos h

theorem decode_of_not_digit {front back : List UInt8} {byte : UInt8}
    (heven : s.toUTF8.toList.length % 2 = 0) (hs : s.toUTF8.toList = front ++ byte :: back)
    (hfront : ∀ b ∈ front, IsDigit b) (hbyte : ¬ IsDigit byte) :
    decode s = .error (.badDigit byte front.length) := by
  have hpairs := decodePairs_of_not_digit hbyte front (hs ▸ heven) hfront 0
  rw [decode, if_neg (by omega), hs, hpairs, Nat.zero_add]

/-- A text of an even number of digits can be read; what is read is written as the text in lower
case. -/
theorem exists_decode (heven : s.toUTF8.toList.length % 2 = 0)
    (hdigits : ∀ b ∈ s.toUTF8.toList, IsDigit b) :
    ∃ read, decode s = .ok read ∧ 2 * read.length = s.toUTF8.toList.length ∧
      encode read = s.toLower := by
  obtain ⟨read, hread, hlength, hlower⟩ := exists_decodePairs _ heven hdigits 0
  refine ⟨read, ?_, hlength, ?_⟩
  · rw [decode, if_neg (by omega), hread]
  · have hlower' : s.toLower.toList = s.toList.map Char.toLower := by
      show (s.map Char.toLower).toList = _
      rw [String.toList_map]
    apply String.toList_inj.1
    rw [encode, String.toList_ofList, hlower, hlower',
      toList_of_ascii fun b hb => (hdigits b hb).ascii, List.map_map]
    rfl

/-! ## The order of texts -/

/-- The digits of a byte are in the order of its halves. -/
theorem digits_lt_iff {a b : UInt8} : digits a < digits b ↔ a < b := by
  have hlt : ∀ m < 16, ∀ n < 16, Digits.hexDigit m < Digits.hexDigit n ↔ m < n := by decide
  have heq : ∀ m < 16, ∀ n < 16, Digits.hexDigit m = Digits.hexDigit n ↔ m = n := by decide
  have ha := a.toNat_lt
  have hb := b.toNat_lt
  simp only [digits, List.cons_lt_cons_iff, List.lt_irrefl, and_false, or_false]
  rw [hlt _ (by omega) _ (by omega), heq _ (by omega) _ (by omega), ← hexDigit_mod a.toNat,
    ← hexDigit_mod b.toNat, hlt _ (Nat.mod_lt _ (by decide)) _ (Nat.mod_lt _ (by decide)),
    UInt8.lt_iff_toNat_lt]
  omega

theorem digits_inj {a b : UInt8} : digits a = digits b ↔ a = b := by
  refine ⟨fun h => ?_, congrArg digits⟩
  have hnot : ¬ a < b ∧ ¬ b < a := by
    rw [← digits_lt_iff, ← digits_lt_iff, h]
    exact ⟨List.lt_irrefl _, List.lt_irrefl _⟩
  rw [UInt8.lt_iff_toNat_lt, UInt8.lt_iff_toNat_lt] at hnot
  exact UInt8.toNat_inj.1 (by omega)

theorem flatMap_digits_lt_iff {as bs : List UInt8} :
    as.flatMap digits < bs.flatMap digits ↔ as < bs := by
  induction as generalizing bs with
  | nil => cases bs <;> simp [digits]
  | cons a as ih =>
    cases bs with
    | nil => simp
    | cons b bs =>
      have hlength : (digits a).length = (digits b).length := rfl
      rw [List.flatMap_cons, List.flatMap_cons, append_lt_append_iff hlength, ih, digits_lt_iff,
        digits_inj, List.cons_lt_cons_iff]

/-- **The hexadecimal forms of bytes are in the order of the bytes.** -/
theorem encode_lt_encode_iff {as bs : List UInt8} :
    (encode as).toUTF8.toList < (encode bs).toUTF8.toList ↔ as < bs := by
  rw [bytes_lt_iff, encode, encode, String.toList_ofList, String.toList_ofList,
    flatMap_digits_lt_iff]

end JobRegistry.Text.Hex
