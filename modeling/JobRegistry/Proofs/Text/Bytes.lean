import JobRegistry.Text.Hex

/-!
# Bytes of texts

The bytes of a text determine it (`bytes_inj`), and those of an ASCII text are its code points
(`bytes_ascii`, `toList_of_ascii`). The hexadecimal form of bytes is such a text: `decode_encode`
reads it back.

Lists of bytes are ordered by the first place in which they differ; where two lists go on after
beginnings of one length, the beginnings are compared first (`append_lt_append_iff`). Texts are in
the order of their bytes (`bytes_lt_iff`): of two characters the one with the lesser code point has
the lesser bytes, whatever follows.
-/

namespace JobRegistry.Text

/-! ## Byte arrays as lists -/

theorem byteArray_toList (bs : ByteArray) : bs.toList = bs.data.toList := by
  have go : ∀ i r, ByteArray.toList.loop bs i r = r.reverse ++ bs.data.toList.drop i := by
    intro i r
    fun_induction ByteArray.toList.loop bs i r with
    | case1 i r h ih =>
      have hi : i < bs.data.toList.length := h
      have hg : bs.get! i = bs.data.toList[i] := by
        show bs.data[i]! = _
        rw [getElem!_pos bs.data i h, Array.getElem_toList]
      rw [ih, List.reverse_cons, List.append_assoc, List.drop_eq_getElem_cons hi, hg]
      rfl
    | case2 i r h =>
      have hi : bs.data.toList.length ≤ i := Nat.le_of_not_lt h
      rw [List.drop_eq_nil_of_le hi, List.append_nil]
  exact go 0 []

theorem bytes_eq (s : String) : s.toUTF8.toList = s.toList.flatMap String.utf8EncodeChar := by
  rw [byteArray_toList, String.toUTF8_eq_toByteArray, ← String.utf8Encode_toList, List.utf8Encode,
    List.toList_data_toByteArray]

/-- A text is determined by its bytes. -/
theorem bytes_inj {s t : String} : s.toUTF8.toList = t.toUTF8.toList ↔ s = t := by
  refine ⟨fun h => ?_, fun h => by rw [h]⟩
  rw [byteArray_toList, byteArray_toList] at h
  exact String.toByteArray_inj.1 (ByteArray.ext (Array.toList_inj.1 h))

theorem bytes_ascii {cs : List Char} (h : ∀ c ∈ cs, c.toNat < 128) :
    (String.ofList cs).toUTF8.toList = cs.map fun c => UInt8.ofNat c.toNat := by
  rw [bytes_eq, String.toList_ofList]
  induction cs with
  | nil => rfl
  | cons c cs ih =>
    simp only [List.mem_cons, forall_eq_or_imp] at h
    have hc : String.utf8EncodeChar c = [UInt8.ofNat c.toNat] := if_pos (Nat.le_of_lt_succ h.1)
    rw [List.flatMap_cons, hc, ih h.2]
    rfl

theorem toNat_ofNat_byte (b : UInt8) : (Char.ofNat b.toNat).toNat = b.toNat := by
  have hvalid : b.toNat.isValidChar := .inl (by have := b.toNat_lt; omega)
  rw [Char.ofNat, dif_pos hvalid]
  rfl

/-- A text whose bytes are all ASCII codes consists of the characters with these codes. -/
theorem toList_of_ascii {s : String} (h : ∀ b ∈ s.toUTF8.toList, b.toNat < 128) :
    s.toList = s.toUTF8.toList.map fun b => Char.ofNat b.toNat := by
  have hbytes : (String.ofList (s.toUTF8.toList.map fun b => Char.ofNat b.toNat)).toUTF8.toList =
      s.toUTF8.toList := by
    rw [bytes_ascii (by simpa [toNat_ofNat_byte] using h), List.map_map]
    simp [Function.comp_def, toNat_ofNat_byte]
  rw [← bytes_inj.1 hbytes, String.toList_ofList, hbytes]

/-! ## The order of bytes -/

theorem append_lt_append_iff {α : Type} [LT α] {as bs cs ds : List α}
    (h : as.length = bs.length) : as ++ cs < bs ++ ds ↔ as < bs ∨ as = bs ∧ cs < ds := by
  induction as generalizing bs with
  | nil =>
    obtain rfl := List.length_eq_zero_iff.1 h.symm
    simp
  | cons a as ih =>
    cases bs with
    | nil => cases h
    | cons b bs =>
      simp only [List.cons_append, List.cons_lt_cons_iff, ih (Nat.succ.inj h), List.cons.injEq,
        and_or_left, or_assoc, and_assoc]

theorem toNat_ofNat_ascii {c : Char} (h : c.toNat < 128) :
    (UInt8.ofNat c.toNat).toNat = c.toNat := by
  rw [UInt8.toNat_ofNat']
  omega

/-- The bytes of a character: its code point in base sixty-four, with a mark of their number in the
first. -/
theorem utf8EncodeChar_digits (c : Char) :
    (c.toNat < 128 ∧ String.utf8EncodeChar c = [UInt8.ofNat c.toNat]) ∨
    (∃ x y, 2 ≤ x ∧ x < 32 ∧ y < 64 ∧ c.toNat = 64 * x + y ∧
      String.utf8EncodeChar c = [UInt8.ofNat (192 + x), UInt8.ofNat (128 + y)]) ∨
    (∃ x y z, x < 16 ∧ y < 64 ∧ z < 64 ∧ 32 ≤ 64 * x + y ∧ c.toNat = 4096 * x + 64 * y + z ∧
      String.utf8EncodeChar c =
        [UInt8.ofNat (224 + x), UInt8.ofNat (128 + y), UInt8.ofNat (128 + z)]) ∨
    ∃ x y z w, x < 8 ∧ y < 64 ∧ z < 64 ∧ w < 64 ∧ 16 ≤ 64 * x + y ∧
      c.toNat = 262144 * x + 4096 * y + 64 * z + w ∧
      String.utf8EncodeChar c = [UInt8.ofNat (240 + x), UInt8.ofNat (128 + y),
        UInt8.ofNat (128 + z), UInt8.ofNat (128 + w)] := by
  have hvalid : c.toNat < 0x110000 := by
    rcases c.valid with h | h
    · exact Nat.lt_trans h (by decide)
    · exact h.2
  by_cases h₁ : c.toNat ≤ 0x7F
  · exact .inl ⟨Nat.lt_succ_of_le h₁, if_pos h₁⟩
  by_cases h₂ : c.toNat ≤ 0x7FF
  · refine .inr (.inl ⟨c.toNat / 64 % 32, c.toNat % 64, by omega, by omega, by omega, by omega, ?_⟩)
    rw [Nat.add_comm 192, Nat.add_comm 128]
    exact (if_neg h₁).trans (if_pos h₂)
  by_cases h₃ : c.toNat ≤ 0xFFFF
  · refine .inr (.inr (.inl ⟨c.toNat / 4096 % 16, c.toNat / 64 % 64, c.toNat % 64, by omega,
      by omega, by omega, by omega, by omega, ?_⟩))
    simp only [Nat.add_comm 224, Nat.add_comm 128]
    exact (if_neg h₁).trans ((if_neg h₂).trans (if_pos h₃))
  · refine .inr (.inr (.inr ⟨c.toNat / 262144 % 8, c.toNat / 4096 % 64, c.toNat / 64 % 64,
      c.toNat % 64, by omega, by omega, by omega, by omega, by omega, by omega, ?_⟩))
    simp only [Nat.add_comm 240, Nat.add_comm 128]
    exact (if_neg h₁).trans ((if_neg h₂).trans (if_neg h₃))

theorem utf8EncodeChar_append_lt {c d : Char} (h : c < d) (cs ds : List UInt8) :
    String.utf8EncodeChar c ++ cs < String.utf8EncodeChar d ++ ds := by
  have hlt : c.toNat < d.toNat := h
  rcases utf8EncodeChar_digits c with ⟨_, hc⟩ | ⟨_, _, _, _, _, _, hc⟩ |
      ⟨_, _, _, _, _, _, _, _, hc⟩ | ⟨_, _, _, _, _, _, _, _, _, _, hc⟩ <;>
    rcases utf8EncodeChar_digits d with ⟨_, hd⟩ | ⟨_, _, _, _, _, _, hd⟩ |
      ⟨_, _, _, _, _, _, _, _, hd⟩ | ⟨_, _, _, _, _, _, _, _, _, _, hd⟩ <;>
    · simp only [hc, hd, List.cons_append, List.nil_append, List.cons_lt_cons_iff,
        UInt8.lt_iff_toNat_lt, ← UInt8.toNat_inj, UInt8.toNat_ofNat']
      omega

theorem flatMap_utf8EncodeChar_lt {as bs : List Char} (h : as < bs) :
    as.flatMap String.utf8EncodeChar < bs.flatMap String.utf8EncodeChar := by
  induction as generalizing bs with
  | nil =>
    cases bs with
    | nil => exact absurd h (List.lt_irrefl _)
    | cons b bs =>
      obtain ⟨x, xs, hx⟩ := List.exists_cons_of_ne_nil (String.utf8EncodeChar_ne_nil (c := b))
      rw [List.flatMap_nil, List.flatMap_cons, hx]
      exact List.nil_lt_cons _ _
  | cons a as ih =>
    cases bs with
    | nil => exact absurd h (List.not_lt_nil _)
    | cons b bs =>
      rw [List.flatMap_cons, List.flatMap_cons]
      rcases List.cons_lt_cons_iff.1 h with hab | ⟨rfl, hlt⟩
      · exact utf8EncodeChar_append_lt hab _ _
      · exact (append_lt_append_iff rfl).2 (.inr ⟨rfl, ih hlt⟩)

/-- **Texts are in the order of their bytes.** -/
theorem bytes_lt_iff {s t : String} :
    s.toUTF8.toList < t.toUTF8.toList ↔ s.toList < t.toList := by
  rw [bytes_eq, bytes_eq]
  refine ⟨fun h => List.not_le.1 fun hle => ?_, flatMap_utf8EncodeChar_lt⟩
  by_cases hlt : t.toList < s.toList
  · exact List.lt_asymm h (flatMap_utf8EncodeChar_lt hlt)
  · rw [List.le_antisymm (List.not_lt.1 hlt) hle] at h
    exact List.lt_irrefl _ h

theorem compare_eq_lt {as bs : List UInt8} : compare as bs = .lt ↔ as < bs := by
  induction as generalizing bs with
  | nil => cases bs <;> simp
  | cons a as ih =>
    cases bs with
    | nil => simp
    | cons b bs =>
      rw [List.compare_cons_cons, Ordering.then_eq_lt, Std.compare_eq_lt, Std.compare_eq_iff_eq, ih,
        List.cons_lt_cons_iff]

namespace Hex

/-! ## Hexadecimal forms read back -/

theorem hexDigit_mod (n : Nat) : Digits.hexDigit (n % 16) = Digits.hexDigit n := by
  simp only [Digits.hexDigit, Nat.mod_mod]

theorem nibble?_hexDigit (n : Nat) :
    nibble? (UInt8.ofNat (Digits.hexDigit n).toNat) = some (n % 16) := by
  have go : ∀ m < 16, nibble? (UInt8.ofNat (Digits.hexDigit m).toNat) = some m := by decide
  rw [← hexDigit_mod]
  exact go _ (Nat.mod_lt _ (by decide))

theorem hexDigit_ascii (n : Nat) : (Digits.hexDigit n).toNat < 128 := by
  have go : ∀ m < 16, (Digits.hexDigit m).toNat < 128 := by decide
  rw [← hexDigit_mod]
  exact go _ (Nat.mod_lt _ (by decide))

theorem digits_ascii (bytes : List UInt8) : ∀ c ∈ bytes.flatMap digits, c.toNat < 128 := by
  intro c hc
  obtain ⟨byte, -, hd⟩ := List.mem_flatMap.1 hc
  simp only [digits, List.mem_cons, List.not_mem_nil, or_false] at hd
  rcases hd with rfl | rfl <;> exact hexDigit_ascii _

theorem bytes_encode (bytes : List UInt8) : (encode bytes).toUTF8.toList =
    (bytes.flatMap digits).map fun c => UInt8.ofNat c.toNat :=
  bytes_ascii (digits_ascii bytes)

theorem length_digits (bytes : List UInt8) : (bytes.flatMap digits).length = 2 * bytes.length := by
  induction bytes with
  | nil => rfl
  | cons byte bytes ih =>
    simp only [List.flatMap_cons, List.length_append, digits, List.length_cons, ih, List.length_nil]
    omega

theorem decodePairs_digits (bytes : List UInt8) : ∀ position, decodePairs position
    ((bytes.flatMap digits).map fun c => UInt8.ofNat c.toNat) = .ok bytes := by
  induction bytes with
  | nil => exact fun _ => rfl
  | cons byte bytes ih =>
    intro position
    have hb : UInt8.ofNat (16 * (byte.toNat / 16 % 16) + byte.toNat % 16) = byte := by
      have := byte.toNat_lt
      rw [show 16 * (byte.toNat / 16 % 16) + byte.toNat % 16 = byte.toNat by omega]
      exact UInt8.ofNat_toNat
    simp only [List.flatMap_cons, digits, List.cons_append, List.nil_append, List.map_cons,
      decodePairs, nibble?_hexDigit, ih, hb]
    rfl

/-- **The hexadecimal form of bytes reads back.** -/
theorem decode_encode (bytes : List UInt8) : decode (encode bytes) = .ok bytes := by
  simp only [decode, bytes_encode, List.length_map, length_digits]
  rw [if_neg (by omega)]
  exact decodePairs_digits bytes 0

end Hex

end JobRegistry.Text
