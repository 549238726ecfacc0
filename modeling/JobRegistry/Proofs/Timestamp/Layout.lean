import JobRegistry.Proofs.Text.Bytes
import JobRegistry.Proofs.Timestamp
import Mathlib.Data.List.Forall2

/-!
# Which texts are timestamps

A text is read as a timestamp if its bytes have the layout (`HasLayout`) and its fields name a time
of a real day (`Civil.IsReal`), for then it is the text of these fields (`text_civilOf`).

The text of fields determines them, and such texts are in the order of their fields
(`Civil.text_lt_iff`). So are timestamps (`lt_iff_before`): the first field in which two of them
differ decides, and the second sixty of a leap second comes last in its minute.
-/

namespace JobRegistry.Timestamp

open Text

/-! ## Fields of real days -/

namespace Civil

/-- The fields are those of a second, a leap second perhaps, of a real day. -/
structure IsReal (c : Civil) : Prop where
  date : c.date.IsReal
  hour : c.hour ≤ 23
  minute : c.minute ≤ 59
  second : c.second ≤ 60

/-- A second of a real day, with a year of four digits, is in the range of timestamps. -/
theorem exists_timestamp?_iff {c : Civil} (h : c.year < 10000) :
    (∃ t, c.timestamp? = some t) ↔ c.IsReal := by
  constructor
  · rintro ⟨t, ht⟩
    unfold timestamp? ofCivil? at ht
    split at ht
    · next hreal => exact ⟨hreal.1, hreal.2.1, hreal.2.2.1, hreal.2.2.2⟩
    · cases ht
  · intro hreal
    have hdays : Date.daysBeforeYear c.year ≤ c.date.dayNumber ∧
        c.date.dayNumber < Date.daysBeforeYear (c.year + 1) := hreal.date.dayNumber_bounds
    unfold Date.daysBeforeYear at hdays
    have hhour := hreal.hour
    have hminute := hreal.minute
    unfold timestamp? ofCivil?
    rw [if_pos ⟨hreal.date, hhour, hminute, hreal.second⟩]
    dsimp only
    rw [dif_pos (by unfold epochDay; omega)]
    exact ⟨_, rfl⟩

/-- The timestamp that has some fields shows them. -/
theorem civil_of_timestamp? {c : Civil} {t : Timestamp} (h : c.timestamp? = some t)
    (hreal : c.IsReal) : t.civil = c := by
  obtain ⟨hdate, hday, hleap⟩ := ofCivil?_spec h
  have hminute := hreal.minute
  have hsecond := hreal.second
  have hhour : t.secondOfDay / 3600 = c.hour := by omega
  have hminute' : t.secondOfDay / 60 % 60 = c.minute := by omega
  have hshown : t.shownSecond = c.second := by
    unfold shownSecond
    simp only [hleap, decide_eq_true_iff]
    split <;> omega
  simp only [civil, Timestamp.year, hdate, hhour, hminute', hshown]
  rfl

/-! ## The order of fields -/

/-- The order of fields, from the year to the second. -/
def Before (c c' : Civil) : Prop :=
  c.date.Before c'.date ∨ c.date = c'.date ∧ (c.hour < c'.hour ∨ c.hour = c'.hour ∧
    (c.minute < c'.minute ∨ c.minute = c'.minute ∧ c.second < c'.second))

/-- **The texts of fields are in the order of the fields.** -/
theorem text_lt_iff {c c' : Civil} (h : c.Fits) (h' : c'.Fits) :
    c.text < c'.text ↔ c.Before c' := by
  have field {width m n : Nat} {rest rest' : List Char} (hw : 0 < width) (hm : m < 10 ^ width)
      (hn : n < 10 ^ width) : Digits.padded width m ++ rest < Digits.padded width n ++ rest' ↔
        m < n ∨ m = n ∧ rest < rest' := by
    have hlength : (Digits.padded width m).length = (Digits.padded width n).length := by
      rw [Digits.length_padded width hw hm, Digits.length_padded width hw hn]
    rw [append_lt_append_iff hlength, Digits.padded_lt_padded_iff width hw hm hn,
      Digits.padded_inj]
  have separated {separator : Char} {rest rest' : List Char} :
      separator :: rest < separator :: rest' ↔ rest < rest' := by
    rw [List.cons_lt_cons_iff]
    simp
  rw [text, text, field (by decide) h.year h'.year, separated,
    field (by decide) h.month h'.month, separated, field (by decide) h.day h'.day, separated,
    field (by decide) h.hour h'.hour, separated, field (by decide) h.minute h'.minute, separated,
    Digits.padded_lt_padded_iff 2 (by decide) h.second h'.second]
  simp only [Before, Date.Before, date, Date.mk.injEq, Int.ofNat_lt, Int.natCast_inj]
  omega

end Civil

/-- The rank of a timestamp by the fields that it shows. -/
theorem rank_eq (t : Timestamp) : t.rank = 172800 * (t.date.dayNumber - epochDay) +
    (7200 * (t.secondOfDay / 3600) + 120 * (t.secondOfDay / 60 % 60) +
      min (2 * t.shownSecond) 119 : Nat) := by
  have hday := dayNumber_date t
  have hlast := t.leap_last
  unfold rank shownSecond secondOfDay
  split_ifs with hleap
  · have := hlast hleap
    omega
  · omega

/-- **Timestamps are in the order of the fields that they show.** -/
theorem lt_iff_before {a b : Timestamp} (ha : a.HasFourDigitYear) (hb : b.HasFourDigitYear) :
    a < b ↔ a.civil.Before b.civil := by
  have hdate := a.isReal_date.dayNumber_lt_iff b.isReal_date
  have hsame := a.isReal_date.dayNumber_inj b.isReal_date
  have hday := a.secondOfDay_lt
  have hday' := b.secondOfDay_lt
  have hsecond := a.shownSecond_le
  have hsecond' := b.shownSecond_le
  rw [lt_iff, rank_eq, rank_eq, Civil.Before, date_civil ha, date_civil hb, ← hdate, ← hsame]
  simp only [civil]
  omega

/-! ## The layout of a text -/

/-- The layout of a text form, in which every `d` stands for a digit. -/
def layout : List Char :=
  ['d', 'd', 'd', 'd', '-', 'd', 'd', '-', 'd', 'd', ' ', 'd', 'd', ':', 'd', 'd', ':', 'd', 'd']

/-- The byte is what the layout has at its place. -/
def Fits (want : Char) (byte : UInt8) : Prop :=
  if want = 'd' then '0'.toNat ≤ byte.toNat ∧ byte.toNat ≤ '9'.toNat else byte.toNat = want.toNat

/-- The bytes of a text have the layout: there are nineteen, and each is what it should be. -/
def HasLayout (s : String) : Prop :=
  List.Forall₂ Fits layout s.toUTF8.toList

/-- The number that is spelled by the characters of a text from a place on. -/
def fieldAt (s : String) (start width : Nat) : Nat :=
  Digits.toNat ((s.toList.drop start).take width)

/-- The fields of a text with the layout. -/
def civilOf (s : String) : Civil where
  year := fieldAt s 0 4
  month := fieldAt s 5 2
  day := fieldAt s 8 2
  hour := fieldAt s 11 2
  minute := fieldAt s 14 2
  second := fieldAt s 17 2

/-- The character is what the layout has at its place. -/
def FitsChar (want c : Char) : Prop :=
  if want = 'd' then Digits.isDigit c = true else c = want

instance (want c : Char) : Decidable (FitsChar want c) :=
  inferInstanceAs (Decidable (if want = 'd' then _ else _))

theorem fits_iff {want c : Char} {byte : UInt8} (h : byte.toNat = c.toNat) :
    Fits want byte ↔ FitsChar want c := by
  unfold Fits FitsChar
  split
  · rw [h, Digits.isDigit_iff_toNat]
    rfl
  · rw [h, Char.toNat_inj]

theorem ascii_layout : ∀ want ∈ layout, want.toNat < 128 := by simp [layout]

theorem Fits.ascii {want : Char} {byte : UInt8} (h : Fits want byte) (hwant : want.toNat < 128) :
    byte.toNat < 128 := by
  unfold Fits at h
  split at h
  · exact Nat.lt_of_le_of_lt h.2 (by decide)
  · exact h ▸ hwant

theorem FitsChar.ascii {want c : Char} (h : FitsChar want c) (hwant : want.toNat < 128) :
    c.toNat < 128 := by
  unfold FitsChar at h
  split at h
  · exact Nat.lt_of_le_of_lt (Digits.isDigit_iff_toNat.1 h).2 (by decide)
  · exact h ▸ hwant

theorem forall_of_forall₂ {α β : Type} {R : α → β → Prop} {p : α → Prop} {q : β → Prop}
    {as : List α} {bs : List β} (h : List.Forall₂ R as bs) (has : ∀ a ∈ as, p a)
    (hR : ∀ a b, R a b → p a → q b) : ∀ b ∈ bs, q b := by
  induction h with
  | nil => exact List.forall_mem_nil _
  | cons hab _ ih =>
    simp only [List.mem_cons, forall_eq_or_imp] at has ⊢
    exact ⟨hR _ _ hab has.1, ih has.2⟩

/-- A text has the layout in its bytes if it has it in its characters. -/
theorem hasLayout_iff {s : String} : HasLayout s ↔ List.Forall₂ FitsChar layout s.toList := by
  constructor
  · intro h
    have hascii := forall_of_forall₂ h ascii_layout fun _ _ => Fits.ascii
    rw [toList_of_ascii hascii, List.forall₂_map_right_iff]
    exact h.imp fun _ byte => (fits_iff (toNat_ofNat_byte byte).symm).1
  · intro h
    have hascii := forall_of_forall₂ h ascii_layout fun _ _ => FitsChar.ascii
    have hbytes := bytes_ascii hascii
    rw [String.ofList_toList] at hbytes
    rw [HasLayout, hbytes, List.forall₂_map_right_iff]
    refine ((List.forall₂_and_left _ _).2 ⟨ascii_layout, h⟩).imp fun want c hc => ?_
    exact (fits_iff (toNat_ofNat_ascii (hc.2.ascii hc.1))).2 hc.2

instance (s : String) : Decidable (HasLayout s) :=
  decidable_of_iff' _ hasLayout_iff

/-! ## The fields of a text with the layout -/

variable {s : String}

theorem HasLayout.length (h : HasLayout s) : s.toList.length = 19 :=
  (hasLayout_iff.1 h).length_eq.symm

/-- Where the layout has digits, the text goes on with the numeral of a field. -/
theorem HasLayout.field (h : HasLayout s) (start width : Nat) (hw : 0 < width)
    (hdigits : (layout.drop start).take width = List.replicate width 'd') :
    Digits.padded width (fieldAt s start width) ++ s.toList.drop (start + width) =
      s.toList.drop start := by
  have hfield := List.forall₂_take width (List.forall₂_drop start (hasLayout_iff.1 h))
  rw [hdigits] at hfield
  have hlength := hfield.length_eq
  rw [List.length_replicate] at hlength
  have hall : ∀ c ∈ (s.toList.drop start).take width, Digits.isDigit c = true :=
    forall_of_forall₂ hfield (fun _ => List.eq_of_mem_replicate) fun _ _ hfits hwant => by
      rwa [FitsChar, if_pos hwant] at hfits
  have hpadded := Digits.padded_toNat (by rw [← List.length_pos_iff, ← hlength]; exact hw) hall
  rw [← hlength] at hpadded
  rw [fieldAt, hpadded, ← List.drop_drop, List.take_append_drop]

/-- Where the layout has a separator, the text goes on with it. -/
theorem HasLayout.separator (h : HasLayout s) (i : Nat) (c : Char)
    (hc : layout.drop i = c :: layout.drop (i + 1)) (hd : c ≠ 'd') :
    c :: s.toList.drop (i + 1) = s.toList.drop i := by
  have hdrop := List.forall₂_drop i (hasLayout_iff.1 h)
  rw [hc, List.forall₂_cons_left_iff] at hdrop
  obtain ⟨c', rest, hfits, -, hs⟩ := hdrop
  rw [FitsChar, if_neg hd] at hfits
  rw [← List.drop_drop, hs, hfits, List.drop_one, List.tail_cons]

/-- **A text with the layout is the text of its fields.** -/
theorem text_civilOf (h : HasLayout s) : (civilOf s).text = s.toList := by
  have hend : s.toList.drop 19 = [] := List.drop_eq_nil_of_le (Nat.le_of_eq h.length)
  have hsecond : Digits.padded 2 (fieldAt s 17 2) = s.toList.drop 17 := by
    rw [← h.field 17 2 (by decide) rfl, hend, List.append_nil]
  calc (civilOf s).text
    _ = Digits.padded 4 (fieldAt s 0 4) ++ '-' :: (Digits.padded 2 (fieldAt s 5 2) ++
        '-' :: (Digits.padded 2 (fieldAt s 8 2) ++ ' ' :: (Digits.padded 2 (fieldAt s 11 2) ++
          ':' :: (Digits.padded 2 (fieldAt s 14 2) ++
            ':' :: Digits.padded 2 (fieldAt s 17 2))))) := rfl
    _ = s.toList.drop 0 := by
      rw [hsecond, h.separator 16 ':' rfl (by decide), h.field 14 2 (by decide) rfl,
        h.separator 13 ':' rfl (by decide), h.field 11 2 (by decide) rfl,
        h.separator 10 ' ' rfl (by decide), h.field 8 2 (by decide) rfl,
        h.separator 7 '-' rfl (by decide), h.field 5 2 (by decide) rfl,
        h.separator 4 '-' rfl (by decide), h.field 0 4 (by decide) rfl]
    _ = s.toList := List.drop_zero

theorem fieldAt_lt (s : String) (start width : Nat) : fieldAt s start width < 10 ^ width :=
  Nat.lt_of_lt_of_le (Digits.toNat_lt _)
    (Nat.pow_le_pow_right (by decide) (List.length_take_le ..))

theorem fits_civilOf (s : String) : (civilOf s).Fits where
  year := fieldAt_lt s 0 4
  month := fieldAt_lt s 5 2
  day := fieldAt_lt s 8 2
  hour := fieldAt_lt s 11 2
  minute := fieldAt_lt s 14 2
  second := fieldAt_lt s 17 2

/-- A text with the layout is read as the time that its fields name. -/
theorem parse?_of_hasLayout (h : HasLayout s) : parse? s = (civilOf s).timestamp? := by
  rw [← Civil.parse?_text (fits_civilOf s), text_civilOf h, String.ofList_toList]

theorem field?_eq_some {cs : List Char} {n : Nat} :
    field? cs = some n ↔ (∀ c ∈ cs, Digits.isDigit c = true) ∧ Digits.toNat cs = n := by
  rw [field?, Option.ite_none_right_eq_some, List.all_eq_true, Option.some.injEq]

/-- A text that is read has the layout. -/
theorem hasLayout_of_parse? {t : Timestamp} (h : parse? s = some t) : HasLayout s := by
  rw [hasLayout_iff]
  unfold parse? at h
  split at h
  · next hs =>
    simp only [Option.bind_eq_bind, Option.bind_eq_some_iff, field?_eq_some, List.mem_cons,
      List.not_mem_nil, or_false, forall_eq_or_imp, forall_eq] at h
    obtain ⟨_, ⟨hyear, -⟩, _, ⟨hmonth, -⟩, _, ⟨hday, -⟩, _, ⟨hhour, -⟩, _, ⟨hminute, -⟩, _,
      ⟨hsecond, -⟩, -⟩ := h
    simp [hs, layout, FitsChar, hyear, hmonth, hday, hhour, hminute, hsecond]
  · cases h

/-! ## Reading and writing -/

/-- **The texts of timestamps** are those that have the layout and name a time of a real day. -/
theorem exists_parse_iff : (∃ t, parse s = .ok t) ↔ HasLayout s ∧ (civilOf s).IsReal := by
  simp only [parse_eq_ok]
  constructor
  · rintro ⟨t, ht⟩
    have hlayout := hasLayout_of_parse? ht
    rw [parse?_of_hasLayout hlayout] at ht
    exact ⟨hlayout, (Civil.exists_timestamp?_iff (fits_civilOf s).year).1 ⟨t, ht⟩⟩
  · rintro ⟨hlayout, hreal⟩
    rw [parse?_of_hasLayout hlayout]
    exact (Civil.exists_timestamp?_iff (fits_civilOf s).year).2 hreal

/-- A timestamp is written as the text from which it was read. -/
theorem format_of_parse {t : Timestamp} (h : parse s = .ok t) : t.format = s := by
  obtain ⟨hlayout, hreal⟩ := exists_parse_iff.1 ⟨t, h⟩
  rw [parse_eq_ok] at h
  have hcivil : t.civil = civilOf s :=
    Civil.civil_of_timestamp? (parse?_of_hasLayout hlayout ▸ h) hreal
  rw [format_eq (hasFourDigitYear_of_parse? h), hcivil, text_civilOf hlayout, String.ofList_toList]

theorem parse_format_eq_error {t : Timestamp} (h : ¬ t.HasFourDigitYear) :
    parse t.format = .error ⟨t.format⟩ := by
  rw [parse, parse?_format_eq_none h]

theorem parse_format_iff {t : Timestamp} : parse t.format = .ok t ↔ t.HasFourDigitYear := by
  rw [parse_eq_ok]
  exact ⟨hasFourDigitYear_of_parse?, parse?_format⟩

/-- **Timestamps are in the order of the bytes of their texts.** -/
theorem lt_iff_format_lt {a b : Timestamp} (ha : a.HasFourDigitYear) (hb : b.HasFourDigitYear) :
    a < b ↔ a.format.toUTF8.toList < b.format.toUTF8.toList := by
  rw [format_eq ha, format_eq hb, bytes_lt_iff, String.toList_ofList, String.toList_ofList,
    Civil.text_lt_iff (fits_civil ha) (fits_civil hb), lt_iff_before ha hb]

/-- **The layout of timestamps.** A text is read if its nineteen bytes have the layout and its
fields name a second of a real day, of which the sixtieth may be a leap second; what was read is
written as that text. A timestamp reads back from its own text if its year has four digits, and its
text is refused if not. Timestamps with such years are in the order of the bytes of their texts. -/
theorem layout_laws (s : String) (t a b : Timestamp) :
    ((∃ u, parse s = .ok u) ↔ HasLayout s ∧ (civilOf s).IsReal) ∧
    (parse s = .ok t → t.format = s) ∧
    (parse t.format = .ok t ↔ t.HasFourDigitYear) ∧
    (¬ t.HasFourDigitYear → parse t.format = .error ⟨t.format⟩) ∧
    (a.HasFourDigitYear → b.HasFourDigitYear →
      (a < b ↔ a.format.toUTF8.toList < b.format.toUTF8.toList)) :=
  ⟨exists_parse_iff, format_of_parse, parse_format_iff, parse_format_eq_error, lt_iff_format_lt⟩

/-- The leap second at the end of the year 2016. -/
def leapSecond : Timestamp := ⟨1483228799, true, by decide, by decide, by decide⟩

/-- The first second of the year ten thousand. -/
def firstIllegible : Timestamp := ⟨253402300800, false, by decide, by decide, by decide⟩

/-- A leap second is read from its text and written as that text. It reads back, and precedes the
last second of the year 9999, whose successor is refused. -/
theorem layout_laws_leapSecond :
    let text := "2016-12-31 23:59:60"
    HasLayout text ∧ (civilOf text).IsReal ∧ (∃ u, parse text = .ok u ∧ u.format = text) ∧
    parse leapSecond.format = .ok leapSecond ∧
    parse firstIllegible.format = .error ⟨firstIllegible.format⟩ ∧
    leapSecond.format.toUTF8.toList < lastLegible.format.toUTF8.toList := by
  intro text
  have hlayout : HasLayout text := by decide
  have hcivil : civilOf text = ⟨2016, 12, 31, 23, 59, 60⟩ := by decide
  have hreal : (civilOf text).IsReal := by
    rw [hcivil]
    exact ⟨by decide, by decide, by decide, by decide⟩
  have hleap : leapSecond.HasFourDigitYear := by decide
  have hlast : lastLegible.HasFourDigitYear := by decide
  obtain ⟨haccepted, -, hread, -, horder⟩ := layout_laws text leapSecond leapSecond lastLegible
  obtain ⟨-, -, -, hrefused, -⟩ := layout_laws text firstIllegible leapSecond lastLegible
  obtain ⟨u, hu⟩ := haccepted.2 ⟨hlayout, hreal⟩
  have hwritten := (layout_laws text u leapSecond lastLegible).2.1 hu
  exact ⟨hlayout, hreal, ⟨u, hu, hwritten⟩, hread.2 hleap, hrefused (by decide),
    (horder hleap hlast).1 (by decide)⟩

/-- The digits of other scripts are no digits here, for they have more than one byte. -/
example : parse "2016-12-31 23:59:6０" = .error ⟨"2016-12-31 23:59:6０"⟩ := by cbv

end JobRegistry.Timestamp
