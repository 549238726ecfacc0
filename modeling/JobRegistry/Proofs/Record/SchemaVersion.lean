import Mathlib
import JobRegistry.Proofs.Json.Alike
import JobRegistry.Proofs.Record.Identity
import JobRegistry.Proofs.Record.Kinds

/-!
# What the version of a schema depends on

A schema that was made from properties has the text of a JSON object (`Schema.object_of_create`). Of
two such schemas of one side of one job the versions are derived from the same text exactly when the
objects are alike (`Schema.versionText_eq_iff`): they may differ in their layout, and also where one
has a number that is no integer of sixty-four bits and the other has its numeral as a text.
-/

namespace JobRegistry

open Json (Alike Relaid)

namespace Schema

theorem isObject_iff {s : Schema} :
    s.isObject = true ↔ ∃ members, s.parsed? = some (.object members) := by
  unfold isObject
  split
  · next members h => exact iff_of_true rfl ⟨members, h⟩
  · next hne => exact iff_of_false nofun fun ⟨members, h⟩ => hne members h

/-- When the checks of a schema hold. -/
theorem violations_checks {s : Schema} : Check.violations s.checks = [] ↔
    Text.isBlank s.service = false ∧ Text.isBlank s.source = false ∧
      Text.isBlank s.provider = false ∧ Text.isBlank s.jsonSchema = false ∧
      (∃ members, s.parsed? = some (.object members)) ∧ s.createdAt ≤ s.updatedAt := by
  rw [checks, Check.violations_required_cons, Check.violations_required_cons,
    Check.violations_required_cons, Check.violations_required_cons, Check.violations_holds_cons,
    Record.timesCheck, Check.violations_holds_cons, Bool.or_eq_true, decide_eq_true_eq,
    isObject_iff]
  constructor
  · rintro ⟨hservice, hsource, hprovider, hblank, hobject, htimes, -⟩
    rw [hblank] at hobject
    exact ⟨hservice, hsource, hprovider, hblank, hobject.resolve_left Bool.false_ne_true, htimes⟩
  · rintro ⟨hservice, hsource, hprovider, hblank, hobject, htimes⟩
    exact ⟨hservice, hsource, hprovider, hblank, .inr hobject, htimes, rfl⟩

/-- The text of a new schema is that of a JSON object. -/
theorem object_of_create {p : SchemaProps} {now : Timestamp} {s : Schema}
    (h : Properties.create p now = .ok s) : ∃ members, s.parsed? = some (.object members) := by
  obtain ⟨hchecks, rfl⟩ := Record.identify_eq_ok.1 h
  obtain ⟨-, -, -, -, hobject, -⟩ := violations_checks.1 hchecks
  exact hobject

/-- A new schema has the fields of its properties. -/
theorem fields_of_create {p : SchemaProps} {now : Timestamp} {s : Schema}
    (h : Properties.create p now = .ok s) :
    p = ⟨s.service, s.source, s.provider, s.schemaType, s.jsonSchema⟩ := by
  obtain ⟨-, rfl⟩ := Record.identify_eq_ok.1 h
  rfl

/-- Properties make a schema if no name is blank and the text is that of a JSON object. -/
theorem exists_create {p : SchemaProps} (now : Timestamp)
    (hservice : Text.isBlank p.service = false) (hsource : Text.isBlank p.source = false)
    (hprovider : Text.isBlank p.provider = false) (hblank : Text.isBlank p.jsonSchema = false)
    {members : List (String × Json)}
    (hobject : (Json.read? p.jsonSchema).map Json.sorted = some (.object members)) :
    ∃ s : Schema, Properties.create p now = .ok s :=
  ⟨_, Record.identify_eq_ok.2 ⟨violations_checks.2
    ⟨hservice, hsource, hprovider, hblank, ⟨members, hobject⟩, Timestamp.le_refl now⟩, rfl⟩⟩

theorem normal_of_parsed? {s : Schema} {j : Json} (h : s.parsed? = some j) : j.Normal := by
  obtain ⟨k, hk, rfl⟩ := Option.map_eq_some_iff.1 h
  exact Json.normal_sorted (Json.isFinite_of_read? hk)

theorem body_of_parsed? {s : Schema} {j : Json} (h : s.parsed? = some j) :
    s.body = .ofJson j := by
  rw [body, h]

theorem payload_inj {s t : Schema} : s.payload = t.payload ↔
    s.service = t.service ∧ s.source = t.source ∧ s.provider = t.provider ∧
      s.schemaType = t.schemaType ∧ s.body = t.body := by
  have h := Canonical.ofEntries_zip_inj
    ["service", "source", "provider", "schemaType", "jsonSchema"] (by decide)
    [.text s.service, .text s.source, .text s.provider, .text s.schemaType.name, s.body]
    [.text t.service, .text t.source, .text t.provider, .text t.schemaType.name, t.body] rfl rfl
  exact h.trans (by simp [SchemaType.name_inj])

/-- The schemas describe the same side of the same job. -/
structure SameSide (s t : Schema) : Prop where
  service : s.service = t.service
  source : s.source = t.source
  provider : s.provider = t.provider
  schemaType : s.schemaType = t.schemaType

theorem SameSide.versionText_iff {s t : Schema} (h : SameSide s t) {j k : Json}
    (hs : s.parsed? = some j) (ht : t.parsed? = some k) :
    Record.versionText s = Record.versionText t ↔ Alike j k := by
  have hbody : s.payload = t.payload ↔ s.body = t.body := by
    rw [payload_inj]
    exact ⟨fun he => he.2.2.2.2, fun he => ⟨h.service, h.source, h.provider, h.schemaType, he⟩⟩
  rw [Record.versionText_inj]
  apply hbody.trans
  rw [body_of_parsed? hs, body_of_parsed? ht]
  exact Canonical.ofJson_eq_iff (normal_of_parsed? hs) (normal_of_parsed? ht)

theorem parsed?_of_relaid {s t : Schema} (h : Relaid s.jsonSchema t.jsonSchema) {j k : Json}
    (hs : s.parsed? = some j) (ht : t.parsed? = some k) : j = k := by
  obtain ⟨j', hj, rfl⟩ := Option.map_eq_some_iff.1 hs
  obtain ⟨k', hk, rfl⟩ := Option.map_eq_some_iff.1 ht
  exact h.sorted_eq hj hk

/-- **The version of a schema tells all that its text means, except for numbers that are no integers
of sixty-four bits**, which pass for the texts of their numerals. The layout of the text has no
influence. -/
theorem versionText_eq_iff {p q : SchemaProps} {now now' : Timestamp} {s t : Schema}
    (hs : Properties.create p now = .ok s) (ht : Properties.create q now' = .ok t)
    (hside : SameSide s t) :
    ∃ members members', s.parsed? = some (.object members) ∧
      t.parsed? = some (.object members') ∧
      (Record.versionText s = Record.versionText t ↔ Alike (.object members) (.object members')) ∧
      (Relaid s.jsonSchema t.jsonSchema → Record.versionText s = Record.versionText t) := by
  obtain ⟨members, hm⟩ := object_of_create hs
  obtain ⟨members', hm'⟩ := object_of_create ht
  refine ⟨members, members', hm, hm', hside.versionText_iff hm hm', fun hrelaid => ?_⟩
  rw [hside.versionText_iff hm hm', parsed?_of_relaid hrelaid hm hm']
  exact .refl _

/-- Properties with a given text. -/
def propsOf (text : String) : SchemaProps :=
  ⟨"billing", "events", "acme", .input, text⟩

theorem exists_propsOf {text : String} (hblank : Text.isBlank text = false)
    {members : List (String × Json)} (h : Json.read? text = some (.object members)) :
    ∃ s : Schema, Properties.create (propsOf text) .lastLegible = .ok s ∧ s.jsonSchema = text ∧
      s.parsed? = some (Json.sorted (.object members)) := by
  have hnames : Text.isBlank "billing" = false ∧ Text.isBlank "events" = false ∧
      Text.isBlank "acme" = false := by
    decide
  have hparsed : (Json.read? text).map Json.sorted = some (Json.sorted (.object members)) :=
    congrArg _ h
  obtain ⟨s, hs⟩ : ∃ s, Properties.create (propsOf text) .lastLegible = .ok s :=
    exists_create .lastLegible hnames.1 hnames.2.1 hnames.2.2 hblank hparsed
  have htext : text = s.jsonSchema := congrArg SchemaProps.jsonSchema (fields_of_create hs)
  refine ⟨s, hs, htext.symm, ?_⟩
  rw [parsed?, ← htext, hparsed]

theorem sameSide_propsOf {text text' : String} {now now' : Timestamp} {s t : Schema}
    (hs : Properties.create (propsOf text) now = .ok s)
    (ht : Properties.create (propsOf text') now' = .ok t) : SameSide s t := by
  obtain ⟨hservice, hsource, hprovider, hside, -⟩ := SchemaProps.mk.inj (fields_of_create hs)
  obtain ⟨hservice', hsource', hprovider', hside', -⟩ := SchemaProps.mk.inj (fields_of_create ht)
  exact ⟨hservice.symm.trans hservice', hsource.symm.trans hsource',
    hprovider.symm.trans hprovider', hside.symm.trans hside'⟩

theorem versionText_eq_iff_specimen :
    ∃ s t u : Schema,
      Properties.create (propsOf "\x7b\"limit\":\"1.5\",\"unit\":null\x7d") .lastLegible = .ok s ∧
      Properties.create (propsOf " \x7b\"unit\": null, \"limit\" : \"1.5\"\x7d") .lastLegible =
        .ok t ∧
      Properties.create (propsOf "\x7b\"limit\":\"1.5\",\"unit\":true\x7d") .lastLegible = .ok u ∧
      SameSide s t ∧ SameSide s u ∧ Relaid s.jsonSchema t.jsonSchema ∧
      Record.versionText s = Record.versionText t ∧
      Record.versionText s ≠ Record.versionText u := by
  have hread : Json.read? "\x7b\"limit\":\"1.5\",\"unit\":null\x7d" =
      some (.object [("limit", .text "1.5"), ("unit", .null)]) := by
    cbv
  have hread' : Json.read? " \x7b\"unit\": null, \"limit\" : \"1.5\"\x7d" =
      some (.object [("unit", .null), ("limit", .text "1.5")]) := by
    cbv
  have hread'' : Json.read? "\x7b\"limit\":\"1.5\",\"unit\":true\x7d" =
      some (.object [("limit", .text "1.5"), ("unit", .bool true)]) := by
    cbv
  obtain ⟨s, hs, hsText, hsParsed⟩ := exists_propsOf (by decide) hread
  obtain ⟨t, ht, htText, -⟩ := exists_propsOf (by decide) hread'
  obtain ⟨u, hu, -, huParsed⟩ := exists_propsOf (by decide) hread''
  have hst := sameSide_propsOf hs ht
  have hsu := sameSide_propsOf hs hu
  have hrelaid : Relaid s.jsonSchema t.jsonSchema := by
    rw [hsText, htText]
    exact ⟨_, _, Json.spelled_of_read? hread, Json.spelled_of_read? hread',
      .swap [] (by decide) []⟩
  refine ⟨s, t, u, hs, ht, hu, hst, hsu, hrelaid, ?_, ?_⟩
  · obtain ⟨_, _, -, -, -, hlayout⟩ := versionText_eq_iff hs ht hst
    exact hlayout hrelaid
  · obtain ⟨members, members', hm, hm', hiff, -⟩ := versionText_eq_iff hs hu hsu
    obtain rfl := Json.object.inj (Option.some.inj (hsParsed.symm.trans hm))
    obtain rfl := Json.object.inj (Option.some.inj (huParsed.symm.trans hm'))
    rw [Ne, hiff]
    intro h
    cases h with
    | object h =>
      cases h with
      | cons _ h =>
        cases h with
        | cons h _ => cases h

/-! ## A number that passes for a text -/

/-- The double 1.5. -/
def oneAndHalf : Number.Double :=
  ⟨false, 4609434218613702656, by decide⟩

theorem number?_oneAndHalf :
    Json.number? ['1', '.', '5', '\x7d'] = some (.real oneAndHalf, ['\x7d']) := by
  have hvalue : Json.Numeral.value? ⟨false, ['1'], some ['5'], none⟩ =
      some (.real oneAndHalf) := by
    have hscale : Json.scale? 15 (-1) = some oneAndHalf := by decide +kernel
    show (Json.scale? 15 (-1)).map (Json.signed false) = _
    rw [hscale]
    rfl
  show (Json.Numeral.value? ⟨false, ['1'], some ['5'], none⟩).bind
    (fun j => some (j, ['\x7d'])) = _
  rw [hvalue]
  rfl

theorem read?_oneAndHalf :
    Json.read? "\x7b\"limit\":1.5\x7d" = some (.object [("limit", .real oneAndHalf)]) := by
  have hvalue : Json.value? 126 ['1', '.', '5', '\x7d'] = some (.real oneAndHalf, ['\x7d']) := by
    rw [Json.value?_scalar 126 (by decide), Json.scalar?_of_number (by decide),
      number?_oneAndHalf]
  have hname : Json.SpellsName "limit" ['"', 'l', 'i', 'm', 'i', 't', '"', ':'] :=
    ⟨[], ['l', 'i', 'm', 'i', 't', '"'], [], nofun, nofun, fun _ _ => rfl, rfl⟩
  have hmembers : Json.members? (Json.value? 126) 12
      ['"', 'l', 'i', 'm', 'i', 't', '"', ':', '1', '.', '5', '\x7d'] =
      some ([("limit", .real oneAndHalf)], []) := by
    apply (hname.members?_eq (Json.value? 126) 11 ['1', '.', '5', '\x7d']).trans
    rw [hvalue]
    rfl
  have hfront : Json.readFront? "\x7b\"limit\":1.5\x7d" =
      some (.object [("limit", .real oneAndHalf)], []) := by
    show (Json.members? (Json.value? 126) 12
      ['"', 'l', 'i', 'm', 'i', 't', '"', ':', '1', '.', '5', '\x7d']).map
        (fun read : List (String × Json) × List Char => (Json.object read.1, read.2)) = _
    rw [hmembers]
    rfl
  rw [Json.read?, hfront]
  rfl

/-- The version of a schema does not tell 1.5 from the text of its numeral. -/
theorem versionText_number_as_text :
    ∃ (s t : Schema) (members members' : List (String × Json)),
      Properties.create (propsOf "\x7b\"limit\":1.5\x7d") .lastLegible = .ok s ∧
      Properties.create (propsOf "\x7b\"limit\":\"1.5\"\x7d") .lastLegible = .ok t ∧
      SameSide s t ∧ s.parsed? = some (.object members) ∧ t.parsed? = some (.object members') ∧
      members ≠ members' ∧ Record.versionText s = Record.versionText t := by
  have hread : Json.read? "\x7b\"limit\":\"1.5\"\x7d" =
      some (.object [("limit", .text "1.5")]) := by
    cbv
  obtain ⟨s, hs, -, hsParsed⟩ := exists_propsOf (by decide) read?_oneAndHalf
  obtain ⟨t, ht, -, htParsed⟩ := exists_propsOf (by decide) hread
  have hnumeral : (Json.real oneAndHalf).numeral? = some "1.5" := by decide +kernel
  have hst := sameSide_propsOf hs ht
  refine ⟨s, t, _, _, hs, ht, hst, hsParsed, htParsed, ?_, ?_⟩
  · intro h
    cases h
  · rw [hst.versionText_iff hsParsed htParsed]
    exact .object (.cons (.number hnumeral) .nil)

end Schema

end JobRegistry
