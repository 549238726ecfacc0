import JobRegistry.Proofs.Settings.Soundness
import JobRegistry.Proofs.Toml.Document

/-!
# Settings read back

The document of settings is written in lines (`lines`), one for every setting and one for the header
of the table of collections. Each line is a statement, whatever the names in it are
(`writes_lines`), and these statements say nothing but the settings (`ofStatements?_lines`): every
key is set, and no two of them are in conflict. So a document of settings always is one that can be
read; what is asked of settings, which writing does not ask, is asked again of those that were read
(`ofToml_toToml`).
-/

namespace JobRegistry.Settings

open Number Text Toml

/-- A line that gives a key a text, with its statement. -/
def textStatement (key value : String) : Statement × List Char :=
  (.entry [key] (.text value), textLine key value)

/-- The lines of a document of settings, with their statements. -/
def lines (s : Settings) (timeout : Signed64) : List (Statement × List Char) :=
  [(.entry ["request_timeout_ms"] (.whole timeout),
      "request_timeout_ms".toList ++ " = ".toList ++ Digits.ofNat s.requestTimeoutMs ++ ['\n']),
    textStatement "log_level" s.logLevel,
    (.header [collectionsKey], '\n' :: '[' :: (collectionsKey.toList ++ [']', '\n']))] ++
    (named s.collections).map fun entry => textStatement entry.1 entry.2

theorem chars_eq (s : Settings) (timeout : Signed64) :
    s.chars = (s.lines timeout).flatMap Prod.snd := by
  have hkey : "request_timeout_ms = ".toList = "request_timeout_ms".toList ++ " = ".toList := by
    decide
  have hheader : "\n[collections]\n".toList =
      '\n' :: '[' :: (collectionsKey.toList ++ [']', '\n']) := by decide
  delta chars
  simp only [lines, hkey, hheader, textStatement, List.flatMap_append, List.flatMap_map,
    List.flatMap_cons, List.flatMap_nil, List.append_assoc, List.append_nil]

theorem writes_textStatement {key : String} (hkey : IsBare key) (value : String) :
    Writes (textStatement key value).1 (textStatement key value).2 := by
  obtain ⟨c, t, hwrite, hmark⟩ := exists_write value
  have hblank : Toml.isBlank c = false := by rcases hmark with rfl | rfl <;> decide
  exact writes_entry hkey hwrite hblank fun cs => value?_write _ _ (noMark_cons.2 (by decide))

theorem writes_lines {s : Settings} {timeout : Signed64} (h : timeout.1 = s.requestTimeoutMs) :
    ∀ line ∈ s.lines timeout, Writes line.1 line.2 := by
  obtain ⟨d, ds, hdigits, hd⟩ := Digits.exists_ofNat s.requestTimeoutMs
  have hblank : Toml.isBlank d = false := by
    simp only [Toml.isBlank, Bool.or_eq_false_iff, beq_eq_false_iff_ne]
    exact ⟨Digits.ne_of_isDigit hd (by decide), Digits.ne_of_isDigit hd (by decide)⟩
  have hvaults : ∀ entry ∈ named s.collections, IsBare entry.1 := by
    rw [← List.forall_mem_map (P := IsBare)]
    show ∀ vault ∈ ["configs", "outputs", "schemas", "inputs"], IsBare vault
    decide
  rw [lines, List.forall_mem_append, List.forall_mem_map]
  refine ⟨?_, fun entry hentry => writes_textStatement (hvaults entry hentry) entry.2⟩
  simp only [List.forall_mem_cons]
  exact ⟨writes_entry (by decide) hdigits hblank (value?_ofNat _ h),
    writes_textStatement (by decide) _, (writes_header (by decide)).newline, List.forall_mem_nil _⟩

theorem ofStatements?_lines {s : Settings} {timeout : Signed64}
    (h : timeout.1 = s.requestTimeoutMs) :
    ofStatements? ((s.lines timeout).map Prod.fst) = some s := by
  have hentries : entriesOf? [] [] ((s.lines timeout).map Prod.fst) = some
      [(["request_timeout_ms"], .whole timeout), (["log_level"], .text s.logLevel),
        ([collectionsKey, "configs"], .text s.collections.configs),
        ([collectionsKey, "outputs"], .text s.collections.outputs),
        ([collectionsKey, "schemas"], .text s.collections.schemas),
        ([collectionsKey, "inputs"], .text s.collections.inputs)] := by
    rfl
  rw [ofStatements?, hentries]
  show standard.setAll? _ = _
  simp [setAll?, set?, standard, CollectionNames.set?, CollectionNames.standard,
    collectionsKey, h]

/-- The document of settings is read as these settings, sound or not. -/
theorem ofToml_ofList_chars {s : Settings} (h : s.requestTimeoutMs ≤ 9223372036854775807) :
    ofToml (String.ofList s.chars) = s.checked := by
  obtain ⟨timeout, htimeout⟩ : ∃ timeout : Signed64, timeout.1 = s.requestTimeoutMs :=
    ⟨⟨s.requestTimeoutMs, by omega⟩, rfl⟩
  have hmark : ∀ c ∈ ((s.lines timeout).flatMap Prod.snd).head?, c ≠ '\ufeff' := by
    rintro c ⟨⟩
    decide
  rw [ofToml, chars_eq s timeout, read?_ofList (writes_lines htimeout) hmark, Option.bind_some,
    ofStatements?_lines htimeout]

/-- **Settings survive their document.** Whatever the level and the names of the collections are,
what is written of settings is read back as the same settings if they are sound, and otherwise
refused for a fault of theirs, never for its form. Settings can be written if their timeout is an
integer of sixty-four bits with a sign. -/
theorem ofToml_toToml (s : Settings) :
    (∀ text, s.toToml = .ok text →
      (s.Sound → ofToml text = .ok s) ∧
      (¬ s.Sound → ∃ fault, s.fault? = some fault ∧ ofToml text = .error (.invalid fault))) ∧
    (s.requestTimeoutMs ≤ 9223372036854775807 → ∃ text, s.toToml = .ok text) := by
  refine ⟨fun text h => ?_, fun h => ⟨_, if_pos h⟩⟩
  unfold toToml at h
  split at h
  · next hfits =>
    obtain rfl := Except.ok.inj h
    rw [ofToml_ofList_chars hfits]
    refine ⟨fun hsound => checked_eq_ok.2 hsound, fun hunsound => ?_⟩
    obtain ⟨fault, hfault⟩ := Option.ne_none_iff_exists'.1 (mt fault?_eq_none.1 hunsound)
    exact ⟨fault, hfault, by rw [checked, hfault]⟩
  · cases h

/-- Settings with a name for each form of a text, and a level that needs escapes over lines. -/
def specimen : Settings where
  requestTimeoutMs := 9223372036854775807
  logLevel := "\"\"\"\"'''\r\n\\"
  collections := ⟨"plain", "say \"so\"", "it's\ta \"one\"", "\\''\n'"⟩

/-- The same with a name that two vaults share. -/
def sharedSpecimen : Settings where
  requestTimeoutMs := 9223372036854775807
  logLevel := "\"\"\"\"'''\r\n\\"
  collections := ⟨"plain", "say \"so\"", "it's\ta \"one\"", "say \"so\""⟩

theorem ofToml_toToml_specimen :
    (∃ text, specimen.toToml = .ok text ∧ ofToml text = .ok specimen) ∧
      ∃ text, sharedSpecimen.toToml = .ok text ∧
        ofToml text = .error (.invalid (.sharedCollection "say \"so\"")) := by
  obtain ⟨hread, hwrite⟩ := ofToml_toToml specimen
  obtain ⟨hrefuse, hwrite'⟩ := ofToml_toToml sharedSpecimen
  obtain ⟨text, htext⟩ := hwrite (by decide)
  obtain ⟨text', htext'⟩ := hwrite' (by decide)
  have hfault : sharedSpecimen.fault? = some (.sharedCollection "say \"so\"") := by decide
  have hunsound : ¬ sharedSpecimen.Sound := fun h => by
    rw [fault?_eq_none.2 h] at hfault
    cases hfault
  obtain ⟨fault, hfirst, herror⟩ := (hrefuse text' htext').2 hunsound
  obtain rfl := Option.some.inj (hfault.symm.trans hfirst)
  exact ⟨⟨text, htext, (hread text htext).1 (fault?_eq_none.1 (by decide))⟩, text', htext', herror⟩

end JobRegistry.Settings
