import Mathlib.Data.List.Nodup
import JobRegistry.Proofs.Canonical
import JobRegistry.Proofs.Identity
import JobRegistry.Proofs.RecordId
import JobRegistry.Proofs.Sorted
import JobRegistry.Record.Config
import JobRegistry.Record.Input
import JobRegistry.Record.Output
import JobRegistry.Record.Schema

/-!
# What identifiers depend on

The identifier of a record is the digest of a text (`Record.keyText`, `Record.bytes_derivedId`) that
is determined by the fields of its natural key and determines them; so is the text behind the
version marker of a configuration (`Record.versionText`, `Record.bytes_derivedVersion`) by the
fields of its content (`hashed_text_eq_iff`). No other field has any influence, and no two fields
can stand for each other.

The canonical values behind these texts are maps with fixed keys, so that one fact about such maps
(`Canonical.ofEntries_zip_inj`) does the work.
-/

namespace JobRegistry

/-! ## Digests -/

/-- No two of the texts are different and have the same digest. -/
def CollisionFree (texts : List String) : Prop :=
  ∀ a ∈ texts, ∀ b ∈ texts,
    Blake3.digest a.toUTF8.toList = Blake3.digest b.toUTF8.toList → a = b

/-- None of the texts has the digest of zero bytes only. -/
def NullFree (texts : List String) : Prop :=
  ∀ a ∈ texts, Blake3.digest a.toUTF8.toList ≠ List.replicate 32 0

theorem CollisionFree.mono {texts texts' : List String} (h : CollisionFree texts')
    (hsub : texts ⊆ texts') : CollisionFree texts :=
  fun a ha b hb => h a (hsub ha) b (hsub hb)

/-- The first byte of the digest of a text, which mostly tells it from others. -/
def digestHead (text : String) : Option UInt8 :=
  (Blake3.digest text.toUTF8.toList).head?

theorem CollisionFree.of_heads {texts : List String} (h : (texts.map digestHead).Nodup) :
    CollisionFree texts :=
  fun _ ha _ hb heq => List.inj_on_of_nodup_map h ha hb (congrArg List.head? heq)

theorem NullFree.of_heads {texts : List String} (h : some 0 ∉ texts.map digestHead) :
    NullFree texts := by
  intro text htext heq
  apply h
  rw [show some 0 = digestHead text from (congrArg List.head? heq).symm]
  exact List.mem_map_of_mem htext

/-! ## Hashed texts -/

namespace Purpose

/-- For one purpose and one kind the hashed text determines the value. -/
theorem hashText_inj (p : Purpose) (kind : String) {v w : Canonical} :
    p.hashText kind v = p.hashText kind w ↔ v = w := by
  refine ⟨fun h => ?_, fun h => by rw [h]⟩
  have h := congrArg String.toList h
  rw [toList_hashText, toList_hashText] at h
  have h := (List.cons.inj (List.append_cancel_left h)).2
  exact Canonical.chars_inj (List.cons.inj (List.append_cancel_left h)).2

end Purpose

namespace Canonical

/-- Maps with the same keys, none of them twice, are equal when their values are. -/
theorem ofEntries_zip_inj (keys : List String) (hk : keys.Nodup) (vs ws : List Canonical)
    (hv : vs.length = keys.length) (hw : ws.length = keys.length) :
    ofEntries (keys.zip vs) = ofEntries (keys.zip ws) ↔ vs = ws := by
  rw [ofEntries, ofEntries, map.injEq]
  exact Sorted.ofList_zip_inj hk hv hw

end Canonical

namespace Record

variable {R : Type} [Record R]

/-- The text that is hashed for the identifier of a record. -/
def keyText (r : R) : String :=
  Purpose.identity.hashText (kind R).name (naturalKey r)

/-- The text that is hashed for the version marker of a record. -/
def versionText (r : R) : String :=
  Purpose.version.hashText (kind R).name (payload r)

/-- The identifier that a record should have is the digest of its key text. -/
theorem bytes_derivedId (r : R) :
    (derivedId r).bytes = Blake3.digest (keyText r).toUTF8.toList :=
  Purpose.bytes_derive ..

/-- The version marker that a record should have is the digest of its version text. -/
theorem bytes_derivedVersion (r : R) :
    (derivedVersion r).bytes = Blake3.digest (versionText r).toUTF8.toList :=
  Purpose.bytes_derive ..

theorem derivedId_ne_of_heads {r r' : R}
    (h : digestHead (keyText r) ≠ digestHead (keyText r')) : derivedId r ≠ derivedId r' := by
  intro heq
  apply h
  rw [digestHead, digestHead, ← bytes_derivedId, ← bytes_derivedId, heq]

theorem keyText_inj {r r' : R} : keyText r = keyText r' ↔ naturalKey r = naturalKey r' :=
  Purpose.hashText_inj ..

theorem versionText_inj {r r' : R} : versionText r = versionText r' ↔ payload r = payload r' :=
  Purpose.hashText_inj ..

end Record

/-! ## The parts of a configuration -/

theorem JobDependency.canonical_inj {d d' : JobDependency} :
    d.canonical = d'.canonical ↔ d = d' := by
  have h := Canonical.ofEntries_zip_inj ["service", "source"] (by decide)
    [.text d.service, .text d.source] [.text d'.service, .text d'.source] rfl rfl
  refine h.trans ?_
  obtain ⟨service, source⟩ := d
  obtain ⟨service', source'⟩ := d'
  simp

theorem StorageTarget.canonical_inj {t t' : StorageTarget} :
    t.canonical = t'.canonical ↔ t = t' := by
  have h := Canonical.ofEntries_zip_inj ["bucket", "prefix"] (by decide)
    [.text t.bucket, .text t.pathPrefix] [.text t'.bucket, .text t'.pathPrefix]
    rfl rfl
  refine h.trans ?_
  obtain ⟨bucket, pathPrefix⟩ := t
  obtain ⟨bucket', pathPrefix'⟩ := t'
  simp

theorem JobDependency.map_canonical_inj {ds ds' : List JobDependency} :
    ds.map canonical = ds'.map canonical ↔ ds = ds' :=
  List.map_inj_right fun _ _ h => canonical_inj.1 h

theorem SchemaType.name_inj {a b : SchemaType} : a.name = b.name ↔ a = b := by
  cases a <;> cases b <;> simp [name]

/-! ## Natural keys and contents -/

theorem Config.naturalKey_inj {c c' : Config} : c.naturalKey = c'.naturalKey ↔
    c.service = c'.service ∧ c.source = c'.source ∧ c.provider = c'.provider := by
  have h := Canonical.ofEntries_zip_inj ["service", "source", "provider"] (by decide)
    [.text c.service, .text c.source, .text c.provider]
    [.text c'.service, .text c'.source, .text c'.provider] rfl rfl
  exact h.trans (by simp)

theorem Output.naturalKey_inj {o o' : Output} : o.naturalKey = o'.naturalKey ↔
    o.service = o'.service ∧ o.source = o'.source ∧ o.provider = o'.provider ∧
      o.metadata.inputId = o'.metadata.inputId := by
  have h := Canonical.ofEntries_zip_inj ["service", "source", "provider", "inputId"]
    (by decide)
    [.text o.service, .text o.source, .text o.provider, .ofId o.metadata.inputId]
    [.text o'.service, .text o'.source, .text o'.provider, .ofId o'.metadata.inputId]
    rfl rfl
  exact h.trans (by simp [Canonical.ofId, RecordId.toHex_inj])

theorem Schema.naturalKey_inj {s s' : Schema} : s.naturalKey = s'.naturalKey ↔
    s.service = s'.service ∧ s.source = s'.source ∧ s.provider = s'.provider ∧
      s.schemaType = s'.schemaType := by
  have h := Canonical.ofEntries_zip_inj ["service", "source", "provider", "schemaType"]
    (by decide)
    [.text s.service, .text s.source, .text s.provider, .text s.schemaType.name]
    [.text s'.service, .text s'.source, .text s'.provider, .text s'.schemaType.name]
    rfl rfl
  exact h.trans (by simp [SchemaType.name_inj])

theorem Input.naturalKey_inj {i i' : Input} : i.naturalKey = i'.naturalKey ↔
    i.service = i'.service ∧ i.source = i'.source ∧ i.provider = i'.provider ∧
      i.objectUri = i'.objectUri := by
  have h := Canonical.ofEntries_zip_inj ["service", "source", "provider", "objectUri"]
    (by decide)
    [.text i.service, .text i.source, .text i.provider, .text i.objectUri]
    [.text i'.service, .text i'.source, .text i'.provider, .text i'.objectUri] rfl rfl
  exact h.trans (by simp)

theorem Config.payload_inj {c c' : Config} : c.payload = c'.payload ↔
    c.service = c'.service ∧ c.source = c'.source ∧ c.provider = c'.provider ∧
      c.active = c'.active ∧ c.dependsOn = c'.dependsOn ∧ c.storage = c'.storage := by
  have h := Canonical.ofEntries_zip_inj
    ["service", "source", "provider", "active", "dependsOn", "storage"] (by decide)
    [.text c.service, .text c.source, .text c.provider, .bool c.active,
      .seq (c.dependsOn.map JobDependency.canonical), c.storage.canonical]
    [.text c'.service, .text c'.source, .text c'.provider, .bool c'.active,
      .seq (c'.dependsOn.map JobDependency.canonical), c'.storage.canonical] rfl rfl
  exact h.trans
    (by simp [JobDependency.map_canonical_inj, StorageTarget.canonical_inj])

/-- **Identifiers depend on the fields of the natural key and on nothing else**, and the version of
a configuration on the fields of its content: the job, whether it is active, the dependencies in
their order, and where its outputs go. -/
theorem hashed_text_eq_iff :
    (∀ c c' : Config, Record.keyText c = Record.keyText c' ↔
      c.service = c'.service ∧ c.source = c'.source ∧ c.provider = c'.provider) ∧
    (∀ o o' : Output, Record.keyText o = Record.keyText o' ↔
      o.service = o'.service ∧ o.source = o'.source ∧ o.provider = o'.provider ∧
        o.metadata.inputId = o'.metadata.inputId) ∧
    (∀ s s' : Schema, Record.keyText s = Record.keyText s' ↔
      s.service = s'.service ∧ s.source = s'.source ∧ s.provider = s'.provider ∧
        s.schemaType = s'.schemaType) ∧
    (∀ i i' : Input, Record.keyText i = Record.keyText i' ↔
      i.service = i'.service ∧ i.source = i'.source ∧ i.provider = i'.provider ∧
        i.objectUri = i'.objectUri) ∧
    ∀ c c' : Config, Record.versionText c = Record.versionText c' ↔
      c.service = c'.service ∧ c.source = c'.source ∧ c.provider = c'.provider ∧
        c.active = c'.active ∧ c.dependsOn = c'.dependsOn ∧
        c.storage.bucket = c'.storage.bucket ∧ c.storage.pathPrefix = c'.storage.pathPrefix := by
  have hstorage (t t' : StorageTarget) :
      t = t' ↔ t.bucket = t'.bucket ∧ t.pathPrefix = t'.pathPrefix := by
    obtain ⟨bucket, pathPrefix⟩ := t
    obtain ⟨bucket', pathPrefix'⟩ := t'
    simp
  refine ⟨fun c c' => ?_, fun o o' => ?_, fun s s' => ?_, fun i i' => ?_, fun c c' => ?_⟩
  · exact Record.keyText_inj.trans Config.naturalKey_inj
  · exact Record.keyText_inj.trans Output.naturalKey_inj
  · exact Record.keyText_inj.trans Schema.naturalKey_inj
  · exact Record.keyText_inj.trans Input.naturalKey_inj
  · rw [← hstorage]
    exact Record.versionText_inj.trans Config.payload_inj

end JobRegistry
