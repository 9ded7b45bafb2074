import GbfCore.Manifest.Registry
import GbfCore.Manifest.Save

/-!
# Updating a source registry (pipeline.go)

After every backup `updateSourceRegistry` loads the registry of the source, notes the
new snapshot in it and writes it back. Where it cannot load the registry it writes a
new one, for whatever reason the load failed; so the user's data is kept exactly if
there is no file or the file can be loaded (`registry_kept_iff`).
-/

namespace GbfCore

open Function Json List Prog Option

variable {reg : SourceRegistry} {m : Manifest} {reg' : SourceRegistry}

/-- The registry of a source that has none. -/
def freshRegistry (cloudID : Bytes) (m : Manifest) : SourceRegistry :=
  { SourceRegistry.zero with
    cloudID := cloudID
    name := m.sourceName
    path := m.sourcePath
    deviceID := m.deviceID
    createdAt := m.timestamp }

/-- Note the snapshot of a manifest. -/
def SourceRegistry.refreshed (reg : SourceRegistry) (m : Manifest) : SourceRegistry :=
  { reg with
    name := m.sourceName
    path := m.sourcePath
    deviceID := m.deviceID
    lastSnapshot := m.timestamp
    snapshotCount := wrap64 (reg.snapshotCount + 1) }

/-- The registry an update goes on with. -/
def loadedOrFresh (cloudID : Bytes) (m : Manifest) :
    Except RegistryError SourceRegistry → SourceRegistry
  | .ok reg => reg
  | .error _ => freshRegistry cloudID m

section
variable (P : Primitives)

/-- `updateSourceRegistry`. A failed save is only logged. -/
def updateSourceRegistry (metaDir cloudID uuid : Bytes) (m : Manifest) : FsProg Unit := do
  let loaded ← loadSourceRegistry P metaDir cloudID
  let _ ← saveSourceRegistry P metaDir uuid ((loadedOrFresh cloudID m loaded).refreshed m)
  return ()

/-- What the user has attached to a source. -/
structure SameUserData (reg reg' : SourceRegistry) : Prop where
  pins : reg'.pins = reg.pins
  notes : reg'.notes = reg.notes
  snapshots : reg'.snapshots = reg.snapshots
  settings : reg'.settings = reg.settings
  createdAt : reg'.createdAt = reg.createdAt

/-- The registry file is as it was, or it holds the user data it held, or there was
none. -/
def RegistryKept (path : Bytes) (fs fs' : FileSystem) : Prop :=
  fs'.read path = fs.read path ∨
    (∃ data reg reg', fs.read path = some data ∧ unmarshalRegistry P data = .ok reg ∧
      fs'.read path = some (encodeSourceRegistry P reg') ∧ SameUserData reg reg') ∨
    fs.read path = none ∧ ∃ reg', fs'.read path = some (encodeSourceRegistry P reg')

/-- The registry is loaded from its file. -/
def RegistryLoads (unreadable : Bytes → Prop) (fs : FileSystem) (metaDir cloudID : Bytes) : Prop :=
  ¬ unreadable (sourceRegistryPath metaDir cloudID) ∧
    ∃ data reg, fs.read (sourceRegistryPath metaDir cloudID) = some data ∧
      decodeSourceRegistry P data = .ok reg ∧ reg.cloudID = cloudID

end

/-! ## Loading and saving -/

variable {P : Primitives} {unreadable : Bytes → Prop} {fs fs' : FileSystem}
  {metaDir cloudID uuid : Bytes}

/-- Decoding keeps the user data. -/
theorem unmarshal_of_decode {data : Bytes} (h : decodeSourceRegistry P data = .ok reg) :
    ∃ reg₀, unmarshalRegistry P data = .ok reg₀ ∧ SameUserData reg₀ reg := by
  obtain ⟨reg₀, hreg₀, h⟩ := bind_eq_ok.mp h
  refine ⟨reg₀, hreg₀, ?_⟩
  split at h
  · cases h
    exact ⟨rfl, rfl, rfl, rfl, rfl⟩
  · split at h
    · cases h
    · cases h
      exact ⟨rfl, rfl, rfl, rfl, rfl⟩

/-- A load changes nothing, and succeeds exactly if the registry loads. -/
theorem exec_loadSourceRegistry (hvalid : validateCloudID cloudID = .ok ())
    {r : Except RegistryError SourceRegistry}
    (h : (loadSourceRegistry P metaDir cloudID).Exec (FsCall.Outcome unreadable) fs r fs') :
    fs' = fs ∧
      ((∃ reg data, r = .ok reg ∧ ¬ unreadable (sourceRegistryPath metaDir cloudID) ∧
          fs.read (sourceRegistryPath metaDir cloudID) = some data ∧
          decodeSourceRegistry P data = .ok reg ∧ reg.cloudID = cloudID) ∨
        (∃ e, r = .error e) ∧ ¬ RegistryLoads P unreadable fs metaDir cloudID) := by
  unfold loadSourceRegistry at h
  rw [hvalid] at h
  obtain ⟨a, fs₁, hread, hret⟩ := exec_bind.mp h
  obtain ⟨rfl, hread⟩ := exec_ask.mp hread
  rcases hread with ⟨hun, rfl⟩ | ⟨hun, hread⟩
  · obtain ⟨rfl, rfl⟩ := hret
    exact ⟨rfl, .inr ⟨⟨_, rfl⟩, fun hl => hl.1 hun⟩⟩
  · cases hdata : fs₁.read (sourceRegistryPath metaDir cloudID) with
    | none =>
      rw [hdata] at hread
      cases hread
      obtain ⟨rfl, rfl⟩ := hret
      refine ⟨rfl, .inr ⟨⟨_, rfl⟩, ?_⟩⟩
      rintro ⟨-, data, reg, hsome, -⟩
      rw [hdata] at hsome
      cases hsome
    | some data =>
      rw [hdata] at hread
      cases hread
      obtain ⟨rfl, rfl⟩ := hret
      refine ⟨rfl, ?_⟩
      cases hdec : decodeSourceRegistry P data with
      | error e =>
        refine .inr ⟨⟨e, rfl⟩, ?_⟩
        rintro ⟨-, data', reg, hsome, hok, -⟩
        cases hdata.symm.trans hsome
        cases hdec.symm.trans hok
      | ok reg =>
        show (∃ reg' data', (if reg.cloudID ≠ cloudID then _ else _) = _ ∧ _) ∨ _
        by_cases hid : reg.cloudID = cloudID
        · exact .inl ⟨reg, data, if_neg (not_not.mpr hid), hun, rfl, hdec, hid⟩
        · refine .inr ⟨⟨_, if_pos hid⟩, ?_⟩
          rintro ⟨-, data', reg', hsome, hok, hid'⟩
          cases hdata.symm.trans hsome
          cases hdec.symm.trans hok
          exact hid hid'

/-- A save leaves the old content or the new one. -/
theorem exec_saveSourceRegistry (reg : SourceRegistry) {r : Except RegistrySaveError Unit}
    (hfresh : fs.inode (tempPath (sourceRegistryPath metaDir reg.cloudID) uuid) = none)
    (h : (saveSourceRegistry P metaDir uuid reg).Exec (FsCall.Outcome unreadable) fs r fs') :
    fs'.read (sourceRegistryPath metaDir reg.cloudID) =
        fs.read (sourceRegistryPath metaDir reg.cloudID) ∨
      fs'.read (sourceRegistryPath metaDir reg.cloudID) = some (encodeSourceRegistry P reg) := by
  unfold saveSourceRegistry at h
  cases hvalid : validateCloudID reg.cloudID with
  | error e =>
    rw [hvalid] at h
    exact .inl (h.2 ▸ rfl)
  | ok _ =>
    rw [hvalid] at h
    obtain ⟨r₁, fs₁, hmkdir, h⟩ := exec_call h
    obtain rfl : fs₁ = fs := hmkdir
    rcases r₁ with e | ⟨⟩
    · exact .inl (h.2 ▸ rfl)
    obtain ⟨r₂, fs₂, hparent, hwrite⟩ := exec_call h
    obtain rfl : fs₂ = fs₁ := hparent
    rcases r₂ with e | ⟨⟩
    · exact .inl (hwrite.2 ▸ rfl)
    obtain ⟨r₃, fs₃, hatomic, hret⟩ := exec_bind.mp hwrite
    rw [hret.2]
    exact exec_writeFileAtomic hfresh hatomic

/-- A save that meets no error. -/
theorem exists_saveSourceRegistry (reg : SourceRegistry)
    (hvalid : validateCloudID reg.cloudID = .ok ()) (P : Primitives) (unreadable : Bytes → Prop)
    (metaDir uuid : Bytes) (fs : FileSystem) :
    ∃ fs', (saveSourceRegistry P metaDir uuid reg).Exec (FsCall.Outcome unreadable) fs (.ok ()) fs' ∧
      fs'.read (sourceRegistryPath metaDir reg.cloudID) = some (encodeSourceRegistry P reg) := by
  obtain ⟨fs', hexec, hread⟩ := exists_writeFileAtomic unreadable fs uuid
    (sourceRegistryPath metaDir reg.cloudID) (encodeSourceRegistry P reg)
  refine ⟨fs', ?_, hread⟩
  unfold saveSourceRegistry
  rw [hvalid]
  refine exec_bind.mpr ⟨.ok (), fs, exec_ask.mpr rfl, ?_⟩
  refine exec_bind.mpr ⟨.ok (), fs, exec_ask.mpr rfl, ?_⟩
  exact exec_bind.mpr ⟨.ok (), fs', hexec, rfl, rfl⟩

/-! ## What the text of a registry tells -/

theorem writable_registry (reg : SourceRegistry) : reg.toJson.Writable 4 := by
  have hpin (p : RegistryPin) : p.toJson.Writable 2 := by simp [RegistryPin.toJson]
  have hnote (n : RegistryNote) : n.toJson.Writable 2 := by simp [RegistryNote.toJson]
  have hsnapshot (s : RegistrySnapshot) : s.toJson.Writable 2 := by simp [RegistrySnapshot.toJson]
  have hbool (b : Bool) : (Value.bool b).Writable 2 := trivial
  have hptr : (encodePtr RegistrySettings.toJson reg.settings).Writable 3 := by
    cases reg.settings with
    | none => trivial
    | some s => simp [encodePtr, RegistrySettings.toJson, hbool]
  simp [SourceRegistry.toJson, SourceRegistry.frontMembers, hpin, hnote, hsnapshot, hptr]

/-- The last member of the text is the date of creation. -/
theorem createdAt_of_marshal (h : reg.marshal = reg'.marshal) :
    coerce reg.createdAt = coerce reg'.createdAt := by
  have hparse : reg.toJson.coerce = reg'.toJson.coerce := by
    have hreg := parse_render (writable_registry reg) (by decide)
    have hreg' := parse_render (writable_registry reg') (by decide)
    exact some.inj (hreg.symm.trans ((congrArg parse h).trans hreg'))
  have hmembers := Value.obj.inj hparse
  rw [coerceMembers_eq_map, coerceMembers_eq_map, map_append, map_append] at hmembers
  have hlast := congrArg List.getLast? hmembers
  rw [List.getLast?_append_of_ne_nil _ (by simp), List.getLast?_append_of_ne_nil _ (by simp)] at hlast
  exact Value.str.inj (Prod.mk.inj (some.inj hlast)).2

theorem gbrEnvelope_inj (hsha : P.DigestLength) {a b : Bytes}
    (h : gbrEnvelope P a = gbrEnvelope P b) : a = b := by
  have hstrip := congrArg (stripGBREnvelope P) h
  rw [stripGBREnvelope_gbrEnvelope hsha, stripGBREnvelope_gbrEnvelope hsha] at hstrip
  exact some.inj hstrip

theorem zstdCompress_inj (hzstd : P.ZstdLaws) {a b : Bytes}
    (h : P.zstdCompress a = P.zstdCompress b) : a = b := by
  have ha := hzstd.decompress_compress (a.length + b.length) a (Nat.le_add_right _ _)
  have hb := hzstd.decompress_compress (a.length + b.length) b (Nat.le_add_left _ _)
  rw [h, hb] at ha
  exact (some.inj ha).symm

/-- The bytes of a registry tell when it was created. -/
theorem createdAt_of_encode (hsha : P.DigestLength) (hzstd : P.ZstdLaws)
    (h : encodeSourceRegistry P reg = encodeSourceRegistry P reg') :
    coerce reg.createdAt = coerce reg'.createdAt := by
  have hstamp : ∀ r : SourceRegistry,
      (if r.schemaVersion = 0 then { r with schemaVersion := sourceRegistrySchemaVersion }
        else r).createdAt = r.createdAt := by
    intro r
    split <;> rfl
  have hmarshal := zstdCompress_inj hzstd (gbrEnvelope_inj hsha h)
  have hcreated := createdAt_of_marshal hmarshal
  rw [hstamp, hstamp] at hcreated
  exact hcreated

/-! ## What an update keeps -/

section
variable (hvalid : validateCloudID cloudID = .ok ())
  (hfresh : fs.inode (tempPath (sourceRegistryPath metaDir cloudID) uuid) = none)
  (h : (updateSourceRegistry P metaDir cloudID uuid m).Exec (FsCall.Outcome unreadable) fs () fs')
include hvalid hfresh h

/-- An update whose load succeeds writes the user data back. -/
theorem kept_of_loads (hloads : RegistryLoads P unreadable fs metaDir cloudID) :
    RegistryKept P (sourceRegistryPath metaDir cloudID) fs fs' := by
  obtain ⟨r, fs₁, hload, hrest⟩ := exec_bind.mp h
  obtain ⟨rfl, ⟨reg, data, rfl, -, hdata, hdec, rfl⟩ | ⟨-, hnot⟩⟩ :=
    exec_loadSourceRegistry hvalid hload
  · obtain ⟨r, fs₂, hsave, hret⟩ := exec_bind.mp hrest
    rw [hret.2]
    rcases exec_saveSourceRegistry (reg.refreshed m) hfresh hsave with hsame | hnew
    · exact .inl hsame
    · obtain ⟨reg₀, hreg₀, hdata₀⟩ := unmarshal_of_decode hdec
      refine .inr (.inl ⟨data, reg₀, reg.refreshed m, hdata, hreg₀, hnew, ?_⟩)
      exact ⟨hdata₀.pins, hdata₀.notes, hdata₀.snapshots, hdata₀.settings, hdata₀.createdAt⟩
  · exact absurd hloads hnot

/-- Where there is no file an update may create one. -/
theorem kept_of_absent (habsent : fs.read (sourceRegistryPath metaDir cloudID) = none) :
    RegistryKept P (sourceRegistryPath metaDir cloudID) fs fs' := by
  obtain ⟨r, fs₁, hload, hrest⟩ := exec_bind.mp h
  obtain ⟨rfl, ⟨reg, data, -, -, hdata, -⟩ | ⟨⟨e, rfl⟩, -⟩⟩ := exec_loadSourceRegistry hvalid hload
  · rw [habsent] at hdata
    cases hdata
  · obtain ⟨r, fs₂, hsave, hret⟩ := exec_bind.mp hrest
    rw [hret.2]
    rcases exec_saveSourceRegistry ((freshRegistry cloudID m).refreshed m) hfresh hsave
      with hsame | hnew
    · exact .inl hsame
    · exact .inr (.inr ⟨habsent, _, hnew⟩)

end

/-- A save refuses an invalid identifier. -/
theorem saveSourceRegistry_refused {e : CloudIDError} (h : validateCloudID reg.cloudID = .error e) :
    saveSourceRegistry P metaDir uuid reg = .ret (.error (.cloudID e)) := by
  unfold saveSourceRegistry
  rw [h]
  rfl

/-- An invalid identifier is refused by the load and by the save. -/
theorem kept_of_invalid {e : CloudIDError} (hinvalid : validateCloudID cloudID = .error e)
    (h : (updateSourceRegistry P metaDir cloudID uuid m).Exec (FsCall.Outcome unreadable) fs () fs') :
    RegistryKept P (sourceRegistryPath metaDir cloudID) fs fs' := by
  have hload : loadSourceRegistry P metaDir cloudID = .ret (.error (.cloudID e)) := by
    unfold loadSourceRegistry
    rw [hinvalid]
    rfl
  unfold updateSourceRegistry at h
  rw [hload] at h
  obtain ⟨r, fs₁, hret, hrest⟩ := exec_bind.mp h
  obtain ⟨rfl, rfl⟩ := hret
  rw [saveSourceRegistry_refused hinvalid] at hrest
  obtain ⟨r, fs₂, hret, hend⟩ := exec_bind.mp hrest
  left
  rw [hend.2, hret.2]

/-- The load has a run. -/
theorem exists_loadSourceRegistry (P : Primitives) (unreadable : Bytes → Prop) (fs : FileSystem)
    (metaDir cloudID : Bytes) :
    ∃ r, (loadSourceRegistry P metaDir cloudID).Exec (FsCall.Outcome unreadable) fs r fs := by
  unfold loadSourceRegistry
  cases validateCloudID cloudID with
  | error e => exact ⟨_, rfl, rfl⟩
  | ok _ =>
    by_cases hun : unreadable (sourceRegistryPath metaDir cloudID)
    · exact ⟨_, .error .other, fs, ⟨rfl, .inl ⟨hun, rfl⟩⟩, rfl, rfl⟩
    · cases hread : fs.read (sourceRegistryPath metaDir cloudID) with
      | none =>
        refine ⟨_, .error .notExist, fs, ⟨rfl, .inr ⟨hun, ?_⟩⟩, rfl, rfl⟩
        rw [hread]
      | some data =>
        refine ⟨_, .ok data, fs, ⟨rfl, .inr ⟨hun, ?_⟩⟩, rfl, rfl⟩
        rw [hread]

/-- Where the load fails, some run of the update ends with a registry that has forgotten
everything. -/
theorem exists_forgetful (hvalid : validateCloudID cloudID = .ok ())
    (hloads : ¬ RegistryLoads P unreadable fs metaDir cloudID) (uuid : Bytes) (m : Manifest) :
    ∃ fs', (updateSourceRegistry P metaDir cloudID uuid m).Exec (FsCall.Outcome unreadable) fs ()
        fs' ∧
      fs'.read (sourceRegistryPath metaDir cloudID) =
        some (encodeSourceRegistry P ((freshRegistry cloudID m).refreshed m)) := by
  obtain ⟨r, hload⟩ := exists_loadSourceRegistry P unreadable fs metaDir cloudID
  obtain ⟨-, ⟨reg, data, rfl, hun, hdata, hdec, hid⟩ | ⟨⟨e, rfl⟩, -⟩⟩ :=
    exec_loadSourceRegistry hvalid hload
  · exact absurd ⟨hun, data, reg, hdata, hdec, hid⟩ hloads
  · obtain ⟨fs', hsave, hread⟩ := exists_saveSourceRegistry
      ((freshRegistry cloudID m).refreshed m) hvalid P unreadable metaDir uuid fs
    refine ⟨fs', exec_bind.mpr ⟨_, fs, hload, ?_⟩, hread⟩
    exact exec_bind.mpr ⟨_, fs', hsave, rfl, rfl⟩

/-- A manifest with this time. -/
def stampedManifest (timestamp : Bytes) : Manifest := { Manifest.zero with timestamp := timestamp }

/-- Of three dates one is neither that of the old registry nor the one whose registry
has the old bytes. -/
theorem exists_other_date (hsha : P.DigestLength) (hzstd : P.ZstdLaws) (cloudID data : Bytes)
    (old : Option Bytes) :
    ∃ t, old ≠ some (coerce t) ∧
      encodeSourceRegistry P ((freshRegistry cloudID (stampedManifest t)).refreshed
        (stampedManifest t)) ≠ data := by
  by_contra hnone
  push Not at hnone
  have hdates : ∀ t t', coerce t ≠ coerce t' → old ≠ some (coerce t) → old ≠ some (coerce t') →
      False := by
    intro t t' hne ht ht'
    exact hne (createdAt_of_encode hsha hzstd ((hnone t ht).trans (hnone t' ht').symm))
  have hab : coerce (ascii "a") ≠ coerce (ascii "b") := by decide
  have hac : coerce (ascii "a") ≠ coerce (ascii "c") := by decide
  have hbc : coerce (ascii "b") ≠ coerce (ascii "c") := by decide
  by_cases ha : old = some (coerce (ascii "a"))
  · refine hdates (ascii "b") (ascii "c") hbc ?_ ?_
    · exact fun hb => hab (some.inj (ha.symm.trans hb))
    · exact fun hc => hac (some.inj (ha.symm.trans hc))
  · by_cases hb : old = some (coerce (ascii "b"))
    · exact hdates (ascii "a") (ascii "c") hac ha
        fun hc => hbc (some.inj (hb.symm.trans hc))
    · exact hdates (ascii "a") (ascii "b") hab ha hb

/-- **An update keeps the user's data exactly if there is no file or the file can be
loaded**, or if the identifier of the source is refused. -/
theorem registry_kept_iff (hsha : P.DigestLength) (hzstd : P.ZstdLaws)
    (unreadable : Bytes → Prop) (fs : FileSystem) (metaDir cloudID uuid : Bytes)
    (hfresh : fs.inode (tempPath (sourceRegistryPath metaDir cloudID) uuid) = none) :
    (∀ m fs', (updateSourceRegistry P metaDir cloudID uuid m).Exec (FsCall.Outcome unreadable) fs ()
        fs' → RegistryKept P (sourceRegistryPath metaDir cloudID) fs fs') ↔
      validateCloudID cloudID ≠ .ok () ∨ fs.read (sourceRegistryPath metaDir cloudID) = none ∨
        RegistryLoads P unreadable fs metaDir cloudID := by
  cases hvalid : validateCloudID cloudID with
  | error e => exact ⟨fun _ => .inl nofun, fun _ m fs' h => kept_of_invalid hvalid h⟩
  | ok u =>
    constructor
    · intro hkept
      by_contra hnot
      rw [not_or, not_or] at hnot
      obtain ⟨-, hexists, hloads⟩ := hnot
      obtain ⟨data, hdata⟩ := ne_none_iff_exists'.mp hexists
      -- a date that the old registry, if there is one, does not have
      obtain ⟨t, hdate, hbytes⟩ := exists_other_date hsha hzstd cloudID data
        ((unmarshalRegistry P data).toOption.map fun reg => coerce reg.createdAt)
      obtain ⟨fs', hexec, hread⟩ :=
        exists_forgetful hvalid hloads uuid (stampedManifest t)
      rcases hkept _ fs' hexec with hsame | ⟨data', reg, reg', hdata', hreg, hnew, huser⟩ | ⟨hno, -⟩
      · rw [hread, hdata] at hsame
        exact hbytes (some.inj hsame)
      · cases hdata.symm.trans hdata'
        have hcreated := createdAt_of_encode hsha hzstd (some.inj (hread.symm.trans hnew))
        refine hdate ?_
        rw [hreg]
        show some (coerce reg.createdAt) = _
        rw [← huser.createdAt, ← hcreated]
        rfl
      · exact hexists hno
    · rintro (h | h | h) m fs' hexec
      · exact absurd rfl h
      · exact kept_of_absent hvalid hfresh hexec h
      · exact kept_of_loads hvalid hfresh hexec h

/-! ## Samples -/

/-- A file system with one file. -/
def oneFile (path data : Bytes) : FileSystem where
  inode := update (fun _ => none) path (some 0)
  content _ := data
  fresh := 1
  inode_lt := by
    intro name x h
    by_cases hname : name = path
    · subst hname
      rw [update_self] at h
      cases h
      exact Nat.one_pos
    · rw [update_of_ne hname] at h
      cases h

theorem read_oneFile (path data : Bytes) : (oneFile path data).read path = some data := by
  refine FileSystem.read_eq_some.mpr ⟨0, ?_, rfl⟩
  exact update_self path (some 0) fun _ => none

theorem fresh_oneFile (path data uuid : Bytes) :
    (oneFile path data).inode (tempPath path uuid) = none := by
  show update (fun _ => (none : Option Nat)) path (some 0) (tempPath path uuid) = none
  exact update_of_ne (tempPath_ne path uuid) _ _

/-- The file of the source `s` in the directory `m`. -/
def sampleRegistryPath : Bytes := sourceRegistryPath (ascii "m") (ascii "s")

/-- An old registry, which is plain JSON. -/
def sampleRegistryText : Bytes := ascii "\x7b\"cloudId\":\"s\",\"pins\":[\x7b\"note\":\"n\"\x7d]\x7d"

theorem registry_kept_sample :
    RegistryLoads manifestPrimitives (fun _ => False)
        (oneFile sampleRegistryPath sampleRegistryText) (ascii "m") (ascii "s") ∧
      ∀ m fs', (updateSourceRegistry manifestPrimitives (ascii "m") (ascii "s") (ascii "0") m).Exec
          (FsCall.Outcome fun _ => False) (oneFile sampleRegistryPath sampleRegistryText) () fs' →
        RegistryKept manifestPrimitives sampleRegistryPath
          (oneFile sampleRegistryPath sampleRegistryText) fs' := by
  have hdec : ((decodeSourceRegistry manifestPrimitives sampleRegistryText).toOption.map
      SourceRegistry.cloudID) = some (ascii "s") := by decide +kernel
  obtain ⟨reg, hreg, hid⟩ := map_eq_some_iff.mp hdec
  have hloads : RegistryLoads manifestPrimitives (fun _ => False)
      (oneFile sampleRegistryPath sampleRegistryText) (ascii "m") (ascii "s") := by
    refine ⟨not_false, sampleRegistryText, reg, read_oneFile _ _, ?_, hid⟩
    cases hok : decodeSourceRegistry manifestPrimitives sampleRegistryText with
    | error e =>
      rw [hok] at hreg
      cases hreg
    | ok reg' =>
      rw [hok] at hreg
      cases hreg
      rfl
  exact ⟨hloads, (registry_kept_iff manifestPrimitives_digest manifestPrimitives_zstd _ _
    (ascii "m") (ascii "s") (ascii "0") (fresh_oneFile sampleRegistryPath _ _)).mpr
    (.inr (.inr hloads))⟩

/-- A damaged registry is overwritten. -/
theorem registry_discarded :
    ∃ fs', (updateSourceRegistry manifestPrimitives (ascii "m") (ascii "s") (ascii "0")
        (stampedManifest (ascii "a"))).Exec (FsCall.Outcome fun _ => False)
        (oneFile sampleRegistryPath (ascii "x")) () fs' ∧
      ¬ RegistryKept manifestPrimitives sampleRegistryPath (oneFile sampleRegistryPath (ascii "x"))
        fs' := by
  have hbad : unmarshalRegistry manifestPrimitives (ascii "x") = .error .unmarshal := rfl
  have hloads : ¬ RegistryLoads manifestPrimitives (fun _ => False)
      (oneFile sampleRegistryPath (ascii "x")) (ascii "m") (ascii "s") := by
    rintro ⟨-, data, reg, hdata, hdec, -⟩
    cases (read_oneFile sampleRegistryPath (ascii "x")).symm.trans hdata
    rw [decodeSourceRegistry, hbad] at hdec
    cases hdec
  obtain ⟨fs', hexec, hread⟩ :=
    exists_forgetful (by decide) hloads (ascii "0") (stampedManifest (ascii "a"))
  refine ⟨fs', hexec, ?_⟩
  rintro (hsame | ⟨data, reg, reg', hdata, hreg, -⟩ | ⟨hnone, -⟩)
  · rw [show fs'.read sampleRegistryPath = _ from hread, read_oneFile] at hsame
    cases hsame
  · cases (read_oneFile sampleRegistryPath (ascii "x")).symm.trans hdata
    rw [hbad] at hreg
    cases hreg
  · rw [read_oneFile] at hnone
    cases hnone

/-! ## What a load accepts -/

/-- **A damaged registry is refused.** A file with the magic is only accepted if its digest is
that of its payload; what is too short for both is not taken for an older registry. -/
theorem envelope_of_decode {P : Primitives} {data : Bytes} (hmagic : registryEnvelopeMagic <+: data)
    (h : decodeSourceRegistry P data = .ok reg) :
    ∃ payload, payload ≠ [] ∧ data = gbrEnvelope P payload := by
  obtain ⟨rest, rfl⟩ := hmagic
  obtain ⟨reg₀, h, -⟩ := bind_eq_ok.mp h
  obtain ⟨payload, hpayload, h⟩ := bind_eq_ok.mp h
  have hsize : registryEnvelopeHeaderSize < (registryEnvelopeMagic ++ rest).length ↔
      sha256Size < rest.length := by
    rw [length_append]
    exact Nat.add_lt_add_iff_left
  by_cases hlong : sha256Size < rest.length
  · rw [registryPayload, if_pos ⟨hsize.mpr hlong, take_left⟩] at hpayload
    split at hpayload
    · cases hpayload
    · rename_i hstrip
      obtain ⟨hdigest, -⟩ := ite_none_right_eq_some.mp hstrip
      refine ⟨rest.drop sha256Size, fun hnil => ?_, ?_⟩
      · exact absurd (drop_eq_nil_iff.mp hnil) (Nat.not_le.mpr hlong)
      · calc registryEnvelopeMagic ++ rest
          _ = registryEnvelopeMagic ++ (rest.take sha256Size ++ rest.drop sha256Size) := by
            rw [take_append_drop]
          _ = gbrEnvelope P (rest.drop sha256Size) := by
            rw [show rest.take sha256Size = _ from hdigest, gbrEnvelope, append_assoc]
            rfl
  · -- what is too short for an envelope is read as text, which does not start so
    rw [registryPayload, if_neg fun hlen => hlong (hsize.mp hlen.1)] at hpayload
    cases hpayload
    cases h

/-- An empty registry. -/
theorem envelope_of_decode_empty : ∃ payload, payload ≠ [] ∧
    gbrEnvelope manifestPrimitives (ascii "\x7b\x7d") = gbrEnvelope manifestPrimitives payload := by
  cases h : decodeSourceRegistry manifestPrimitives
      (gbrEnvelope manifestPrimitives (ascii "\x7b\x7d")) with
  | ok reg => exact envelope_of_decode ⟨_, (append_assoc _ _ _).symm⟩ h
  | error e => cases h

end GbfCore
