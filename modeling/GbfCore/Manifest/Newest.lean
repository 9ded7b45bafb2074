import GbfCore.Manifest.Confinement
import GbfCore.Manifest.Latest

/-!
# The latest manifest of any directory (manifest.go)

`LoadLatestManifest` finds the second of a snapshot in the name of its file: it cuts off two
extensions and what follows the first underscore, prints the number as a date and reads the
date back. Here nothing is assumed about who wrote the files. If the seconds are within the
years that a date can be read back from, the newest file that can be loaded is returned, and
the errors tell a directory without dated files from one where none can be loaded
(`loadLatestManifest_newest`). Files of one second are ordered by `UnixNano`, which is not the
order of their times where one of them is behind the year 2262 (`loadLatestManifest_wraps`).
-/

namespace GbfCore

open Prog Option List

/-- The second in a file name. -/
def nameSecond (filename : Bytes) : Option Int :=
  parseInt64 ((stripExtension (stripExtension filename)).takeWhile (· != underscore))

theorem parseManifestFilenameTimestamp_eq (filename : Bytes) :
    parseManifestFilenameTimestamp filename = (nameSecond filename).map formatRFC3339 := rfl

/-- A manifest file of the directory with a second in its name, and with the `UnixNano` of its
time. -/
structure DatedFile (dir : Bytes) (d : Disk) (c : Candidate) : Prop where
  isDir : d.isDir dir
  pathName : PathName c.name
  slash : slash ∉ c.name
  isManifest : isManifestFile c.name = true
  second : nameSecond c.name = some c.unixSec
  file : ∃ data time, d.file (dir ++ GbfCore.slash :: c.name) = some (data, time) ∧
    c.modNano = unixNano time

/-- The second is in one of the years 0000 to 9999. -/
def InYears (unix : Int) : Prop := 0 ≤ (dateOfUnix unix).year ∧ (dateOfUnix unix).year ≤ 9999

section
variable (P : Primitives) (hook : DecryptHook) (unreadable : Bytes → Prop)

/-- `LoadManifest` loads this manifest from the file, where some files cannot be read. -/
def Loads (d : Disk) (path : Bytes) (m : Manifest) : Prop :=
  (loadManifestFile P hook path).Exec (FsCall.Outcome unreadable) d.fs (.ok m) d.fs

/-- What `LoadManifest` does is determined by the files and by which of them can be read. -/
theorem exists_load (d : Disk) : ∃ load : Bytes → Except LoadError Manifest,
    (∀ {now path r d'}, (loadManifestFile P hook path).Exec
      (Disk.Outcome ⟨unreadable, False⟩ now) d r d' → r = load path) ∧
    ∀ {path m}, Loads P hook unreadable d path m ↔ load path = .ok m := by
  have hone : ∀ {fs fs₁ fs₂ : FileSystem} {c : FsCall} {r r' : c.Answer}, c.ReadsFile →
      c.Outcome unreadable fs r fs₁ → c.Outcome unreadable fs r' fs₂ → r = r' ∧ fs₁ = fs₂ := by
    intro fs fs₁ fs₂ c r r' hc h h'
    cases c with
    | readFile path =>
      obtain ⟨rfl, ⟨hno, rfl⟩ | ⟨hyes, h⟩⟩ := h
      · obtain ⟨rfl, ⟨-, rfl⟩ | ⟨hyes, -⟩⟩ := h'
        · exact ⟨rfl, rfl⟩
        · exact absurd hno hyes
      · obtain ⟨rfl, ⟨hno, -⟩ | ⟨-, h'⟩⟩ := h'
        · exact absurd hno hyes
        · refine ⟨?_, rfl⟩
          cases hread : fs₂.read path with
          | none =>
            rw [hread] at h h'
            exact h.trans h'.symm
          | some data =>
            rw [hread] at h h'
            exact h.trans h'.symm
    | _ => exact hc.elim
  have hunique : ∀ {path r r' fs₁ fs₂},
      (loadManifestFile P hook path).Exec (FsCall.Outcome unreadable) d.fs r fs₁ →
      (loadManifestFile P hook path).Exec (FsCall.Outcome unreadable) d.fs r' fs₂ → r = r' := by
    intro path r r' fs₁ fs₂ h h'
    have hreads : (loadManifestFile P hook path).Calls FsCall.ReadsFile :=
      calls_loadManifestFile P hook trivial trivial
    refine (exec_unique ?_ hreads h h').1
    exact hone
  have hsome : ∀ path, ∃ r, (loadManifestFile P hook path).Exec
      (Disk.Outcome ⟨unreadable, False⟩ 0) d r d := by
    intro path
    obtain ⟨r, d', h⟩ := exists_exec (fun d _ => exists_look ⟨unreadable, False⟩ 0 d)
      (isLook_loadManifestFile P hook path) d
    obtain rfl := exec_isLook (isLook_loadManifestFile P hook path) h
    exact ⟨r, h⟩
  choose load hload using hsome
  refine ⟨load, fun h => ?_, fun {path m} => ⟨fun h => ?_, fun h => ?_⟩⟩
  · exact hunique (Disk.exec_files h) (Disk.exec_files (hload _))
  · exact (hunique h (Disk.exec_files (hload path))).symm
  · rw [Loads, ← h]
    exact Disk.exec_files (hload path)

/-- `LoadLatestManifest` only looks. -/
theorem isLook_loadLatestManifest (metaDir cloudID : Bytes) :
    (loadLatestManifest P hook metaDir cloudID).Calls IsLook :=
  calls_loadLatestManifest P hook ⟨trivial, fun _ => trivial, fun _ => trivial, fun _ => trivial⟩

end

section
variable {dir : Bytes} {d : Disk}

/-- The second is found again where its year has four digits. -/
theorem isCandidate_iff (hisDir : d.isDir dir)
    (hyears : ∀ {c}, DatedFile dir d c → InYears c.unixSec) {c : Candidate} :
    IsCandidate dir d c ↔ DatedFile dir d c := by
  have hback : ∀ {unix}, nameSecond c.name = some unix → InYears unix →
      ((parseRFC3339 (formatRFC3339 unix)).map Prod.fst).getD 0 = unix := by
    intro unix hunix hyear
    obtain ⟨hlo, hhi⟩ := parseInt64_bounds hunix
    rw [parseRFC3339_format hlo hhi hyear.1 hyear.2]
    rfl
  constructor
  · rintro ⟨hpath, hslash, hmanifest, ⟨ts, hts, hsec⟩, hfile⟩
    rw [parseManifestFilenameTimestamp_eq] at hts
    obtain ⟨unix, hunix, rfl⟩ := map_eq_some_iff.mp hts
    have hdated : DatedFile dir d ⟨c.name, unix, c.modNano⟩ :=
      ⟨hisDir, hpath, hslash, hmanifest, hunix, hfile⟩
    have hyear := hyears hdated
    rw [hback hunix hyear] at hsec
    exact ⟨hisDir, hpath, hslash, hmanifest, hunix.trans (congrArg some hsec.symm), hfile⟩
  · intro h
    refine ⟨h.pathName, h.slash, h.isManifest, ⟨formatRFC3339 c.unixSec, ?_, ?_⟩, h.file⟩
    · rw [parseManifestFilenameTimestamp_eq, h.second]
      rfl
    · exact (hback h.second (hyears h)).symm

end

section
variable {P : Primitives} {hook : DecryptHook} {unreadable : Bytes → Prop} {metaDir cloudID : Bytes}
  {d : Disk} {now : Int}

/-- **`LoadLatestManifest` returns the newest snapshot that can be loaded**, whatever else is in
the directory. -/
theorem loadLatestManifest_newest (hclean : CleanDir (manifestDir metaDir cloudID))
    (hthere : d.isDir (manifestDir metaDir cloudID) ∨ d.Absent (manifestDir metaDir cloudID))
    (hyears : ∀ {c}, DatedFile (manifestDir metaDir cloudID) d c → InYears c.unixSec) :
    (loadLatestManifest P hook metaDir cloudID).Runs (Disk.Outcome ⟨unreadable, False⟩ now) d
      fun r d' =>
        let dir := manifestDir metaDir cloudID
        d' = d ∧
        (∀ m, r = .ok m ↔ ∃ c, DatedFile dir d c ∧
          Loads P hook unreadable d (dir ++ slash :: c.name) m ∧
          ∀ c' m', DatedFile dir d c' → Loads P hook unreadable d (dir ++ slash :: c'.name) m' →
            c'.UpTo c) ∧
        (r = .error .notFound ↔ ∀ c, ¬ DatedFile dir d c) ∧
        ((∃ e, r = .error e ∧ e ≠ .notFound) ↔ (∃ c, DatedFile dir d c) ∧
          ∀ c m, DatedFile dir d c → ¬ Loads P hook unreadable d (dir ++ slash :: c.name) m) := by
  refine ⟨exists_exec (fun d _ => exists_look ⟨unreadable, False⟩ now d)
    (isLook_loadLatestManifest P hook metaDir cloudID) d, fun r d' h => ?_⟩
  obtain ⟨load, hload, hloads⟩ := exists_load P hook unreadable d
  obtain ⟨rfl, hgone, -, hdir⟩ := exec_latest not_false hclean hload h
  rcases hthere with hisDir | habsent
  · obtain ⟨sorted, hsorted, hpairwise, hfirst, hnil⟩ := hdir hisDir
    have hmem : ∀ c, c ∈ sorted ↔ DatedFile (manifestDir metaDir cloudID) d' c :=
      fun c => (hsorted c).trans (isCandidate_iff hisDir hyears)
    have hloaded : ∀ {c m}, DatedFile (manifestDir metaDir cloudID) d' c →
        (Loads P hook unreadable d' (manifestDir metaDir cloudID ++ slash :: c.name) m ↔
          (load (pathJoin [manifestDir metaDir cloudID, c.name])).toOption = some m) := by
      intro c m hc
      rw [hclean.join (names_of_notMem hc.pathName hc.slash), hloads, toOption_eq_some]
    have hdated : r = .error .notFound ↔ ∀ c, ¬ DatedFile (manifestDir metaDir cloudID) d' c := by
      rw [hnil, eq_nil_iff_forall_not_mem]
      exact forall_congr' fun c => not_congr (hmem c)
    have hnone : r.toOption = none ↔ ∀ c m, DatedFile (manifestDir metaDir cloudID) d' c →
        ¬ Loads P hook unreadable d' (manifestDir metaDir cloudID ++ slash :: c.name) m := by
      rw [hfirst, findSome?_eq_none_iff]
      refine forall_congr' fun c => ?_
      rw [hmem, eq_none_iff_forall_ne_some, forall_comm]
      exact forall₂_congr fun m hc => not_congr (hloaded hc).symm
    refine ⟨rfl, fun m => ?_, hdated, ?_⟩
    · -- the first that loads in the sorted list is the newest that loads
      rw [← toOption_eq_some, hfirst, findSome?_sorted hpairwise before_refl before_antisymm]
      refine exists_congr fun c => (and_congr_left' (hmem c)).trans (and_congr_right fun hc => ?_)
      refine and_congr (hloaded hc).symm (forall_congr' fun c' => ?_)
      rw [hmem, ← upTo_iff, ne_none_iff_exists']
      exact ⟨fun h m' hc' hm' => h hc' ⟨m', (hloaded hc').mp hm'⟩,
        fun h hc' ⟨m', hm'⟩ => h m' hc' ((hloaded hc').mpr hm')⟩
    · rw [← hnone]
      constructor
      · rintro ⟨e, rfl, he⟩
        exact ⟨not_forall_not.mp fun hno => he (Except.error.inj (hdated.mpr hno)), rfl⟩
      · rintro ⟨⟨c, hc⟩, hr⟩
        cases r with
        | ok m => cases hr
        | error e => exact ⟨e, rfl, fun he => hdated.mp (congrArg _ he) c hc⟩
  · obtain rfl := hgone habsent
    have hnone : ∀ c, ¬ DatedFile (manifestDir metaDir cloudID) d' c :=
      fun c hc => habsent.2 hc.isDir
    refine ⟨rfl, fun m => ⟨nofun, fun ⟨c, hc, _⟩ => absurd hc (hnone c)⟩, iff_of_true rfl hnone, ?_⟩
    exact iff_of_false (fun ⟨e, he, hne⟩ => hne (Except.error.inj he).symm)
      fun ⟨⟨c, hc⟩, _⟩ => hnone c hc

end

/-! ## A directory with a broken file -/

/-- What is computed on an image is loaded from its disk. -/
theorem exec_loaded {E : Type} {p : FsProg (Except E Manifest)} {i : Image} (h : i.Valid)
    {check : Manifest → Bool}
    (hcompute : ((computed p i).any fun r => r.toOption.any check) = true) :
    ∃ m, p.Exec (Disk.Outcome .none 2) (i.disk h) (.ok m) (i.disk h) ∧ check m = true := by
  obtain ⟨r, hr, hcheck⟩ := (any_eq_true _ _).mp hcompute
  obtain ⟨m, hm, hcheck⟩ := (any_eq_true _ _).mp hcheck
  obtain rfl := toOption_eq_some.mp hm
  exact ⟨m, exec_sorted (exec_computed h hr), hcheck⟩

/-- A file of a later second that is no manifest, and a saved one. -/
def brokenLater : Image where
  dirs := [manifestDir (ascii "m") (ascii "s")]
  names := [(manifestDir (ascii "m") (ascii "s") ++ slash :: ascii "1704067201_d.json", 0),
    (manifestDir (ascii "m") (ascii "s") ++ slash :: ascii "1704067200_d.json.zst", 1)]
  inodes := [(ascii "x", 5),
    (gbrEnvelope trashPrimitives (rawFrame (sampleManifest [ascii "b"]).marshal), 3)]

theorem brokenLater_valid : brokenLater.Valid := by decide

/-- The older one is loaded. -/
theorem loadLatestManifest_broken :
    ∃ m, (loadLatestManifest trashPrimitives none (ascii "m") (ascii "s")).Exec
        (Disk.Outcome .none 2) (brokenLater.disk brokenLater_valid) (.ok m)
        (brokenLater.disk brokenLater_valid) ∧
      m.allFiles.map FileEntry.name = [ascii "b"] ∧
      ∃ c, DatedFile (manifestDir (ascii "m") (ascii "s")) (brokenLater.disk brokenLater_valid) c ∧
        Loads trashPrimitives none (fun _ => False) (brokenLater.disk brokenLater_valid)
          (manifestDir (ascii "m") (ascii "s") ++ slash :: c.name) m := by
  have hcompute : ((computed (loadLatestManifest trashPrimitives none (ascii "m") (ascii "s"))
      brokenLater).any fun r => r.toOption.any fun m =>
        decide (m.allFiles.map FileEntry.name = [ascii "b"])) = true := by
    decide +kernel
  obtain ⟨m, hexec, hnames⟩ := exec_loaded brokenLater_valid hcompute
  have hyears : ∀ {c}, DatedFile (manifestDir (ascii "m") (ascii "s"))
      (brokenLater.disk brokenLater_valid) c → InYears c.unixSec := by
    intro c hc
    obtain ⟨data, time, hfile, -⟩ := hc.file
    obtain ⟨x, hx, -⟩ := Disk.file_eq_some.mp hfile
    have hnamed : c.name = ascii "1704067201_d.json" ∨ c.name = ascii "1704067200_d.json.zst" := by
      rcases mem_cons.mp (Image.mem_of_inode hx) with heq | hmem
      · exact .inl (cons.inj (append_cancel_left (Prod.mk.inj heq).1)).2
      · have heq := mem_singleton.mp hmem
        exact .inr (cons.inj (append_cancel_left (Prod.mk.inj heq).1)).2
    have hsecond := hc.second
    rcases hnamed with hname | hname
    · rw [hname, show nameSecond (ascii "1704067201_d.json") = some 1704067201 by decide] at hsecond
      rw [← Option.some.inj hsecond]
      exact ⟨by decide, by decide⟩
    · rw [hname, show nameSecond (ascii "1704067200_d.json.zst") = some 1704067200 by decide]
        at hsecond
      rw [← Option.some.inj hsecond]
      exact ⟨by decide, by decide⟩
  have hnewest := (loadLatestManifest_newest (cleanDir_manifestDir (by decide))
    (.inl mem_cons_self) hyears).2 _ _ hexec
  obtain ⟨c, hc, hload, -⟩ := (hnewest.2.1 m).mp rfl
  exact ⟨m, hexec, of_decide_eq_true hnames, c, hc, hload⟩

/-! ## A time behind the year 2262 -/

/-- Two manifests of one second, the first one changed in 2024 and the other one in 2300. -/
def laterCentury : Image where
  dirs := [manifestDir (ascii "m") (ascii "s")]
  names := [(manifestDir (ascii "m") (ascii "s") ++ slash :: ascii "1704067200_d.json.zst", 0),
    (manifestDir (ascii "m") (ascii "s") ++ slash :: ascii "1704067200_c.json.zst", 1)]
  inodes := [(gbrEnvelope trashPrimitives (rawFrame (sampleManifest [ascii "b"]).marshal),
      1704067200000000000),
    (gbrEnvelope trashPrimitives
      (rawFrame { sampleManifest [ascii "b"] with deviceID := ascii "c" }.marshal),
      10413792000000000000)]

theorem laterCentury_valid : laterCentury.Valid := by decide

/-- **The one of 2024 is returned**, though the other one can be loaded: in 2300 the nanoseconds
have wrapped around. -/
theorem loadLatestManifest_wraps :
    ∃ m m', (loadLatestManifest trashPrimitives none (ascii "m") (ascii "s")).Exec
        (Disk.Outcome .none 2) (laterCentury.disk laterCentury_valid) (.ok m)
        (laterCentury.disk laterCentury_valid) ∧
      m.deviceID = ascii "d" ∧
      Loads trashPrimitives none (fun _ => False) (laterCentury.disk laterCentury_valid)
        (manifestDir (ascii "m") (ascii "s") ++ slash :: ascii "1704067200_c.json.zst") m' ∧
      m'.deviceID = ascii "c" ∧
      ((laterCentury.disk laterCentury_valid).file
        (manifestDir (ascii "m") (ascii "s") ++ slash :: ascii "1704067200_d.json.zst")).map
          Prod.snd = some 1704067200000000000 ∧
      ((laterCentury.disk laterCentury_valid).file
        (manifestDir (ascii "m") (ascii "s") ++ slash :: ascii "1704067200_c.json.zst")).map
          Prod.snd = some 10413792000000000000 := by
  have hlatest : ((computed (loadLatestManifest trashPrimitives none (ascii "m") (ascii "s"))
      laterCentury).any fun r => r.toOption.any fun m => decide (m.deviceID = ascii "d")) = true := by
    decide +kernel
  have hother : ((computed (loadManifestFile trashPrimitives none
      (manifestDir (ascii "m") (ascii "s") ++ slash :: ascii "1704067200_c.json.zst"))
      laterCentury).any fun r => r.toOption.any fun m => decide (m.deviceID = ascii "c")) = true := by
    decide +kernel
  obtain ⟨m, hexec, hdevice⟩ := exec_loaded laterCentury_valid hlatest
  obtain ⟨m', hexec', hdevice'⟩ := exec_loaded laterCentury_valid hother
  exact ⟨m, m', hexec, of_decide_eq_true hdevice, Disk.exec_files hexec',
    of_decide_eq_true hdevice', rfl, rfl⟩

end GbfCore
