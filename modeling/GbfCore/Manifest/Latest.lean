import GbfCore.Manifest.SavedFiles
import GbfCore.Manifest.TrashSafety

/-!
# Two ways to select a snapshot (manifest.go, restore.go)

`LoadLatestManifest` orders the manifests of a source by the second in the name, then by the
time of the file, and takes the last one that can be loaded. `LoadManifestByTimestamp` takes
the first one of its second in the order of the names. In a directory that only saves have
written to, the timestamp of the latest snapshot selects that snapshot exactly if it has the
first name of its second (`timestamp_selects_latest_iff`); the second save of a device within
one second has not.
-/

namespace GbfCore

open Json List Prog Option

variable {a b : Candidate} {name : Bytes} {m : Manifest} {r : Except OpError Manifest} {α : Type}
  {entries : List DirEntry} {R : α → α → Prop}
variable {load : Bytes → Except LoadError Manifest} {time unix : Int}

/-! ## The first hit in a sorted list -/

theorem findSome?_pairwise {β : Type} {f : α → Option β} {l : List α} {b : β} (hl : l.Pairwise R)
    (h : l.findSome? f = some b) :
    ∃ a ∈ l, f a = some b ∧ ∀ a' ∈ l, f a' ≠ none → a' = a ∨ R a a' := by
  obtain ⟨l₁, a, l₂, rfl, ha, hnone⟩ := findSome?_eq_some_iff.mp h
  refine ⟨a, mem_append_right _ mem_cons_self, ha, fun a' ha' hne => ?_⟩
  rcases mem_append.mp ha' with ha' | ha'
  · exact absurd (hnone a' ha') hne
  rcases mem_cons.mp ha' with rfl | ha'
  · exact .inl rfl
  · exact .inr ((pairwise_cons.mp (pairwise_append.mp hl).2.1).1 a' ha')

/-- The first hit is the hit that comes before the others. -/
theorem findSome?_sorted {β : Type} {f : α → Option β} {l : List α} {b : β} (hl : l.Pairwise R)
    (hrefl : ∀ a, R a a) (hanti : ∀ {a b}, R a b → R b a → a = b) :
    l.findSome? f = some b ↔ ∃ a ∈ l, f a = some b ∧ ∀ a' ∈ l, f a' ≠ none → R a a' := by
  have hfirst : ∀ {b}, l.findSome? f = some b →
      ∃ a ∈ l, f a = some b ∧ ∀ a' ∈ l, f a' ≠ none → R a a' := by
    intro b h
    obtain ⟨a, ha, hb, hothers⟩ := findSome?_pairwise hl h
    refine ⟨a, ha, hb, fun a' ha' hne => ?_⟩
    rcases hothers a' ha' hne with rfl | hR
    · exact hrefl a'
    · exact hR
  refine ⟨hfirst, ?_⟩
  rintro ⟨a, ha, hb, hothers⟩
  cases hfound : l.findSome? f with
  | none => exact nomatch (findSome?_eq_none_iff.mp hfound a ha).symm.trans hb
  | some b₁ =>
    obtain ⟨a₁, ha₁, hb₁, hothers₁⟩ := hfirst hfound
    obtain rfl := hanti (hothers a₁ ha₁ (by rw [hb₁]; exact some_ne_none _))
      (hothers₁ a ha (by rw [hb]; exact some_ne_none _))
    exact hb₁.symm.trans hb

/-! ## Snapshots -/

/-- `ResolveCloudID`. -/
def resolveCloudID (deviceID : Bytes) (sourceID : Int) : Bytes :=
  if deviceID = [] then intText sourceID else manifestPathKey deviceID (intText sourceID)

/-- What of `RestoreConfig` selects the snapshot. -/
structure RestoreSelection where
  cloudID : Bytes
  deviceID : Bytes
  sourceID : Int
  timestamp : Bytes

/-- The source to restore. -/
def RestoreSelection.source (cfg : RestoreSelection) : Bytes :=
  if cfg.cloudID = [] then resolveCloudID cfg.deviceID cfg.sourceID else cfg.cloudID

/-- The order of the second, the time of the last change and the name. -/
def Candidate.UpTo (c' c : Candidate) : Prop :=
  c'.unixSec < c.unixSec ∨ c'.unixSec = c.unixSec ∧
    (c'.modNano < c.modNano ∨ c'.modNano = c.modNano ∧ c'.name ≤ c.name)

section
variable (P : Primitives) (hkdf : KeyDerivation) (hook : DecryptHook)

/-- The manifest that `SimpleRestore.Run` restores. -/
def selectManifest (metaDir : Bytes) (cfg : RestoreSelection) : FsProg (Except OpError Manifest) :=
  if cfg.timestamp ≠ [] then loadManifestByTimestamp P hook metaDir cfg.source cfg.timestamp
  else loadLatestManifest P hook metaDir cfg.source

/-- A manifest file that can be loaded, with its second and its time. -/
structure Snapshot (dir : Bytes) (d : Disk) (name : Bytes) (unix time : Int) (m : Manifest) :
    Prop where
  pathName : PathName name
  slash : slash ∉ name
  isManifest : isManifestFile name = true
  second : namePrefix unix <+: name
  file : ∃ data, d.file (dir ++ GbfCore.slash :: name) = some (data, time)
  loads : loadManifest P hook d.fs (dir ++ GbfCore.slash :: name) = .ok m

/-- No snapshot comes later in the order of the seconds, the times as `UnixNano` gives them and
the names. -/
def IsNewest (dir : Bytes) (d : Disk) (name : Bytes) (unix time : Int) : Prop :=
  ∀ {name' unix' time' m'}, Snapshot P hook dir d name' unix' time' m' →
    Candidate.UpTo ⟨name', unix', unixNano time'⟩ ⟨name, unix, unixNano time⟩

/-- The newest snapshot has the first name of its second. -/
def NewestFirst (dir : Bytes) (d : Disk) : Prop :=
  ∀ {name unix time m}, Snapshot P hook dir d name unix time m →
    IsNewest P hook dir d name unix time →
    ∀ {name' time' m'}, Snapshot P hook dir d name' unix time' m' → ¬ name' < name

/-- Decryption and decompression give back what was put in, or fail. -/
structure OpensOwn : Prop where
  unzip : ∀ limit d d', P.zstdDecompress limit (P.zstdCompress d) = some d' → d' = d
  decrypt : ∀ decrypt, hook = some decrypt → ∀ iv key p p',
    decrypt (encryptManifest P hkdf iv key p) = some p' → p' = p

variable {P hkdf hook}

/-! ## What a saved file is loaded to -/

theorem text_of_saved (hsha : P.DigestLength) (hzstd : P.ZstdLaws) (hopens : OpensOwn P hkdf hook)
    {key : Bytes} {iv : IV} {text : Bytes}
    (h : manifestText P hook (gbrEnvelope P (savePayload P hkdf key iv m)) = .ok text) :
    text = m.marshal := by
  have hzip : isCompressed (P.zstdCompress m.marshal) = true :=
    hzstd.isCompressed_compress _ (marshal_ne_nil m)
  have hopen : ∀ data, runDecryptHook hook (savePayload P hkdf key iv m) = .ok data →
      data = P.zstdCompress m.marshal := by
    intro data hdata
    unfold runDecryptHook savePayload at hdata
    by_cases hk : key = []
    · rw [if_pos hk, isGKM1_of_isCompressed hzip, if_neg (by decide)] at hdata
      exact (Except.ok.inj hdata).symm
    · rw [if_neg hk, isGKM1_encryptManifest, if_pos rfl] at hdata
      cases hhook : hook with
      | none =>
        rw [hhook] at hdata
        cases hdata
      | some decrypt =>
        rw [hhook] at hdata
        dsimp only at hdata
        split at hdata
        · cases hdata
        · rename_i plain hplain
          cases hdata
          exact hopens.decrypt decrypt hhook iv key _ _ hplain
  rw [manifestText_gbrEnvelope hsha] at h
  obtain ⟨data, hdata, hunzip⟩ := bind_eq_ok.mp h
  rw [hopen data hdata, decompressManifest, hzip, if_pos rfl] at hunzip
  split at hunzip
  · cases hunzip
  · rename_i plain hplain
    cases hunzip
    exact hopens.unzip _ _ _ hplain

theorem timestamp_ensureBelow (above names : List Bytes) (m : Manifest) :
    (m.ensureBelow above names).timestamp = m.timestamp := by
  induction names generalizing above m with
  | nil => rfl
  | cons child rest ih => exact ih _ _

theorem timestamp_addFile (m : Manifest) (f : FileEntry) :
    (m.addFile f).timestamp = m.timestamp := by
  unfold Manifest.addFile
  dsimp only
  split
  · rfl
  · exact timestamp_ensureBelow _ _ _

theorem timestamp_addEmptyDir (m : Manifest) (relPath : Bytes) :
    (m.addEmptyDir relPath).timestamp = m.timestamp := by
  unfold Manifest.addEmptyDir
  dsimp only
  split
  · rfl
  · split
    · split <;> rfl
    · refine (timestamp_ensureBelow _ _ _).trans ?_
      split <;> rfl

theorem timestamp_migrateV1Manifest (m : Manifest) (v : Value) :
    (migrateV1Manifest m v).timestamp = m.timestamp := by
  unfold migrateV1Manifest
  split
  · rfl
  · have hfold : ∀ {α : Type} {step : Manifest → α → Manifest},
        (∀ m a, (step m a).timestamp = m.timestamp) → ∀ (l : List α) (m : Manifest),
          (l.foldl step m).timestamp = m.timestamp := by
      intro α step hstep l
      induction l with
      | nil => exact fun _ => rfl
      | cons a l ih => exact fun m => (ih _).trans (hstep m a)
    dsimp only
    rw [hfold (fun m (d : V1EmptyDir) => timestamp_addEmptyDir m d.relPath),
      hfold timestamp_addFile]

/-- **What is loaded from the file of a save has its timestamp**, whatever the version. -/
theorem timestamp_of_saved (hsha : P.DigestLength) (hzstd : P.ZstdLaws)
    (hopens : OpensOwn P hkdf hook) {key : Bytes} {iv : IV} {m' : Manifest} {fs : FileSystem}
    {path : Bytes} (hm : m.Typed)
    (hread : fs.read path = some (gbrEnvelope P (savePayload P hkdf key iv m)))
    (hload : loadManifest P hook fs path = .ok m') :
    m'.timestamp = coerce m.timestamp ∧ m'.filePath = path := by
  rw [loadManifest, hread] at hload
  obtain ⟨-, -, hload⟩ := bind_eq_ok.mp hload
  obtain ⟨loaded, hdata, hm'⟩ := bind_eq_ok.mp hload
  obtain ⟨text, htext, hdecode⟩ := bind_eq_ok.mp hdata
  obtain rfl := text_of_saved hsha hzstd hopens htext
  rw [decodeManifest, parse_marshal] at hdecode
  dsimp only at hdecode
  rw [ofJson_coerce_toJson hm] at hdecode
  obtain ⟨-, hloaded⟩ := then_eq_ok.mp hdecode
  cases hloaded
  cases hm'
  refine ⟨?_, rfl⟩
  show Manifest.timestamp (if m.sanitized.version < 2 then _ else _) = _
  split
  · exact timestamp_migrateV1Manifest _ _
  · rfl

/-! ## The loaders -/

section
variable {d d' : Disk} {now : Int} {dir : Bytes} {faults : Disk.Faults}

theorem exec_sorted {p : FsProg α} {a : α} (h : p.Exec (Disk.SortedOutcome now) d a d') :
    p.Exec (Disk.Outcome .none now) d a d' :=
  exec_map id (fun hout => hout.1) h

/-- The listing of the manifests. -/
theorem exec_readManifestFiles_all (hio : ¬ faults.io) {r : Except FsError (List DirEntry)}
    (h : (readManifestFiles dir).Exec (Disk.Outcome faults now) d r d') :
    d' = d ∧ (d.isDir dir → ∃ entries, r = .ok entries) ∧
      (d.Absent dir → r = .error .notExist) ∧ ∀ entries, r = .ok entries →
      d.isDir dir ∧
      (∀ e ∈ entries, isManifestFile e.name = true ∧ d.file (dir ++ slash :: e.name) ≠ none) ∧
      ∀ name, PathName name → slash ∉ name → isManifestFile name = true →
        d.file (dir ++ slash :: name) ≠ none → ∃ e ∈ entries, e.name = name := by
  obtain ⟨listed, d₁, hread, hfilter⟩ := exec_bind.mp h
  obtain ⟨raw, d₂, hraw, hentries⟩ := exec_call hread
  obtain rfl := hraw.readDir
  obtain ⟨rfl, rfl⟩ := hentries
  obtain ⟨rfl, rfl⟩ := hfilter
  rcases raw with e | raw
  · obtain ⟨hnot, he⟩ := hraw.answers.resolve_left hio
    refine ⟨rfl, fun hisDir => absurd hisDir hnot, fun habsent => ?_, fun _ hok => nomatch hok⟩
    rw [he.mpr habsent.1]
    rfl
  obtain ⟨hisDir, hlists⟩ : d'.isDir dir ∧ d'.Lists dir raw := hraw.answers
  refine ⟨rfl, fun _ => ⟨_, rfl⟩, fun habsent => absurd hisDir habsent.2, ?_⟩
  rintro _ ⟨⟩
  refine ⟨hisDir, fun e he => ?_, ?_⟩
  · obtain ⟨hmem, hname⟩ := mem_filter.mp he
    obtain ⟨hmem, hfile⟩ := mem_filter.mp hmem
    exact ⟨hname, fun hnone => hlists.isFile e hmem (by simpa using hfile)
      (Disk.file_eq_none.mp hnone)⟩
  · intro name hname hslash hmanifest hfile
    have hinode : d'.fs.inode (dir ++ slash :: name) ≠ none :=
      fun hnone => hfile (Disk.file_eq_none.mpr hnone)
    obtain ⟨e, he, rfl⟩ := hlists.all hname hslash fun habsent => hinode habsent.1
    refine ⟨e, mem_filter.mpr ⟨mem_filter.mpr ⟨he, ?_⟩, hmanifest⟩, rfl⟩
    cases hdir : e.isDir with
    | false => rfl
    | true => exact absurd (d'.apart (hlists.isDir e he hdir)) hinode

/-- `os.ReadDir` lists in the order of the names. -/
theorem pairwise_readManifestFiles
    (h : (readManifestFiles dir).Exec (Disk.SortedOutcome now) d (.ok entries) d') :
    entries.Pairwise fun a b => a.name < b.name := by
  obtain ⟨listed, d₁, hread, hfilter⟩ := exec_bind.mp h
  obtain ⟨raw, d₂, hraw, hentries⟩ := exec_call hread
  obtain ⟨-, hsorted⟩ := hraw
  obtain ⟨rfl, rfl⟩ := hentries
  obtain ⟨hret, -⟩ := hfilter
  rcases raw with e | raw
  · cases hret
  · cases hret
    exact (List.Pairwise.filter _ hsorted).filter _

/-- The first of these files that can be loaded. -/
theorem exec_loadFirst
    (hload : ∀ {name r d'}, (loadManifestFile P hook (pathJoin [dir, name])).Exec
      (Disk.Outcome faults now) d r d' → r = load name) {names : List Bytes}
    {firstErr : Option LoadError} {r : Except (Option LoadError) Manifest}
    (h : (loadFirst P hook dir names firstErr).Exec (Disk.Outcome faults now) d r d') :
    d' = d ∧ (r.toOption = names.findSome? fun name => (load name).toOption) ∧
      (r = .error none ↔ names = [] ∧ firstErr = none) := by
  induction names generalizing firstErr with
  | nil =>
    obtain ⟨rfl, rfl⟩ := h
    exact ⟨rfl, rfl, by simp⟩
  | cons name rest ih =>
    obtain ⟨loaded, d₁, hfile, h⟩ := exec_bind.mp h
    obtain rfl := exec_isLook (isLook_loadManifestFile P hook _) hfile
    obtain rfl := hload hfile
    rw [findSome?_cons]
    cases hname : load name with
    | error e =>
      rw [hname] at h
      obtain ⟨hd, hfirst, hnone⟩ := ih h
      exact ⟨hd, hfirst, hnone.trans (by cases firstErr <;> simp)⟩
    | ok m =>
      rw [hname] at h
      obtain ⟨rfl, rfl⟩ := h
      exact ⟨rfl, rfl, by simp⟩

/-- A manifest file whose name tells a second, with what `LoadLatestManifest` orders it by. -/
structure IsCandidate (dir : Bytes) (d : Disk) (c : Candidate) : Prop where
  pathName : PathName c.name
  slash : slash ∉ c.name
  isManifest : isManifestFile c.name = true
  second : ∃ ts, parseManifestFilenameTimestamp c.name = some ts ∧
    c.unixSec = ((parseRFC3339 ts).map Prod.fst).getD 0
  file : ∃ data time, d.file (dir ++ GbfCore.slash :: c.name) = some (data, time) ∧
    c.modNano = unixNano time

theorem exec_candidates (hio : ¬ faults.io) {found : List Candidate}
    (hfiles : ∀ e ∈ entries, d.file (pathJoin [dir, e.name]) ≠ none)
    (h : (candidates dir entries).Exec (Disk.Outcome faults now) d found d') :
    d' = d ∧ ∀ c, c ∈ found ↔ (∃ e ∈ entries, e.name = c.name) ∧
      (∃ ts, parseManifestFilenameTimestamp c.name = some ts ∧
        c.unixSec = ((parseRFC3339 ts).map Prod.fst).getD 0) ∧
      ∃ data time, d.file (pathJoin [dir, c.name]) = some (data, time) ∧
        c.modNano = unixNano time := by
  induction entries generalizing d found with
  | nil =>
    obtain ⟨rfl, rfl⟩ := h
    exact ⟨rfl, fun c => by simp⟩
  | cons e rest ih =>
    obtain ⟨hfile, hfiles⟩ := forall_mem_cons.mp hfiles
    unfold candidates at h
    cases hparse : parseManifestFilenameTimestamp e.name with
    | none =>
      rw [hparse] at h
      obtain ⟨rfl, hrest⟩ := ih hfiles h
      refine ⟨rfl, fun c => (hrest c).trans ?_⟩
      rw [exists_mem_cons_iff]
      refine and_congr_left fun ⟨⟨ts, hts, _⟩, _⟩ => (or_iff_right fun hname => ?_).symm
      rw [← hname, hparse] at hts
      cases hts
    | some ts =>
      rw [hparse] at h
      obtain ⟨info, d₁, hstat, hrest⟩ := exec_call h
      obtain rfl : d₁ = d := Disk.ext hstat.files hstat.dates hstat.dirs
      obtain ⟨tail, d₂, htail, hret⟩ := exec_bind.mp hrest
      obtain ⟨rfl, rfl⟩ := hret
      obtain ⟨rfl, hrest⟩ := ih hfiles htail
      refine ⟨rfl, fun c => ?_⟩
      obtain ⟨⟨data, time⟩, hsome⟩ := ne_none_iff_exists'.mp hfile
      obtain ⟨x, hx, -, htime⟩ := Disk.file_eq_some.mp hsome
      have hinfo : (info.toOption.map unixNano).getD 0 = unixNano time := by
        rcases info with err | t
        · obtain ⟨-, habsent⟩ := hstat.answers.resolve_left hio
          rw [habsent.1] at hx
          cases hx
        · exact congrArg unixNano ((hstat.answers.2 x hx).trans htime)
      rw [hinfo, mem_cons, hrest, exists_mem_cons_iff, or_and_right]
      refine or_congr_left ⟨?_, ?_⟩
      · rintro rfl
        exact ⟨rfl, ⟨ts, hparse, rfl⟩, data, time, hsome, rfl⟩
      · rintro ⟨hname, ⟨ts', hts, hsec⟩, data', time', hdata, hnano⟩
        rw [← hname, hparse] at hts
        rw [← hname, hsome] at hdata
        cases hts
        cases c
        cases hdata
        cases hname
        cases hsec
        cases hnano
        rfl

end

/-! ## The order of the candidates -/

theorem newer_iff : a.newer b = true ↔
    b.unixSec < a.unixSec ∨ b.unixSec = a.unixSec ∧
      (b.modNano < a.modNano ∨ b.modNano = a.modNano ∧ b.name < a.name) := by
  unfold Candidate.newer
  split
  · rename_i h
    rw [decide_eq_true_eq]
    omega
  · rename_i h
    have hsec : a.unixSec = b.unixSec := not_not.mp h
    split
    · rename_i hne
      rw [decide_eq_true_eq]
      omega
    · rename_i hmod
      have hmod : a.modNano = b.modNano := not_not.mp hmod
      rw [decide_eq_true_eq, hsec, hmod]
      simp

/-- Not newer: the order that `sort.Slice` sorts by. -/
def Candidate.before (a b : Candidate) : Bool := !b.newer a

theorem before_iff : a.before b = true ↔
    b.unixSec < a.unixSec ∨ b.unixSec = a.unixSec ∧
      (b.modNano < a.modNano ∨ b.modNano = a.modNano ∧ ¬ a.name < b.name) := by
  rw [Candidate.before, Bool.not_eq_true', ← Bool.not_eq_true, newer_iff]
  by_cases hname : a.name < b.name <;> simp only [hname, and_true, and_false, not_true_eq_false,
    not_false_eq_true, or_false] <;> omega

theorem upTo_iff : b.UpTo a ↔ a.before b = true := before_iff.symm

theorem before_trans {c : Candidate} (hab : a.before b = true) (hbc : b.before c = true) :
    a.before c = true := by
  rw [before_iff] at hab hbc ⊢
  have hnames : ¬ a.name < b.name → ¬ b.name < c.name → ¬ a.name < c.name :=
    fun (h : b.name ≤ a.name) (h' : c.name ≤ b.name) => List.le_trans h' h
  rcases hab with hab | ⟨hab, hab' | ⟨hab', hab''⟩⟩
  · exact .inl (by omega)
  · rcases hbc with hbc | ⟨hbc, hbc' | ⟨hbc', -⟩⟩
    · exact .inl (by omega)
    · exact .inr ⟨by omega, .inl (by omega)⟩
    · exact .inr ⟨by omega, .inl (by omega)⟩
  · rcases hbc with hbc | ⟨hbc, hbc' | ⟨hbc', hbc''⟩⟩
    · exact .inl (by omega)
    · exact .inr ⟨by omega, .inl (by omega)⟩
    · exact .inr ⟨by omega, .inr ⟨by omega, hnames hab'' hbc''⟩⟩

theorem before_total (a b : Candidate) : (a.before b || b.before a) = true := by
  rw [Bool.or_eq_true, before_iff, before_iff]
  rcases List.le_total a.name b.name with h | h
  · have h : ¬ b.name < a.name := h
    simp only [h, not_false_eq_true, and_true]
    omega
  · have h : ¬ a.name < b.name := h
    simp only [h, not_false_eq_true, and_true]
    omega

theorem before_refl (a : Candidate) : a.before a = true :=
  (Bool.or_self _).symm.trans (before_total a a)

theorem before_antisymm (hab : a.before b = true) (hba : b.before a = true) :
    a = b := by
  rw [before_iff] at hab hba
  obtain ⟨hsec, hmod⟩ : a.unixSec = b.unixSec ∧ a.modNano = b.modNano := by omega
  have hle := ((hab.resolve_left (by omega)).2.resolve_left (by omega)).2
  have hge := ((hba.resolve_left (by omega)).2.resolve_left (by omega)).2
  have hname : a.name = b.name := List.le_antisymm hge hle
  cases a
  cases b
  simp_all

theorem pairwise_sorted (found : List Candidate) :
    (found.insertionSort fun a b => !b.newer a).Pairwise fun a b => a.before b = true := by
  have : Std.Total fun a b : Candidate => a.before b = true :=
    ⟨fun a b => Bool.or_eq_true_iff.mp (before_total a b)⟩
  have : IsTrans Candidate fun a b => a.before b = true := ⟨fun _ _ _ => before_trans⟩
  exact pairwise_insertionSort (fun a b : Candidate => a.before b = true) found

/-! ## The latest manifest -/

section
variable {metaDir cloudID : Bytes} {d d' : Disk} {now : Int} {faults : Disk.Faults}

/-- **`LoadLatestManifest` goes through the candidates, newest first.** -/
theorem exec_latest (hio : ¬ faults.io) (hclean : CleanDir (manifestDir metaDir cloudID))
    (hload : ∀ {name r d'}, (loadManifestFile P hook
      (pathJoin [manifestDir metaDir cloudID, name])).Exec (Disk.Outcome faults now) d r d' →
        r = load name)
    (h : (loadLatestManifest P hook metaDir cloudID).Exec (Disk.Outcome faults now) d r d') :
    d' = d ∧ (d.Absent (manifestDir metaDir cloudID) → r = .error .notFound) ∧
      (∀ m, r = .ok m → d.isDir (manifestDir metaDir cloudID)) ∧
      (d.isDir (manifestDir metaDir cloudID) → ∃ sorted : List Candidate,
        (∀ c, c ∈ sorted ↔ IsCandidate (manifestDir metaDir cloudID) d c) ∧
        (sorted.Pairwise fun a b => a.before b = true) ∧
        (r.toOption = sorted.findSome? fun c => (load c.name).toOption) ∧
        (r = .error .notFound ↔ sorted = [])) := by
  obtain ⟨listing, d₁, hlisting, hrest⟩ := exec_bind.mp h
  obtain ⟨rfl, hthere, hgone, hlisted⟩ := exec_readManifestFiles_all hio hlisting
  rcases listing with e | entries
  · have hnot : ¬ d₁.isDir (manifestDir metaDir cloudID) := by
      intro hisDir
      obtain ⟨_, heq⟩ := hthere hisDir
      cases heq
    have hfails : ∀ (e : OpError) (m : Manifest), Except.error e ≠ Except.ok m := by
      intro e m heq
      cases heq
    cases e with
    | notExist =>
      obtain ⟨rfl, rfl⟩ := hrest
      exact ⟨rfl, fun _ => rfl, fun m heq => absurd heq (hfails _ m),
        fun hisDir => absurd hisDir hnot⟩
    | _ =>
      have hthere : ¬ d₁.Absent (manifestDir metaDir cloudID) := by
        intro habsent
        cases hgone habsent
      obtain ⟨rfl, rfl⟩ := hrest
      exact ⟨rfl, fun habsent => absurd habsent hthere, fun m heq => absurd heq (hfails _ m),
        fun hisDir => absurd hisDir hnot⟩
  obtain ⟨hisDir, hfiles, hall⟩ := hlisted entries rfl
  have hjoin : ∀ {name}, PathName name → slash ∉ name →
      pathJoin [manifestDir metaDir cloudID, name] = manifestDir metaDir cloudID ++ slash :: name :=
    fun hname hslash => hclean.join (names_of_notMem hname hslash)
  obtain ⟨found, d₂, hfound, htry⟩ := exec_bind.mp hrest
  obtain ⟨rfl, hcands⟩ := exec_candidates hio
    (fun e he => by rw [hjoin e.pathName e.slash]; exact (hfiles e he).2) hfound
  obtain ⟨first, d₃, htry, hret⟩ := exec_bind.mp htry
  obtain ⟨rfl, hfirst, hempty⟩ := exec_loadFirst hload htry
  rw [findSome?_map] at hfirst
  have hmem : ∀ c, c ∈ found ↔ IsCandidate (manifestDir metaDir cloudID) d₃ c := by
    intro c
    rw [hcands]
    constructor
    · rintro ⟨⟨e, he, hname⟩, hsecond, hfile⟩
      have hpath : PathName c.name := hname ▸ e.pathName
      have hslash : slash ∉ c.name := hname ▸ e.slash
      rw [hjoin hpath hslash] at hfile
      exact ⟨hpath, hslash, hname ▸ (hfiles e he).1, hsecond, hfile⟩
    · rintro ⟨hpath, hslash, hmanifest, hsecond, hfile⟩
      refine ⟨hall c.name hpath hslash hmanifest ?_, hsecond, ?_⟩
      · obtain ⟨data, time, hfile, -⟩ := hfile
        rw [hfile]
        exact some_ne_none _
      · rwa [hjoin hpath hslash]
  have hresult : d' = d₃ ∧ r.toOption = first.toOption ∧
      (r = .error .notFound ↔ first = .error none) := by
    rcases first with (_ | err) | m
    · obtain ⟨rfl, rfl⟩ := hret
      exact ⟨rfl, rfl, by simp⟩
    · obtain ⟨rfl, rfl⟩ := hret
      exact ⟨rfl, rfl, by simp⟩
    · obtain ⟨rfl, rfl⟩ := hret
      exact ⟨rfl, rfl, by simp⟩
  obtain ⟨rfl, hsame, hnotFound⟩ := hresult
  refine ⟨rfl, fun habsent => absurd hisDir habsent.2, fun _ _ => hisDir, fun _ =>
    ⟨_, fun c => (mem_insertionSort _).trans (hmem c), pairwise_sorted found, hsame.trans hfirst, ?_⟩⟩
  rw [hnotFound, hempty, and_iff_left rfl, map_eq_nil_iff]

end

/-! ## In a directory of saves -/

section
variable {metaDir cloudID : Bytes} {events : List RepoEvent} {d d' : Disk} {now : Int}
variable (hcloud : PathNames cloudID)
variable (hdir : SavedDir P hkdf (manifestDir metaDir cloudID) events d)

theorem namePrefix_savedName {unix' : Int} {deviceID : Bytes} {n : Nat} {bytes : Bytes}
    (hbegins : namePrefix unix <+: savedName unix' deviceID n bytes) : unix = unix' := by
  have hfront : ∀ {u : Int} {s : Bytes},
      (namePrefix u ++ s).takeWhile (· != underscore) = intText u := by
    intro u s
    have hall : ∀ b ∈ intText u, (b != underscore) = true := by
      intro b hb
      have hne : b ≠ underscore :=
        fun heq => notMem_intText (i := u) (by decide) (by decide) (heq ▸ hb)
      simpa using hne
    have hsplit : namePrefix u ++ s = intText u ++ underscore :: s := by
      simp [namePrefix, ascii, underscore]
    rw [hsplit, takeWhile_append_of_pos hall, takeWhile_cons_of_neg (by decide),
      append_nil]
  obtain ⟨s, hs⟩ := hbegins
  refine intText_inj ?_
  rw [← hfront (u := unix) (s := s), hs, savedName, hfront]

include hdir

/-- Every file of the directory is one of its saves. -/
theorem second_saved {data : Bytes}
    (hfile : d.file (manifestDir metaDir cloudID ++ slash :: name) = some (data, time)) :
    ∃ unix, (∃ event, SavedAs P hkdf event unix name data) ∧
      ∃ ts, parseManifestFilenameTimestamp name = some ts ∧
        unix = ((parseRFC3339 ts).map Prod.fst).getD 0 := by
  obtain ⟨event, -, unix, hwritten⟩ := hdir hfile
  obtain ⟨m, key, env, n, bytes, -, -, ⟨⟨nsec, hparse⟩, hlo, hhi⟩, hname, -⟩ := id hwritten
  obtain ⟨h64, h64'⟩ := parseRFC3339_bounds hparse
  refine ⟨unix, ⟨event, hwritten⟩, formatRFC3339 unix, ?_, ?_⟩
  · rw [hname, parseManifestFilenameTimestamp_savedName ⟨h64, h64'⟩]
  · rw [parseRFC3339_format h64 h64' hlo hhi]
    rfl

include hcloud

/-- **`LoadLatestManifest` returns the newest snapshot.** -/
theorem exec_loadLatestManifest
    (h : (loadLatestManifest P hook metaDir cloudID).Exec (Disk.SortedOutcome now) d (.ok m) d') :
    d' = d ∧ d.isDir (manifestDir metaDir cloudID) ∧
      ∃ name unix time, Snapshot P hook (manifestDir metaDir cloudID) d name unix time m ∧
        IsNewest P hook (manifestDir metaDir cloudID) d name unix time := by
  have hclean : CleanDir (manifestDir metaDir cloudID) := cleanDir_manifestDir hcloud
  obtain ⟨rfl, -, hisDir, hsorted⟩ := exec_latest not_false hclean
    (fun hload => (exec_loadManifest_disk hload).1) (exec_sorted h)
  obtain ⟨sorted, hmem, hpairwise, hfirst, -⟩ := hsorted (hisDir m rfl)
  obtain ⟨c, hc, hloads, hothers⟩ := findSome?_pairwise hpairwise hfirst.symm
  have hcand := (hmem c).mp hc
  obtain ⟨data, time, hfile, hnano⟩ := hcand.file
  obtain ⟨unix, ⟨event, _, _, _, _, _, _, _, _, hname, _⟩, ts, hts, hunix⟩ :=
    second_saved hdir hfile
  obtain ⟨ts', hts', hsec⟩ := hcand.second
  cases hts.symm.trans hts'
  rw [← hunix] at hsec
  have hkeys : (⟨c.name, unix, unixNano time⟩ : Candidate) = c := by
    rw [← hsec, ← hnano]
  have hjoin : ∀ {name}, PathName name → slash ∉ name →
      pathJoin [manifestDir metaDir cloudID, name] = manifestDir metaDir cloudID ++ slash :: name :=
    fun hname hslash => hclean.join (names_of_notMem hname hslash)
  refine ⟨rfl, hisDir m rfl, c.name, unix, time,
    ⟨hcand.pathName, hcand.slash, hcand.isManifest, ?_, ⟨data, hfile⟩, ?_⟩, ?_⟩
  · rw [hname]
    exact prefix_append _ _
  · rw [← hjoin hcand.pathName hcand.slash]
    exact toOption_eq_some.mp hloads
  · intro name' unix' time' m' hsnap
    obtain ⟨data', hfile'⟩ := hsnap.file
    obtain ⟨unix'', ⟨_, _, _, _, _, _, _, _, _, hname', _⟩, hsecond'⟩ := second_saved hdir hfile'
    have hsecond := hsnap.second
    rw [hname'] at hsecond
    obtain rfl := namePrefix_savedName hsecond
    have hsome : (loadManifest P hook d'.fs
        (pathJoin [manifestDir metaDir cloudID, name'])).toOption ≠ none := by
      rw [hjoin hsnap.pathName hsnap.slash, hsnap.loads]
      exact some_ne_none _
    rw [hkeys, upTo_iff]
    rcases hothers ⟨name', unix', unixNano time'⟩ ((hmem _).mpr ⟨hsnap.pathName, hsnap.slash,
      hsnap.isManifest, hsecond', data', time', hfile', rfl⟩) hsome with heq | hbefore
    · rw [heq]
      exact before_refl c
    · exact hbefore

omit hdir in
/-- **`LoadManifestByTimestamp` returns the snapshot with the first name of the second**, if
there is one. -/
theorem exec_loadManifestByTimestamp {timestamp : Bytes} {nsec : Nat}
    (hparse : parseRFC3339 timestamp = some (unix, nsec))
    (hisDir : d.isDir (manifestDir metaDir cloudID))
    (hsnap : Snapshot P hook (manifestDir metaDir cloudID) d name unix time m)
    (h : (loadManifestByTimestamp P hook metaDir cloudID timestamp).Exec (Disk.SortedOutcome now) d
      r d') :
    ∃ name₁ time₁ m₁, r = .ok m₁ ∧
      Snapshot P hook (manifestDir metaDir cloudID) d name₁ unix time₁ m₁ ∧
      ∀ {name' time' m'}, Snapshot P hook (manifestDir metaDir cloudID) d name' unix time' m' →
        ¬ name' < name₁ := by
  have hclean : CleanDir (manifestDir metaDir cloudID) := cleanDir_manifestDir hcloud
  rw [loadManifestByTimestamp, hparse] at h
  obtain ⟨listing, d₁, hlisting, hrest⟩ := exec_bind.mp h
  obtain ⟨rfl, hthere, -, hlisted⟩ := exec_readManifestFiles_all not_false (exec_sorted hlisting)
  obtain ⟨entries, rfl⟩ := hthere hisDir
  have hsorted := pairwise_readManifestFiles hlisting
  obtain ⟨-, hfiles, hall⟩ := hlisted entries rfl
  have hjoin : ∀ e ∈ entries, pathJoin [manifestDir metaDir cloudID, e.name] =
      manifestDir metaDir cloudID ++ slash :: e.name :=
    fun e _ => hclean.join (names_of_notMem e.pathName e.slash)
  obtain ⟨first, d₂, hfirst, hret⟩ := exec_bind.mp hrest
  obtain ⟨rfl, hfirst, -⟩ := exec_loadFirst (fun hload => (exec_loadManifest_disk hload).1)
    (exec_sorted hfirst)
  have hnames : ((entries.map DirEntry.name).filter fun name =>
      decide (namePrefix unix <+: name)).Pairwise (· < ·) :=
    (pairwise_map.mpr hsorted).filter _
  -- every snapshot of the second is tried
  have htried : ∀ {name' time' m'},
      Snapshot P hook (manifestDir metaDir cloudID) d₂ name' unix time' m' →
      name' ∈ (entries.map DirEntry.name).filter (fun name => decide (namePrefix unix <+: name)) ∧
        (loadManifest P hook d₂.fs (pathJoin [manifestDir metaDir cloudID, name'])).toOption =
          some m' := by
    intro name' time' m' hsnap'
    obtain ⟨data', hfile'⟩ := hsnap'.file
    obtain ⟨e', he', rfl⟩ := hall name' hsnap'.pathName hsnap'.slash hsnap'.isManifest
      (by rw [hfile']; exact some_ne_none _)
    refine ⟨mem_filter.mpr ⟨mem_map_of_mem he', decide_eq_true hsnap'.second⟩, ?_⟩
    rw [hjoin e' he', hsnap'.loads]
    rfl
  obtain ⟨m₁, hm₁⟩ : ∃ m₁, first.toOption = some m₁ := by
    rw [hfirst]
    refine ne_none_iff_exists'.mp fun hnone => ?_
    have hno := findSome?_eq_none_iff.mp hnone name (htried hsnap).1
    exact nomatch hno.symm.trans (htried hsnap).2
  obtain rfl := toOption_eq_some.mp hm₁
  obtain ⟨rfl, rfl⟩ := hret
  obtain ⟨name₁, hmem, hloads, hothers⟩ := findSome?_pairwise hnames hfirst.symm
  obtain ⟨hmem, hsecond⟩ := mem_filter.mp hmem
  obtain ⟨e, he, rfl⟩ := mem_map.mp hmem
  obtain ⟨⟨data, time₁⟩, hfile⟩ := ne_none_iff_exists'.mp (hfiles e he).2
  refine ⟨e.name, time₁, m₁, rfl, ⟨e.pathName, e.slash, (hfiles e he).1,
    of_decide_eq_true hsecond, ⟨data, hfile⟩, ?_⟩, ?_⟩
  · rw [← hjoin e he]
    exact toOption_eq_some.mp hloads
  · intro name' time' m' hsnap' hlt
    obtain ⟨hmem', hloads'⟩ := htried hsnap'
    rcases hothers name' hmem' (by rw [hloads']; exact some_ne_none _) with rfl | hlt'
    · exact List.lt_irrefl _ hlt
    · exact List.lt_asymm hlt hlt'

end

/-! ## The two together -/

section
variable {metaDir cloudID : Bytes} {start d d₁ d₂ : Disk} {events : List RepoEvent}

/-- `LoadLatestManifest` fails if there is no file. -/
theorem file_of_loadLatest {now : Int}
    (h : (loadLatestManifest P hook metaDir cloudID).Exec (Disk.SortedOutcome now) d (.ok m) d₁) :
    ∃ name, d.file (manifestDir metaDir cloudID ++ slash :: name) ≠ none := by
  obtain ⟨listing, d', hlisting, hrest⟩ := exec_bind.mp h
  obtain ⟨rfl, -, -, hlisted⟩ := exec_readManifestFiles_all not_false (exec_sorted hlisting)
  rcases listing with e | entries
  · cases e <;> exact nomatch hrest.1
  cases entries with
  | nil =>
    obtain ⟨found, d₂, hfound, hload⟩ := exec_bind.mp hrest
    obtain ⟨rfl, rfl⟩ := hfound
    obtain ⟨first, d₃, hfirst, hret⟩ := exec_bind.mp hload
    obtain ⟨rfl, rfl⟩ := hfirst
    exact nomatch hret.1
  | cons e rest => exact ⟨e.name, ((hlisted _ rfl).2.1 e mem_cons_self).2⟩

/-- **The timestamp of a snapshot is of its second**, and its path is that of its file. -/
theorem saved_of_snapshot (hsha : P.DigestLength) (hzstd : P.ZstdLaws)
    (hopens : OpensOwn P hkdf hook) {dir : Bytes} (hdir : SavedDir P hkdf dir events d)
    (h : Snapshot P hook dir d name unix time m) :
    (∃ nsec, parseRFC3339 m.timestamp = some (unix, nsec)) ∧ m.filePath = dir ++ slash :: name := by
  obtain ⟨data, hfile⟩ := h.file
  obtain ⟨e, -, unix', m₀, key, env, n, bytes, -, htyped, ⟨⟨nsec, hparse⟩, -⟩, hname, hdata⟩ :=
    hdir hfile
  have hsecond := h.second
  rw [hname] at hsecond
  obtain rfl := namePrefix_savedName hsecond
  have hread : d.fs.read (dir ++ slash :: name) =
      some (gbrEnvelope P (savePayload P hkdf key env.iv m₀)) := by
    rw [Disk.read_eq_file, hfile, hdata]
    rfl
  obtain ⟨htime, hpath⟩ := timestamp_of_saved hsha hzstd hopens htyped hread h.loads
  refine ⟨⟨nsec, ?_⟩, hpath⟩
  rw [htime, coerce_of_valid (validString_of_ascii (ascii_of_parseRFC3339 hparse)), hparse]

/-- **In a directory that only saves have written to, the timestamp of the latest snapshot
selects that snapshot exactly if it has the first name of its second.** A restore with the
timestamp and one without select by the two. -/
theorem timestamp_selects_latest_iff (hsha : P.DigestLength) (hzstd : P.ZstdLaws)
    (hopens : OpensOwn P hkdf hook)
    (hrun : RepoRun P hkdf hook metaDir start events d)
    (hstart : ∀ name, start.file (manifestDir metaDir cloudID ++ slash :: name) = none)
    (hsaves : ∀ e ∈ events, e.SavesFor cloudID) {now now' : Int} {m : Manifest}
    {r : Except OpError Manifest}
    (hlatest : (loadLatestManifest P hook metaDir cloudID).Exec (Disk.SortedOutcome now) d (.ok m)
      d₁)
    (hby : (loadManifestByTimestamp P hook metaDir cloudID m.timestamp).Exec
      (Disk.SortedOutcome now') d₁ r d₂) :
    (r = .ok m ↔ NewestFirst P hook (manifestDir metaDir cloudID) d) ∧
      ∀ cfg : RestoreSelection, cfg.source = cloudID →
        selectManifest P hook metaDir { cfg with timestamp := [] } =
            loadLatestManifest P hook metaDir cloudID ∧
          selectManifest P hook metaDir { cfg with timestamp := m.timestamp } =
            loadManifestByTimestamp P hook metaDir cloudID m.timestamp := by
  have hdir : SavedDir P hkdf (manifestDir metaDir cloudID) events d :=
    savedDir_run hrun hstart hsaves
  have hne : events ≠ [] := by
    obtain ⟨name, hfile⟩ := file_of_loadLatest hlatest
    obtain ⟨⟨data, time⟩, hfile⟩ := ne_none_iff_exists'.mp hfile
    obtain ⟨e, he, -⟩ := hdir hfile
    exact ne_nil_of_mem he
  have hcloud := (validateCloudID_ok (validateCloudID_of_saves hrun hsaves hne)).2
  obtain ⟨rfl, hisDir, name, unix, time, hsnap, hnewest⟩ :=
    exec_loadLatestManifest hcloud hdir hlatest
  obtain ⟨⟨nsec, hparse⟩, hpath⟩ := saved_of_snapshot hsha hzstd hopens hdir hsnap
  obtain ⟨name₁, time₁, m₁, rfl, hsnap₁, hfirst⟩ :=
    exec_loadManifestByTimestamp hcloud hparse hisDir hsnap hby
  refine ⟨⟨?_, ?_⟩, ?_⟩
  · intro heq
    cases heq
    have hpath₁ := (saved_of_snapshot hsha hzstd hopens hdir hsnap₁).2
    obtain rfl : name = name₁ :=
      (cons.inj (append_cancel_left (hpath.symm.trans hpath₁))).2
    -- only one snapshot is the newest
    intro name₂ unix₂ time₂ m₂ hsnap₂ hnewest₂ name' time' m' hsnap'
    have hsame := before_antisymm (upTo_iff.mp (hnewest hsnap₂)) (upTo_iff.mp (hnewest₂ hsnap))
    obtain ⟨rfl, rfl, -⟩ := Candidate.mk.inj hsame
    exact hfirst hsnap'
  · intro hnewestFirst
    obtain rfl : name₁ = name := List.le_antisymm (hfirst hsnap) (hnewestFirst hsnap hnewest hsnap₁)
    rw [Except.ok.inj (hsnap₁.loads.symm.trans hsnap.loads)]
  · rintro cfg rfl
    have hset : m.timestamp ≠ [] := by
      intro hempty
      have hnone : parseRFC3339 [] = none := by decide
      rw [hempty, hnone] at hparse
      cases hparse
    exact ⟨rfl, if_pos hset⟩

end

end

/-! ## Two saves -/

theorem trashPrimitives_opens : OpensOwn trashPrimitives sampleHkdf none where
  unzip limit d d' h := by
    obtain ⟨-, heq⟩ := ite_none_right_eq_some.mp h
    rw [← Option.some.inj heq]
    exact drop_rawFrame d
  decrypt _ h := nomatch h

/-- The second save of a second, with a suffix at hand. -/
def saveAgain (m : Manifest) : RepoOp :=
  .save m [] { sampleInputs with
    uuid := ascii "1"
    uuid_slash := by decide
    random := fun _ => some [0x0a, 0x0b, 0x0c]
    random_length := by
      rintro _ _ ⟨⟩
      rfl }

/-- What a program computes on an image, with every listing in order. -/
def computed {α : Type} (p : FsProg α) (i : Image) : Option α :=
  (Image.run 2 p i).bind fun q =>
    if q.2.2 = i ∧ ∀ ev ∈ q.2.1, Disk.Sorted ev.1 ev.2 then some q.1 else none

theorem exec_computed {p : FsProg α} {i : Image} {a : α} (h : i.Valid) (hp : computed p i = some a) :
    p.Exec (Disk.SortedOutcome 2) (i.disk h) a (i.disk h) := by
  obtain ⟨⟨b, log, i'⟩, hrun, hb⟩ := bind_eq_some_iff.mp hp
  obtain ⟨⟨hi, hlog⟩, hb⟩ := ite_none_right_eq_some.mp hb
  cases hb
  dsimp only at hi hlog
  subst hi
  exact exec_of_record_forall (Image.record_run h h hrun) hlog

/-- What the two loaders return, the one with the timestamp that the other returned. -/
def bothLoaders (i : Image) : Option (Manifest × Except OpError Manifest) :=
  (computed (loadLatestManifest trashPrimitives none (ascii "m") (ascii "s")) i).bind fun latest =>
    latest.toOption.bind fun m =>
      (computed (loadManifestByTimestamp trashPrimitives none (ascii "m") (ascii "s") m.timestamp)
        i).map fun r => (m, r)

theorem exec_bothLoaders {i : Image} (h : i.Valid) (hboth : bothLoaders i = some (m, r)) :
    (loadLatestManifest trashPrimitives none (ascii "m") (ascii "s")).Exec (Disk.SortedOutcome 2)
        (i.disk h) (.ok m) (i.disk h) ∧
      (loadManifestByTimestamp trashPrimitives none (ascii "m") (ascii "s") m.timestamp).Exec
        (Disk.SortedOutcome 2) (i.disk h) r (i.disk h) := by
  obtain ⟨latest, hlatest, hrest⟩ := bind_eq_some_iff.mp hboth
  obtain ⟨m₁, hm₁, hrest⟩ := bind_eq_some_iff.mp hrest
  obtain ⟨r₁, hr₁, heq⟩ := map_eq_some_iff.mp hrest
  cases heq
  obtain rfl := toOption_eq_some.mp hm₁
  exact ⟨exec_computed h hlatest, exec_computed h hr₁⟩

/-- Saves of the sample source that were completed. -/
theorem savesFor_completed {ops : List (RepoOp × Int)} {events : List RepoEvent} {d : Disk}
    (hrun : RepoRun trashPrimitives sampleHkdf none (ascii "m") .empty events d)
    (hdone : Completed ops events)
    (hops : ∀ p ∈ ops, ∃ m key env unix, p.1 = .save m key env ∧ m.saveCloudID = ascii "s" ∧
      m.Typed ∧ m.Dated unix) : ∀ e ∈ events, e.SavesFor (ascii "s") := by
  intro e he
  have hmem : (e.op, e.now) ∈ ops := by
    rw [← mem_reverse, ← hdone.1]
    exact mem_map_of_mem he
  obtain ⟨m, key, env, unix, hop, hcloud, htyped, hdated⟩ := hops _ hmem
  obtain ⟨hok, hfaults⟩ := hdone.2 e he
  refine ⟨m, key, env, unix, hop, hok, hcloud, htyped, hdated, ?_⟩
  obtain ⟨d₁, d₂, r, hrecord, -⟩ := takes_of_mem hrun he
  rw [hfaults] at hrecord
  exact record_forall failure_ne_exist hrecord

/-- A manifest of the sample device is saved, then another one within the same second. -/
def savedTwice (m : Manifest) : List (RepoOp × Int) :=
  [(saveSample (ascii "a") (ascii "0") sampleInputs.uuid_slash, 0), (saveAgain m, 1)]

/-- The two saves and the two loaders behind them, computed. -/
theorem exec_savedTwice (m₀ : Manifest) (check : Manifest → Except OpError Manifest → Bool)
    (hcloud : m₀.saveCloudID = ascii "s") (htyped : m₀.Typed)
    (htime : m₀.timestamp = ascii "2024-01-01T00:00:00Z")
    (hcompute : ((Image.runOps trashPrimitives sampleHkdf none (ascii "m") (savedTwice m₀) []
      .empty).any fun p => decide p.2.Valid && (bothLoaders p.2).any fun q => check q.1 q.2) = true) :
    ∃ events d m r, RepoRun trashPrimitives sampleHkdf none (ascii "m") .empty events d ∧
      Completed (savedTwice m₀) events ∧ (∀ e ∈ events, e.SavesFor (ascii "s")) ∧
      (loadLatestManifest trashPrimitives none (ascii "m") (ascii "s")).Exec
        (Disk.SortedOutcome 2) d (.ok m) d ∧
      (loadManifestByTimestamp trashPrimitives none (ascii "m") (ascii "s") m.timestamp).Exec
        (Disk.SortedOutcome 2) d r d ∧ check m r = true := by
  obtain ⟨⟨events, i⟩, hops, hfacts⟩ := (any_eq_true _ _).mp hcompute
  obtain ⟨hvalid, hboth⟩ := Bool.and_eq_true_iff.mp hfacts
  obtain ⟨⟨m, r⟩, hboth, hcheck⟩ := (any_eq_true _ _).mp hboth
  obtain ⟨hrun, hdone⟩ := repoRun_empty (of_decide_eq_true hvalid) hops
  obtain ⟨hlatest, hby⟩ := exec_bothLoaders (of_decide_eq_true hvalid) hboth
  have hdated : ∀ {m : Manifest}, m.timestamp = ascii "2024-01-01T00:00:00Z" →
      m.Dated 1704067200 := by
    intro m h
    refine ⟨⟨0, ?_⟩, by decide⟩
    rw [h]
    decide
  have hops : ∀ p ∈ savedTwice m₀, ∃ m key env unix, p.1 = .save m key env ∧
      m.saveCloudID = ascii "s" ∧ m.Typed ∧ m.Dated unix := by
    simp only [savedTwice, forall_mem_cons, not_mem_nil, false_implies, implies_true,
      and_true]
    exact ⟨⟨_, _, _, _, rfl, by decide, by decide, hdated rfl⟩,
      ⟨_, _, _, _, rfl, hcloud, htyped, hdated htime⟩⟩
  exact ⟨events, _, m, r, hrun, hdone, savesFor_completed hrun hdone hops, hlatest, hby, hcheck⟩

/-- Two devices save within a second, and the name of the second one sorts first. -/
theorem timestamp_selects_latest_devices :
    ∃ (events : List RepoEvent) (d : Disk) (m : Manifest),
      RepoRun trashPrimitives sampleHkdf none (ascii "m") .empty events d ∧
      Completed (savedTwice { sampleManifest [ascii "b"] with deviceID := ascii "c" }) events ∧
      (loadLatestManifest trashPrimitives none (ascii "m") (ascii "s")).Exec
        (Disk.SortedOutcome 2) d (.ok m) d ∧
      (loadManifestByTimestamp trashPrimitives none (ascii "m") (ascii "s") m.timestamp).Exec
        (Disk.SortedOutcome 2) d (.ok m) d ∧
      m.deviceID = ascii "c" ∧
      NewestFirst trashPrimitives none (manifestDir (ascii "m") (ascii "s")) d := by
  obtain ⟨events, d, m, r, hrun, hdone, hsaves, hlatest, hby, hcheck⟩ :=
    exec_savedTwice { sampleManifest [ascii "b"] with deviceID := ascii "c" }
      (fun m r => decide (r.toOption = some m ∧ m.deviceID = ascii "c")) (by decide) (by decide) rfl
      (by decide +kernel)
  obtain ⟨hsame, hdevice⟩ := of_decide_eq_true hcheck
  obtain rfl := toOption_eq_some.mp hsame
  exact ⟨events, _, m, hrun, hdone, hlatest, hby, hdevice,
    (timestamp_selects_latest_iff (withDigests_digest _ manifestPrimitives_digest)
      (withDigests_zstd _ manifestPrimitives_zstd) trashPrimitives_opens hrun (fun _ => rfl) hsaves
      hlatest hby).1.mp rfl⟩

/-- **The timestamp of the latest snapshot selects another one**: the second save has a suffix in
its name, and the first one is listed before it. -/
theorem timestamp_selects_other :
    ∃ (events : List RepoEvent) (d : Disk) (m m' : Manifest),
      RepoRun trashPrimitives sampleHkdf none (ascii "m") .empty events d ∧
      Completed (savedTwice (sampleManifest [ascii "b"])) events ∧
      (∀ e ∈ events, e.SavesFor (ascii "s")) ∧
      (loadLatestManifest trashPrimitives none (ascii "m") (ascii "s")).Exec
        (Disk.SortedOutcome 2) d (.ok m) d ∧
      (loadManifestByTimestamp trashPrimitives none (ascii "m") (ascii "s") m.timestamp).Exec
        (Disk.SortedOutcome 2) d (.ok m') d ∧
      m.filePath = ascii "m/manifests/s/1704067200_d_0a0b0c.json.zst" ∧
      m.allFiles.map FileEntry.name = [ascii "b"] ∧
      m'.allFiles.map FileEntry.name = [ascii "a"] := by
  obtain ⟨events, d, m, r, hrun, hdone, hsaves, hlatest, hby, hcheck⟩ :=
    exec_savedTwice (sampleManifest [ascii "b"])
      (fun m r => decide (m.filePath = ascii "m/manifests/s/1704067200_d_0a0b0c.json.zst" ∧
        m.allFiles.map FileEntry.name = [ascii "b"] ∧
        (r.toOption.map fun m' => m'.allFiles.map FileEntry.name) = some [ascii "a"]))
      (by decide) (by decide) rfl (by decide +kernel)
  obtain ⟨hpath, hb, ha⟩ := of_decide_eq_true hcheck
  obtain ⟨m', hm', ha'⟩ := map_eq_some_iff.mp ha
  obtain rfl := toOption_eq_some.mp hm'
  exact ⟨events, _, m, m', hrun, hdone, hsaves, hlatest, hby, hpath, hb, ha'⟩

end GbfCore
