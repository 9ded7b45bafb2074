import GbfCore.Lib.Checks
import GbfCore.Lib.CleanPath
import GbfCore.Manifest.Manifest

/-!
# Structural validation (manifest_validate.go)

`validateStructure` runs before every save and after every load. It goes through the
directories, their files and subdirectories and compares the totals. What it
establishes is `Manifest.Structured` (`validateStructure_ok_iff`): a statement about
the set of directories, so that it does not matter in which order Go ranges over the
map. The order only decides which of several errors is returned; here it is the order
of the keys.
-/

namespace GbfCore

open List

variable {dirPath : Bytes} {m : Manifest}

/-! ## Names -/

/-- The errors of `validateManifestEntryName`. -/
inductive NameError where
  | emptyName
  | pathSeparator
  | dotName
deriving DecidableEq, Repr

/-- The errors of `validateManifestDirKey`. -/
inductive KeyError where
  | absolutePath
  | notNormalized
  | emptySegment
  | dotSegment
  | colonInSegment
deriving DecidableEq, Repr

/-- `validateManifestEntryName`. -/
def validateManifestEntryName (name : Bytes) : Except NameError Unit :=
  if name = [] then .error .emptyName
  else if slash ∈ name ∨ backslash ∈ name then .error .pathSeparator
  else if isDotName name then .error .dotName
  else .ok ()

/-- The loop over the segments of a key. -/
def validateSegments : List Bytes → Except KeyError Unit
  | [] => .ok ()
  | seg :: rest =>
    if seg = [] then .error .emptySegment
    else if isDotName seg then .error .dotSegment
    else if colon ∈ seg then .error .colonInSegment
    else validateSegments rest

/-- `validateManifestDirKey`. -/
def validateManifestDirKey (dirPath : Bytes) : Except KeyError Unit :=
  if dirPath = [] then .ok ()
  else if dirPath.head? = some slash then .error .absolutePath
  else if backslash ∈ dirPath then .error .notNormalized
  else validateSegments (splitSlash dirPath)

/-! ## Structure -/

/-- The errors of `ValidateStructure`. -/
inductive StructureError where
  | dirKey (dirPath : Bytes) (e : KeyError)
  | nilDir (dirPath : Bytes)
  | fileName (dirPath : Bytes) (i : Nat) (e : NameError)
  | duplicateName (dirPath name : Bytes)
  | negativeSize (name : Bytes) (size : Int)
  | negativeChunkSize (name : Bytes) (size : Int)
  | chunkSum (name : Bytes) (sum size : Int)
  | subDirName (dirPath name : Bytes) (e : NameError)
  | missingDir (dirPath name : Bytes)
  | fileCount (stats found : Int)
  | totalSize (stats found : Int)
deriving DecidableEq, Repr

/-- The totals of the loop. -/
structure Totals where
  fileCount : Int
  totalSize : Int
deriving DecidableEq, Repr

/-- Count a file. -/
def Totals.add (t : Totals) (f : FileEntry) : Totals :=
  ⟨t.fileCount + 1, wrap64 (t.totalSize + f.size)⟩

/-- The loop over the chunks of a file. -/
def validateChunks (name : Bytes) : List ChunkRef → Int → Except StructureError Int
  | [], sum => .ok sum
  | c :: cs, sum =>
    if c.size < 0 then .error (.negativeChunkSize name c.size)
    else validateChunks name cs (wrap64 (sum + c.size))

/-- The checks of one file; `seen` are the names before it. -/
def validateFile (dirPath : Bytes) (i : Nat) (seen : List Bytes) (f : FileEntry) :
    Except StructureError Unit :=
  ((validateManifestEntryName f.name).mapError (.fileName dirPath i)).bind fun _ =>
    if f.name ∈ seen then .error (.duplicateName dirPath f.name)
    else if f.size < 0 then .error (.negativeSize f.name f.size)
    else
      (validateChunks f.name f.chunks 0).bind fun sum =>
        if f.chunks ≠ [] ∧ f.isRestorable ∧ sum ≠ f.size then .error (.chunkSum f.name sum f.size)
        else .ok ()

/-- The loop over the files of a directory. -/
def validateFiles (dirPath : Bytes) :
    List FileEntry → (i : Nat) → (seen : List Bytes) → Totals → Except StructureError Totals
  | [], _, _, t => .ok t
  | f :: fs, i, seen, t =>
    (validateFile dirPath i seen f).bind fun _ =>
      validateFiles dirPath fs (i + 1) (f.name :: seen) (t.add f)

/-- The loop over the subdirectories of a directory. -/
def validateSubDirs (m : Manifest) (dirPath : Bytes) : List Bytes → Except StructureError Unit
  | [] => .ok ()
  | s :: rest =>
    ((validateManifestEntryName s).mapError (.subDirName dirPath s)).bind fun _ =>
      if m.lookupDir (childPath dirPath s) = none then .error (.missingDir dirPath s)
      else validateSubDirs m dirPath rest

/-- The checks of one directory. -/
def validateDir (m : Manifest) (e : Bytes × Option Dir) (t : Totals) :
    Except StructureError Totals :=
  ((validateManifestDirKey e.1).mapError (.dirKey e.1)).bind fun _ =>
    match e.2 with
    | none => .error (.nilDir e.1)
    | some d =>
      (validateFiles e.1 d.fileList 0 [] t).bind fun t' =>
        (validateSubDirs m e.1 d.subDirList).bind fun _ => .ok t'

/-- The loop over the directories. -/
def validateDirs (m : Manifest) :
    List (Bytes × Option Dir) → Totals → Except StructureError Totals
  | [], t => .ok t
  | e :: rest, t => (validateDir m e t).bind fun t' => validateDirs m rest t'

/-- `ValidateStructure`. -/
def Manifest.validateStructure (m : Manifest) : Except StructureError Unit :=
  (validateDirs m m.dirEntries ⟨0, 0⟩).bind fun t =>
    if m.stats.fileCount ≠ t.fileCount then .error (.fileCount m.stats.fileCount t.fileCount)
    else if m.stats.totalSize ≠ t.totalSize then .error (.totalSize m.stats.totalSize t.totalSize)
    else .ok ()

/-! ## What an accepted manifest is like -/

/-- A name that `validateManifestEntryName` accepts. -/
structure EntryName (name : Bytes) : Prop where
  ne_nil : name ≠ []
  slash : slash ∉ name
  backslash : backslash ∉ name
  dot : isDotName name = false

/-- A segment of a key that `validateManifestDirKey` accepts. -/
structure KeySegment (seg : Bytes) : Prop where
  ne_nil : seg ≠ []
  dot : isDotName seg = false
  colon : colon ∉ seg

/-- A key that `validateManifestDirKey` accepts. -/
def DirKey (dirPath : Bytes) : Prop :=
  dirPath = [] ∨ backslash ∉ dirPath ∧ ∀ seg ∈ splitSlash dirPath, KeySegment seg

/-- The wrapped sum of the chunk sizes. -/
def chunkSum (chunks : List ChunkRef) : Int := chunks.foldl (fun s c => wrap64 (s + c.size)) 0

/-- A file that is accepted, apart from its name being unique. -/
structure FileOk (f : FileEntry) : Prop where
  name : EntryName f.name
  size : 0 ≤ f.size
  chunkSize : ∀ c ∈ f.chunks, 0 ≤ c.size
  sum : f.chunks ≠ [] → f.isRestorable = true → chunkSum f.chunks = f.size

/-- A directory that is accepted. -/
structure DirOk (m : Manifest) (dirPath : Bytes) (d : Dir) : Prop where
  key : DirKey dirPath
  files : ∀ f ∈ d.fileList, FileOk f
  nodup : (d.fileList.map FileEntry.name).Nodup
  subDirs : ∀ s ∈ d.subDirList, EntryName s ∧ m.lookupDir (childPath dirPath s) ≠ none

/-- The files of all directories. -/
def Manifest.files (m : Manifest) : List FileEntry :=
  m.dirEntries.flatMap fun e =>
    match e.2 with
    | none => []
    | some d => d.fileList

/-- `SnapshotComplete` -/
def snapshotComplete : Bytes := ascii "complete"

/-- `SnapshotIncomplete` -/
def snapshotIncomplete : Bytes := ascii "incomplete"

/-- `DeriveCompleteness`. -/
def Manifest.deriveCompleteness (m : Manifest) : Bytes :=
  if 0 < m.stats.scanErrors then snapshotIncomplete
  else if m.files.any fun f => f.status = fileStatusLocked ∨ f.status = fileStatusError then
    snapshotIncomplete
  else snapshotComplete

/-- What `ValidateStructure` establishes. -/
structure Manifest.Structured (m : Manifest) : Prop where
  dirs : ∀ e ∈ m.dirEntries, ∃ d, e.2 = some d ∧ DirOk m e.1 d
  fileCount : m.stats.fileCount = m.files.length
  totalSize : m.stats.totalSize = m.files.foldl (fun s f => wrap64 (s + f.size)) 0

theorem validateManifestEntryName_ok {name : Bytes} :
    validateManifestEntryName name = .ok () ↔ EntryName name := by
  unfold validateManifestEntryName
  simp only [guard_eq_ok, not_or, and_true, Bool.not_eq_true]
  constructor
  · rintro ⟨hne, ⟨hslash, hback⟩, hdot⟩
    exact ⟨hne, hslash, hback, hdot⟩
  · rintro ⟨hne, hslash, hback, hdot⟩
    exact ⟨hne, ⟨hslash, hback⟩, hdot⟩

theorem validateSegments_ok {segs : List Bytes} :
    validateSegments segs = .ok () ↔ ∀ seg ∈ segs, KeySegment seg := by
  induction segs with
  | nil => simp [validateSegments]
  | cons seg rest ih =>
    simp only [validateSegments, guard_eq_ok, ih, forall_mem_cons, Bool.not_eq_true]
    constructor
    · rintro ⟨hne, hdot, hcolon, hrest⟩
      exact ⟨⟨hne, hdot, hcolon⟩, hrest⟩
    · rintro ⟨⟨hne, hdot, hcolon⟩, hrest⟩
      exact ⟨hne, hdot, hcolon, hrest⟩

theorem validateManifestDirKey_ok :
    validateManifestDirKey dirPath = .ok () ↔ DirKey dirPath := by
  unfold validateManifestDirKey DirKey
  split
  · rename_i hroot
    exact ⟨fun _ => .inl hroot, fun _ => rfl⟩
  · rename_i hroot
    simp only [guard_eq_ok, validateSegments_ok]
    constructor
    · rintro ⟨-, hback, hsegs⟩
      exact .inr ⟨hback, hsegs⟩
    · rintro (h | ⟨hback, hsegs⟩)
      · exact absurd h hroot
      · exact ⟨fun h => (hsegs _ (nil_mem_splitSlash h)).ne_nil rfl, hback, hsegs⟩

theorem validateChunks_ok {name : Bytes} {chunks : List ChunkRef} : ∀ {sum total : Int},
    validateChunks name chunks sum = .ok total ↔
      (∀ c ∈ chunks, 0 ≤ c.size) ∧ chunks.foldl (fun s c => wrap64 (s + c.size)) sum = total := by
  induction chunks with
  | nil =>
    intro sum total
    simp [validateChunks]
  | cons c cs ih =>
    intro sum total
    simp only [validateChunks, guard_eq_ok, ih, forall_mem_cons, foldl_cons, Int.not_lt,
      and_assoc]

theorem validateFile_ok {i : Nat} {seen : List Bytes} {f : FileEntry} :
    validateFile dirPath i seen f = .ok () ↔ FileOk f ∧ f.name ∉ seen := by
  rw [validateFile, then_eq_ok, mapError_eq_ok, validateManifestEntryName_ok]
  simp only [bind_eq_ok, guard_eq_ok, validateChunks_ok, Int.not_lt, and_true]
  constructor
  · rintro ⟨hname, hseen, hsize, sum, ⟨hchunks, rfl⟩, hsum⟩
    refine ⟨⟨hname, hsize, hchunks, ?_⟩, hseen⟩
    intro hne hrest
    by_contra hdiff
    exact hsum ⟨hne, hrest, hdiff⟩
  · rintro ⟨hok, hseen⟩
    refine ⟨hok.name, hseen, hok.size, chunkSum f.chunks, ⟨hok.chunkSize, rfl⟩, ?_⟩
    rintro ⟨hne, hrest, hdiff⟩
    exact hdiff (hok.sum hne hrest)

theorem validateFiles_ok {fs : List FileEntry} :
    ∀ {i : Nat} {seen : List Bytes} {t t' : Totals},
      validateFiles dirPath fs i seen t = .ok t' ↔
        (∀ f ∈ fs, FileOk f ∧ f.name ∉ seen) ∧ (fs.map FileEntry.name).Nodup ∧
          fs.foldl Totals.add t = t' := by
  induction fs with
  | nil =>
    intro i seen t t'
    simp [validateFiles]
  | cons f fs ih =>
    intro i seen t t'
    rw [validateFiles, then_eq_ok, validateFile_ok, ih, forall_mem_cons, map_cons,
      nodup_cons, foldl_cons]
    simp only [mem_cons, not_or]
    constructor
    · rintro ⟨hf, hfs, hnodup, hsum⟩
      refine ⟨⟨hf, fun g hg => ⟨(hfs g hg).1, (hfs g hg).2.2⟩⟩, ⟨?_, hnodup⟩, hsum⟩
      intro hmem
      obtain ⟨g, hg, hname⟩ := mem_map.mp hmem
      exact (hfs g hg).2.1 hname
    · rintro ⟨⟨hf, hfs⟩, ⟨hnew, hnodup⟩, hsum⟩
      refine ⟨hf, fun g hg => ⟨(hfs g hg).1, ?_, (hfs g hg).2⟩, hnodup, hsum⟩
      intro hname
      exact hnew (mem_map.mpr ⟨g, hg, hname⟩)

theorem validateSubDirs_ok {l : List Bytes} :
    validateSubDirs m dirPath l = .ok () ↔
      ∀ s ∈ l, EntryName s ∧ m.lookupDir (childPath dirPath s) ≠ none := by
  induction l with
  | nil => simp [validateSubDirs]
  | cons s rest ih =>
    rw [validateSubDirs, then_eq_ok, mapError_eq_ok, validateManifestEntryName_ok, guard_eq_ok, ih,
      forall_mem_cons, and_assoc]

/-- The totals after a directory. -/
def Totals.addDir (t : Totals) (e : Bytes × Option Dir) : Totals :=
  match e.2 with
  | none => t
  | some d => d.fileList.foldl Totals.add t

theorem validateDir_ok {e : Bytes × Option Dir} {t t' : Totals} :
    validateDir m e t = .ok t' ↔ (∃ d, e.2 = some d ∧ DirOk m e.1 d) ∧ t.addDir e = t' := by
  obtain ⟨dirPath, d⟩ := e
  rw [validateDir, then_eq_ok, mapError_eq_ok, validateManifestDirKey_ok, Totals.addDir]
  cases d with
  | none =>
    constructor
    · rintro ⟨-, h⟩
      cases h
    · rintro ⟨⟨d, hd, -⟩, -⟩
      cases hd
  | some d =>
    dsimp only
    rw [bind_eq_ok]
    simp only [validateFiles_ok, not_mem_nil, not_false_eq_true, and_true]
    constructor
    · rintro ⟨hkey, t₁, ⟨hfiles, hnodup, hsum⟩, hrest⟩
      obtain ⟨hsubs, heq⟩ := then_eq_ok.mp hrest
      cases heq
      exact ⟨⟨d, rfl, hkey, hfiles, hnodup, validateSubDirs_ok.mp hsubs⟩, hsum⟩
    · rintro ⟨⟨d', hd', hok⟩, hsum⟩
      cases hd'
      refine ⟨hok.key, t', ⟨hok.files, hok.nodup, hsum⟩, ?_⟩
      exact then_eq_ok.mpr ⟨validateSubDirs_ok.mpr hok.subDirs, rfl⟩

theorem validateDirs_ok {l : List (Bytes × Option Dir)} :
    ∀ {t t' : Totals}, validateDirs m l t = .ok t' ↔
      (∀ e ∈ l, ∃ d, e.2 = some d ∧ DirOk m e.1 d) ∧ l.foldl Totals.addDir t = t' := by
  induction l with
  | nil =>
    intro t t'
    simp [validateDirs]
  | cons e rest ih =>
    intro t t'
    simp only [validateDirs, bind_eq_ok, validateDir_ok, ih, forall_mem_cons, foldl_cons]
    constructor
    · rintro ⟨t₁, ⟨he, rfl⟩, hrest, hsum⟩
      exact ⟨⟨he, hrest⟩, hsum⟩
    · rintro ⟨⟨he, hrest⟩, hsum⟩
      exact ⟨_, ⟨he, rfl⟩, hrest, hsum⟩

/-- The totals of all directories are those of all files. -/
theorem foldl_addDir (l : List (Bytes × Option Dir)) (t : Totals) :
    l.foldl Totals.addDir t =
      (l.flatMap fun e =>
        match e.2 with
        | none => []
        | some d => d.fileList).foldl Totals.add t := by
  induction l generalizing t with
  | nil => rfl
  | cons e rest ih =>
    obtain ⟨p, d⟩ := e
    rw [foldl_cons, ih, flatMap_cons, foldl_append]
    cases d <;> rfl

theorem foldl_add (fs : List FileEntry) (t : Totals) :
    fs.foldl Totals.add t =
      ⟨t.fileCount + fs.length, fs.foldl (fun s f => wrap64 (s + f.size)) t.totalSize⟩ := by
  induction fs generalizing t with
  | nil => simp
  | cons f fs ih =>
    rw [foldl_cons, ih, length_cons, foldl_cons]
    simp only [Totals.add, Totals.mk.injEq, and_true]
    push_cast
    omega

/-- **`ValidateStructure` accepts exactly the structured manifests.** -/
theorem validateStructure_ok_iff :
    m.validateStructure = .ok () ↔ m.Structured := by
  have htotals : m.dirEntries.foldl Totals.addDir ⟨0, 0⟩ =
      ⟨m.files.length, m.files.foldl (fun s f => wrap64 (s + f.size)) 0⟩ := by
    rw [foldl_addDir]
    show m.files.foldl Totals.add ⟨0, 0⟩ = _
    rw [foldl_add, Int.zero_add]
  simp only [Manifest.validateStructure, bind_eq_ok, guard_eq_ok, validateDirs_ok, htotals, ne_eq,
    not_not, and_true]
  constructor
  · rintro ⟨t, ⟨hdirs, rfl⟩, hcount, hsize⟩
    exact ⟨hdirs, hcount, hsize⟩
  · rintro ⟨hdirs, hcount, hsize⟩
    exact ⟨_, ⟨hdirs, rfl⟩, hcount, hsize⟩

/-! ## Exact totals -/

namespace Manifest

/-- The totals that are compared, summed up without bounds. -/
structure ExactTotals (m : Manifest) : Prop where
  totalSize : (m.files.map FileEntry.size).sum = m.stats.totalSize
  chunks : ∀ f ∈ m.files, f.chunks ≠ [] → f.isRestorable = true →
    (f.chunks.map ChunkRef.size).sum = f.size

/-- None of the sums leaves the range of the accumulator. -/
structure SumsFit (m : Manifest) : Prop where
  totalSize : (m.files.map FileEntry.size).sum < 2 ^ 63
  chunks : ∀ f ∈ m.files, f.chunks ≠ [] → f.isRestorable = true →
    (f.chunks.map ChunkRef.size).sum < 2 ^ 63

end Manifest

theorem fileOk_of_mem_files (h : m.Structured) {f : FileEntry} (hf : f ∈ m.files) :
    FileOk f := by
  obtain ⟨e, he, hfe⟩ := mem_flatMap.mp hf
  obtain ⟨d, hd, hok⟩ := h.dirs e he
  rw [hd] at hfe
  exact hok.files f hfe

/-- **The totals of an accepted manifest are exact** if and only if the sums stay within
the accumulator. Every summand is non-negative, but nothing bounds their number. -/
theorem exactTotals_iff {m : Manifest} (h : m.validateStructure = .ok ()) :
    m.ExactTotals ↔ m.SumsFit := by
  have hm := validateStructure_ok_iff.mp h
  have htotal : (m.files.map FileEntry.size).sum = m.stats.totalSize ↔
      (m.files.map FileEntry.size).sum < 2 ^ 63 := by
    rw [hm.totalSize, foldl_wrap64_eq, eq_comm]
    exact wrap64_eq_self_iff (sum_map_nonneg fun f hf => (fileOk_of_mem_files hm hf).size)
  have hchunks : ∀ f ∈ m.files, f.chunks ≠ [] → f.isRestorable = true →
      ((f.chunks.map ChunkRef.size).sum = f.size ↔ (f.chunks.map ChunkRef.size).sum < 2 ^ 63) := by
    intro f hf hne hrest
    have hok := fileOk_of_mem_files hm hf
    rw [← hok.sum hne hrest, chunkSum, foldl_wrap64_eq, eq_comm]
    exact wrap64_eq_self_iff (sum_map_nonneg hok.chunkSize)
  constructor
  · rintro ⟨hsize, hsum⟩
    exact ⟨htotal.mp hsize, fun f hf hne hrest => (hchunks f hf hne hrest).mp (hsum f hf hne hrest)⟩
  · rintro ⟨hsize, hsum⟩
    exact ⟨htotal.mpr hsize,
      fun f hf hne hrest => (hchunks f hf hne hrest).mpr (hsum f hf hne hrest)⟩

/-- Files `a`, `b`, ... of these sizes in the root directory. -/
def sizedManifest (sizes : List Int) (total : Int) : Manifest :=
  let files := sizes.mapIdx fun i size => ⟨[0x61 + UInt8.ofNat i], [], size, [], 0, [], []⟩
  { Manifest.zero with
    dirs := some (SortedMap.empty.insert [] (some ⟨some files, none⟩))
    stats := { ManifestStats.zero with fileCount := sizes.length, totalSize := total } }

theorem exactTotals_small :
    (sizedManifest [1, 2] 3).validateStructure = .ok () ∧
      ((sizedManifest [1, 2] 3).ExactTotals ↔ (sizedManifest [1, 2] 3).SumsFit) :=
  ⟨by decide, exactTotals_iff (by decide)⟩

/-- Three files of `2 ^ 64` bytes together, and a total of 0. -/
theorem wrapped_total_accepted :
    (sizedManifest [2 ^ 63 - 1, 2 ^ 63 - 1, 2] 0).validateStructure = .ok () ∧
      ((sizedManifest [2 ^ 63 - 1, 2 ^ 63 - 1, 2] 0).files.map FileEntry.size).sum = 2 ^ 64 ∧
      (sizedManifest [2 ^ 63 - 1, 2 ^ 63 - 1, 2] 0).stats.totalSize = 0 := by
  decide

end GbfCore
