import GbfCore.Lib.Checked
import GbfCore.Lib.Inside
import GbfCore.Manifest.Assemble
import GbfCore.Manifest.Alive

/-!
# Loading with checked operations (manifest.go, manifest_validate.go)

`LoadManifestFromData` and the functions that go through a manifest, written with the
operations that can panic. `LoadManifestFromData` agrees with its model that knows no panics
on every text, and the others do so on every manifest that `ValidateStructure` accepts.
-/

namespace GbfCore

open Json List

variable {m : Manifest} {files : List FileEntry}

/-! ## The last slash -/

/-- `strings.LastIndex(p, "/")`; `none` is -1. -/
def lastSlash (p : Bytes) : Option Nat :=
  let behind := (p.reverse.takeWhile (· != slash)).length
  if behind < p.length then some (p.length - 1 - behind) else none

theorem lastSlash_of_notMem {p : Bytes} (h : slash ∉ p) : lastSlash p = none := by
  have hall : p.reverse.takeWhile (· != slash) = p.reverse :=
    takeWhile_eq_self_iff.mpr (all_ne_slash_reverse h)
  rw [lastSlash, hall, length_reverse]
  exact if_neg (Nat.lt_irrefl _)

theorem lastSlash_append {a b : Bytes} (h : slash ∉ b) :
    lastSlash (a ++ slash :: b) = some a.length := by
  have hbehind : (a ++ slash :: b).reverse.takeWhile (· != slash) = b.reverse := by
    rw [reverse_append, reverse_cons, append_assoc,
      takeWhile_append_of_pos (all_ne_slash_reverse h)]
    simp
  rw [lastSlash, hbehind, length_reverse]
  have hlength : (a ++ slash :: b).length = a.length + (b.length + 1) := length_append
  rw [hlength, if_pos (by omega)]
  exact congrArg some (by omega)

/-- Cut at the last slash, if there is one. -/
theorem cut_at_lastSlash (p : Bytes) :
    slash ∉ p ∨ ∃ a b, slash ∉ b ∧ p = a ++ slash :: b := by
  by_cases h : slash ∈ p
  · obtain ⟨b, a, hp, hb⟩ := eq_append_cons_of_mem (mem_reverse.mpr h)
    refine .inr ⟨a.reverse, b.reverse, fun hmem => hb (mem_reverse.mp hmem), ?_⟩
    have hreverse := congrArg List.reverse hp
    simpa using hreverse
  · exact .inl h

namespace Checked

/-! ## What a document begins with -/

/-- `len(data) >= size && string(data[:len(magic)]) == magic` -/
def startsWith (size : Nat) (magic data : Bytes) : Checked Bool :=
  if size ≤ data.length then do
    let front ← sliceTo data magic.length
    return decide (front = magic)
  else return false

theorem startsWith_eq {size : Nat} {magic : Bytes} (h : magic.length ≤ size) (data : Bytes) :
    startsWith size magic data =
      .ok (decide (size ≤ data.length) && decide (data.take magic.length = magic)) := by
  unfold startsWith
  split
  · rename_i hsize
    rw [ok_bind (sliceTo_ok (h.trans hsize)), decide_eq_true hsize, Bool.true_and]
    rfl
  · rename_i hsize
    rw [decide_eq_false hsize, Bool.false_and]
    rfl

/-- `isGBREnvelope`. -/
def isGBREnvelope (data : Bytes) : Checked Bool :=
  startsWith registryEnvelopeHeaderSize registryEnvelopeMagic data

theorem isGBREnvelope_eq (data : Bytes) : isGBREnvelope data = .ok (GbfCore.isGBREnvelope data) :=
  startsWith_eq (by decide) data

/-- `len(data) >= MagicSize && string(data[:MagicSize]) == GKM1Magic` -/
def isGKM1 (data : Bytes) : Checked Bool := startsWith magicSize gkm1Magic data

theorem isGKM1_eq (data : Bytes) : isGKM1 data = .ok (GbfCore.isGKM1 data) :=
  startsWith_eq (by decide) data

/-- `ZstdCompressor.IsCompressed`. -/
def isCompressed (data : Bytes) : Checked Bool := startsWith 4 zstdMagic data

theorem isCompressed_eq (data : Bytes) : isCompressed data = .ok (GbfCore.isCompressed data) :=
  startsWith_eq (by decide) data

section
variable (P : Primitives) (hook : DecryptHook)

/-- `stripGBREnvelope`. -/
def stripGBREnvelope (data : Bytes) : Checked (Option Bytes) := do
  let want ← slice data registryEnvelopeMagic.length registryEnvelopeHeaderSize
  let payload ← sliceFrom data registryEnvelopeHeaderSize
  return if want = P.sha256 payload then some payload else none

/-- It is called behind `isGBREnvelope`. -/
theorem stripGBREnvelope_eq {data : Bytes} (h : GbfCore.isGBREnvelope data = true) :
    stripGBREnvelope P data = .ok (GbfCore.stripGBREnvelope P data) := by
  have hsize : registryEnvelopeHeaderSize ≤ data.length :=
    of_decide_eq_true (Bool.and_eq_true_iff.mp h).1
  rw [stripGBREnvelope, ok_bind (slice_ok (by decide) hsize), ok_bind (sliceFrom_ok hsize)]
  rfl

/-- The envelope, in `LoadManifestFromData`. -/
def unwrapEnvelope (data : Bytes) : Checked (Except LoadError Bytes) := do
  if ← isGBREnvelope data then
    match ← stripGBREnvelope P data with
    | none => return .error .envelopeMismatch
    | some data => return .ok data
  else return .ok data

theorem unwrapEnvelope_eq (data : Bytes) :
    unwrapEnvelope P data = .ok (GbfCore.unwrapEnvelope P data) := by
  rw [unwrapEnvelope, ok_bind (isGBREnvelope_eq data), GbfCore.unwrapEnvelope]
  split
  · rename_i h
    rw [ok_bind (stripGBREnvelope_eq P h)]
    cases GbfCore.stripGBREnvelope P data <;> rfl
  · rfl

/-- The encryption, in `LoadManifestFromData`. -/
def runDecryptHook (data : Bytes) : Checked (Except LoadError Bytes) := do
  if ← isGKM1 data then
    match hook with
    | none => return .error .noHook
    | some decrypt =>
      match decrypt data with
      | none => return .error .decrypt
      | some data => return .ok data
  else return .ok data

theorem runDecryptHook_eq (data : Bytes) :
    runDecryptHook hook data = .ok (GbfCore.runDecryptHook hook data) := by
  unfold runDecryptHook GbfCore.runDecryptHook
  rw [ok_bind (isGKM1_eq data)]
  split
  · cases hook with
    | none => rfl
    | some decrypt =>
      dsimp only
      cases decrypt data <;> rfl
  · rfl

/-- The compression, in `LoadManifestFromData`. -/
def decompressManifest (data : Bytes) : Checked (Except LoadError Bytes) := do
  if ← isCompressed data then
    match P.zstdDecompress maxManifestDecompressedSize data with
    | none => return .error .decompress
    | some data => return .ok data
  else return .ok data

theorem decompressManifest_eq (data : Bytes) :
    decompressManifest P data = .ok (GbfCore.decompressManifest P data) := by
  rw [decompressManifest, ok_bind (isCompressed_eq data), GbfCore.decompressManifest]
  split
  · cases P.zstdDecompress maxManifestDecompressedSize data <;> rfl
  · rfl

/-- The text in a manifest file. -/
def manifestText (data : Bytes) : Checked (Except LoadError Bytes) := do
  match ← unwrapEnvelope P data with
  | .error e => return .error e
  | .ok data =>
    match ← runDecryptHook hook data with
    | .error e => return .error e
    | .ok data => decompressManifest P data

theorem manifestText_eq (data : Bytes) :
    manifestText P hook data = .ok (GbfCore.manifestText P hook data) := by
  rw [manifestText, ok_bind (unwrapEnvelope_eq P data), GbfCore.manifestText]
  cases GbfCore.unwrapEnvelope P data with
  | error e => rfl
  | ok data =>
    dsimp only
    rw [ok_bind (runDecryptHook_eq hook data)]
    show _ = Except.ok ((GbfCore.runDecryptHook hook data).bind _)
    cases GbfCore.runDecryptHook hook data with
    | error e => rfl
    | ok data => exact decompressManifest_eq P data

end

/-! ## Building the directories of version 1 -/

/-- What stands before and behind the last slash. -/
def splitLast (p : Bytes) : Checked (Bytes × Bytes) :=
  match lastSlash p with
  | some idx => do
    let dir ← sliceTo p idx
    let base ← sliceFrom p (idx + 1)
    return (dir, base)
  | none => return ([], p)

theorem splitLast_eq (p : Bytes) : splitLast p = .ok (GbfCore.splitLast p) := by
  unfold splitLast
  rcases cut_at_lastSlash p with h | ⟨a, b, hb, rfl⟩
  · rw [lastSlash_of_notMem h, splitLast_of_notMem h]
    rfl
  · have hlength : (a ++ slash :: b).length = a.length + (b.length + 1) := length_append
    have hdrop : (a ++ slash :: b).drop (a.length + 1) = b := by
      rw [drop_append]
      simp
    rw [lastSlash_append hb, splitLast_append hb]
    dsimp only
    rw [ok_bind (sliceTo_ok (by omega)), ok_bind (sliceFrom_ok (by omega)), take_left, hdrop]
    rfl

/-- `d, ok := m.Dirs[path]`, a new entry where there is none, and what `d` points to. -/
def openDir (m : Manifest) (path : Bytes) : Checked Dir :=
  match m.lookupDir path with
  | some d => deref d
  | none => if m.dirs.isNone then .error .nilMap else return .zero

/-- A manifest under construction: the map is there, and none of its pointers is nil. -/
structure Built (m : Manifest) : Prop where
  made : m.dirs.isNone = false
  present : ∀ path, m.lookupDir path ≠ some none

theorem built_setDir (h : Built m) (path : Bytes) (d : Dir) :
    Built (m.setDir path d) := by
  refine ⟨rfl, fun path' => ?_⟩
  have hpresent := h.present path'
  unfold Manifest.lookupDir at hpresent ⊢
  cases hdirs : m.dirs with
  | none => exact absurd h.made (by rw [hdirs]; decide)
  | some dirs =>
    rw [hdirs] at hpresent
    simp only [Manifest.setDir, hdirs, Option.getD_some, SortedMap.lookup_insert]
    split
    · rintro ⟨⟩
    · exact hpresent

theorem openDir_eq (h : Built m) (path : Bytes) :
    openDir m path = .ok (m.dirAt path) := by
  unfold openDir Manifest.dirAt
  have hpresent := h.present path
  cases hlookup : m.lookupDir path with
  | none =>
    dsimp only
    rw [h.made]
    rfl
  | some d =>
    cases d with
    | none => exact absurd hlookup hpresent
    | some d => rfl

/-- The loop of `ensureParentDirs`, with `n` rounds to go. -/
def ensureFrom (parts : List Bytes) : (n i : Nat) → Manifest → Checked Manifest
  | 0, _, m => return m
  | n + 1, i, m => do
    let above ← sliceTo parts i
    let child ← index parts i
    let pd ← openDir m (joinSlash above)
    ensureFrom parts n (i + 1) (m.setDir (joinSlash above) (pd.addSubDir child))

/-- `ensureParentDirs`. -/
def ensureParentDirs (m : Manifest) (dirPath : Bytes) : Checked Manifest :=
  ensureFrom (splitSlash dirPath) (splitSlash dirPath).length 0 m

theorem ensureFrom_eq (parts : List Bytes) :
    ∀ {n i : Nat} {m : Manifest}, Built m → i + n = parts.length →
      ensureFrom parts n i m = .ok (m.ensureBelow (parts.take i) (parts.drop i)) ∧
        Built (m.ensureBelow (parts.take i) (parts.drop i))
  | 0, i, m, hm, hi => by
    have hnil : parts.drop i = [] := drop_eq_nil_of_le (by omega)
    rw [hnil]
    exact ⟨rfl, hm⟩
  | n + 1, i, m, hm, hi => by
    have hlt : i < parts.length := by omega
    have hle : i ≤ parts.length := by omega
    have hstep := ensureFrom_eq parts (n := n) (i := i + 1)
      (built_setDir hm (joinSlash (parts.take i)) ((m.dirAt (joinSlash (parts.take i))).addSubDir
        parts[i])) (by omega)
    rw [ensureFrom, ok_bind (sliceTo_ok hle), ok_bind (index_ok hlt),
      ok_bind (openDir_eq hm _), drop_eq_getElem_cons hlt, Manifest.ensureBelow]
    rw [take_succ_eq_append_getElem hlt] at hstep
    exact hstep

theorem ensureParentDirs_eq (h : Built m) (dirPath : Bytes) :
    ensureParentDirs m dirPath = .ok (m.ensureParentDirs dirPath) ∧
      Built (m.ensureParentDirs dirPath) :=
  ensureFrom_eq _ h (Nat.zero_add _)

/-- `AddFile`. -/
def addFile (m : Manifest) (entry : FileEntry) : Checked Manifest := do
  let p := normalizeManifestPath entry.name
  let (dir, base) ← splitLast p
  let d ← openDir m dir
  let m := m.setDir dir { d with files := some (d.fileList ++ [{ entry with name := base }]) }
  let m := { m with stats := { m.stats with
    fileCount := m.stats.fileCount + 1
    totalSize := wrap64 (m.stats.totalSize + entry.size) } }
  if dir = [] then return m else ensureParentDirs m dir

theorem addFile_eq (h : Built m) (entry : FileEntry) :
    addFile m entry = .ok (m.addFile entry) ∧ Built (m.addFile entry) := by
  unfold addFile Manifest.addFile
  rw [ok_bind (splitLast_eq _)]
  dsimp only
  rw [ok_bind (openDir_eq h _)]
  have hset : ∀ d stats, Built { m.setDir (GbfCore.splitLast
      (normalizeManifestPath entry.name)).1 d with stats := stats } := by
    intro d stats
    exact ⟨(built_setDir h _ d).made, (built_setDir h _ d).present⟩
  split
  · exact ⟨rfl, hset _ _⟩
  · exact ensureParentDirs_eq (hset _ _) _

/-- An entry of its own for a directory that has none. -/
def ensureDir (m : Manifest) (p : Bytes) : Checked Manifest :=
  if (m.lookupDir p).isSome then return m
  else do
    let d ← openDir m p
    return m.setDir p d

theorem ensureDir_eq (h : Built m) (p : Bytes) :
    ensureDir m p = .ok (if (m.lookupDir p).isSome then m else m.setDir p .zero) ∧
      Built (if (m.lookupDir p).isSome then m else m.setDir p .zero) := by
  unfold ensureDir
  by_cases hsome : (m.lookupDir p).isSome = true
  · rw [if_pos hsome, if_pos hsome]
    exact ⟨rfl, h⟩
  · have hnone : m.lookupDir p = none := by simpa using hsome
    rw [if_neg hsome, if_neg hsome, ok_bind (openDir_eq h p), Manifest.dirAt, hnone]
    exact ⟨rfl, built_setDir h p _⟩

/-- `AddEmptyDir`. -/
def addEmptyDir (m : Manifest) (relPath : Bytes) : Checked Manifest := do
  let p := normalizeManifestPath relPath
  let (parentDir, dirName) ← splitLast p
  if p = [] ∨ dirName = [] then return m
  else do
    let m ← ensureDir m p
    if parentDir = [] then do
      let root ← openDir m []
      return m.setDir [] (root.addSubDir dirName)
    else ensureParentDirs m p

theorem addEmptyDir_eq (h : Built m) (relPath : Bytes) :
    addEmptyDir m relPath = .ok (m.addEmptyDir relPath) ∧ Built (m.addEmptyDir relPath) := by
  unfold addEmptyDir Manifest.addEmptyDir
  rw [ok_bind (splitLast_eq _)]
  dsimp only
  split
  · exact ⟨rfl, h⟩
  obtain ⟨hmade, hbuilt⟩ := ensureDir_eq h (normalizeManifestPath relPath)
  rw [ok_bind hmade]
  split
  · rw [ok_bind (openDir_eq hbuilt [])]
    exact ⟨rfl, built_setDir hbuilt _ _⟩
  · exact ensureParentDirs_eq hbuilt _

/-- `migrateV1Manifest`. -/
def migrateV1Manifest (m : Manifest) (v : Value) : Checked Manifest :=
  match V1Manifest.ofJson v with
  | none => return m
  | some v1 => do
    let m ← v1.entries.foldlM addFile { m with version := 2, dirs := some .empty, stats := .zero }
    (v1.emptyDirs.elems.getD []).foldlM (fun m d => addEmptyDir m d.relPath) m

theorem migrateV1Manifest_eq (m : Manifest) (v : Value) :
    migrateV1Manifest m v = .ok (GbfCore.migrateV1Manifest m v) := by
  unfold migrateV1Manifest GbfCore.migrateV1Manifest
  cases V1Manifest.ofJson v with
  | none => rfl
  | some v1 =>
    have hempty : Built { m with version := 2, dirs := some .empty, stats := .zero } :=
      ⟨rfl, fun path => by simp [Manifest.lookupDir, SortedMap.lookup, SortedMap.empty]⟩
    obtain ⟨hfiles, hbuilt⟩ := foldlM_ok Built (fun m f hm => (addFile_eq hm f).1)
      (fun m f hm => (addFile_eq hm f).2) v1.entries _ hempty
    obtain ⟨hdirs, -⟩ := foldlM_ok Built (fun m (d : V1EmptyDir) hm => (addEmptyDir_eq hm d.relPath).1)
      (fun m d hm => (addEmptyDir_eq hm d.relPath).2) (v1.emptyDirs.elems.getD []) _ hbuilt
    dsimp only
    rw [ok_bind hfiles]
    exact hdirs

/-! ## Validation -/

/-- The loop over the files of a directory, with `n` rounds to go. -/
def validateFiles (dirPath : Bytes) (files : List FileEntry) :
    (n i : Nat) → (seen : List Bytes) → Totals → Checked (Except StructureError Totals)
  | 0, _, _, t => return .ok t
  | n + 1, i, seen, t => do
    let f ← index files i
    match validateFile dirPath i seen f with
    | .error e => return .error e
    | .ok () => validateFiles dirPath files n (i + 1) (f.name :: seen) (t.add f)

theorem validateFiles_eq {dirPath : Bytes} :
    ∀ {n i : Nat} (seen : List Bytes) (t : Totals), i + n = files.length →
      validateFiles dirPath files n i seen t =
        .ok (GbfCore.validateFiles dirPath (files.drop i) i seen t)
  | 0, i, seen, t, hi => by
    have hnil : files.drop i = [] := drop_eq_nil_of_le (by omega)
    rw [hnil]
    rfl
  | n + 1, i, seen, t, hi => by
    have hlt : i < files.length := by omega
    rw [validateFiles, ok_bind (index_ok hlt), drop_eq_getElem_cons hlt,
      GbfCore.validateFiles]
    cases validateFile dirPath i seen files[i] with
    | error e => rfl
    | ok _ => exact validateFiles_eq _ _ (by omega)

/-- The checks of one directory. -/
def validateDir (m : Manifest) (e : Bytes × Option Dir) (t : Totals) :
    Checked (Except StructureError Totals) :=
  match (validateManifestDirKey e.1).mapError (.dirKey e.1) with
  | .error err => return .error err
  | .ok () =>
    if e.2.isNone then return .error (.nilDir e.1)
    else do
      let d ← deref e.2
      match ← validateFiles e.1 d.fileList d.fileList.length 0 [] t with
      | .error err => return .error err
      | .ok t' => return (validateSubDirs m e.1 d.subDirList).bind fun _ => .ok t'

theorem validateDir_eq (m : Manifest) (e : Bytes × Option Dir) (t : Totals) :
    validateDir m e t = .ok (GbfCore.validateDir m e t) := by
  unfold validateDir GbfCore.validateDir
  obtain ⟨path, d⟩ := e
  cases (validateManifestDirKey path).mapError (StructureError.dirKey path) with
  | error err => rfl
  | ok _ =>
    cases d with
    | none => rfl
    | some d =>
      show (validateFiles path d.fileList d.fileList.length 0 [] t >>= _) =
        Except.ok ((GbfCore.validateFiles path d.fileList 0 [] t).bind _)
      rw [ok_bind (validateFiles_eq [] t (Nat.zero_add _)), drop_zero]
      cases GbfCore.validateFiles path d.fileList 0 [] t <;> rfl

/-- The loop over the directories. -/
def validateDirs (m : Manifest) :
    List (Bytes × Option Dir) → Totals → Checked (Except StructureError Totals)
  | [], t => return .ok t
  | e :: rest, t => do
    match ← validateDir m e t with
    | .error err => return .error err
    | .ok t' => validateDirs m rest t'

theorem validateDirs_eq (m : Manifest) (l : List (Bytes × Option Dir)) (t : Totals) :
    validateDirs m l t = .ok (GbfCore.validateDirs m l t) := by
  induction l generalizing t with
  | nil => rfl
  | cons e rest ih =>
    rw [validateDirs, ok_bind (validateDir_eq m e t), GbfCore.validateDirs]
    cases GbfCore.validateDir m e t with
    | error err => rfl
    | ok t' => exact ih t'

/-- `ValidateStructure`. -/
def validateStructure (m : Manifest) : Checked (Except StructureError Unit) := do
  match ← validateDirs m m.dirEntries ⟨0, 0⟩ with
  | .error err => return .error err
  | .ok t =>
    if m.stats.fileCount ≠ t.fileCount then
      return .error (.fileCount m.stats.fileCount t.fileCount)
    else if m.stats.totalSize ≠ t.totalSize then
      return .error (.totalSize m.stats.totalSize t.totalSize)
    else return .ok ()

theorem validateStructure_eq (m : Manifest) :
    validateStructure m = .ok m.validateStructure := by
  rw [validateStructure, ok_bind (validateDirs_eq m _ _), Manifest.validateStructure]
  cases GbfCore.validateDirs m m.dirEntries ⟨0, 0⟩ with
  | error err => rfl
  | ok t =>
    show (if m.stats.fileCount ≠ t.fileCount then _ else _) = Except.ok (if _ then _ else _)
    split
    · rfl
    · split <;> rfl

/-! ## Loading -/

/-- A manifest of an old version is migrated. -/
def migrated (m : Manifest) (v : Value) : Checked Manifest :=
  if m.version < 2 then migrateV1Manifest m v else return m

/-- The JSON value of a manifest text, and the manifest. -/
def decodeManifest (data : Bytes) : Checked (Except LoadError Manifest) :=
  match parse data with
  | none => return .error .unmarshal
  | some v =>
    match Manifest.ofJson v with
    | none => return .error .unmarshal
    | some m => do
      let m ← migrated m v
      match ← validateStructure m with
      | .error e => return .error (.validation e)
      | .ok () => return .ok m

theorem decodeManifest_eq (data : Bytes) : decodeManifest data = .ok (GbfCore.decodeManifest data) := by
  unfold decodeManifest GbfCore.decodeManifest
  cases parse data with
  | none => rfl
  | some v =>
    dsimp only
    cases Manifest.ofJson v with
    | none => rfl
    | some m =>
      have hmigrated : migrated m v =
          .ok (if m.version < 2 then GbfCore.migrateV1Manifest m v else m) := by
        unfold migrated
        split
        · exact migrateV1Manifest_eq m v
        · rfl
      dsimp only
      rw [ok_bind hmigrated, ok_bind (validateStructure_eq _)]
      cases (if m.version < 2 then GbfCore.migrateV1Manifest m v else m).validateStructure <;> rfl

/-- `LoadManifestFromData`. -/
def loadManifestFromData (P : Primitives) (hook : DecryptHook) (data : Bytes) :
    Checked (Except LoadError Manifest) := do
  match ← manifestText P hook data with
  | .error e => return .error e
  | .ok text => decodeManifest text

theorem loadManifestFromData_eq (P : Primitives) (hook : DecryptHook) (data : Bytes) :
    loadManifestFromData P hook data = .ok (GbfCore.loadManifestFromData P hook data) := by
  rw [loadManifestFromData, ok_bind (manifestText_eq P hook data), GbfCore.loadManifestFromData]
  cases GbfCore.manifestText P hook data with
  | error e => rfl
  | ok text => exact decodeManifest_eq text

/-! ## Going through a manifest -/

/-- `AllFiles`. -/
def allFiles (m : Manifest) : Checked (List FileEntry) := do
  makeSlice m.stats.fileCount
  m.dirEntries.foldlM (fun result e => do
    let d ← deref e.2
    return result ++ d.fileList.map fun f => { f with name := childPath e.1 f.name }) []

/-- `BuildFileMap`; the size given to `make` for a map is a hint. -/
def buildFileMap (m : Manifest) : Checked (SortedMap Bytes FileEntry) :=
  m.dirEntries.foldlM (fun result e => do
    let d ← deref e.2
    return d.fileList.foldl (fun result f => result.insert (childPath e.1 f.name)
      { f with name := childPath e.1 f.name }) result) .empty

/-- `FindFile`. -/
def findFile (m : Manifest) (filePath : Bytes) : Checked (Option FileEntry) := do
  let (dirPath, fileName) ← splitLast filePath
  match m.lookupDir dirPath with
  | none => return none
  | some d => do
    let d ← deref d
    return (d.fileList.find? fun f => f.name = fileName).map fun f =>
      { f with name := childPath dirPath f.name }

/-- The loop of `CollectAliveHashes` over the directories of one manifest. -/
def aliveOf (alive : SortedMap Bytes Bool) (m : Manifest) : Checked (SortedMap Bytes Bool) :=
  m.dirEntries.foldlM (fun alive e => do
    let d ← deref e.2
    return (d.fileList.flatMap FileEntry.aliveHashes).foldl
      (fun alive h => alive.insert h true) alive) alive

/-- `CollectAliveHashes`. -/
def collectAliveHashes (manifests : List Manifest) : Checked (SortedMap Bytes Bool) :=
  manifests.foldlM aliveOf .empty

/-- The inner loop of `DeriveCompleteness`, with `n` rounds to go. -/
def anyFailed (files : List FileEntry) : (n i : Nat) → Checked Bool
  | 0, _ => return false
  | n + 1, i => do
    let f ← index files i
    if f.status = fileStatusLocked ∨ f.status = fileStatusError then return true
    else anyFailed files n (i + 1)

/-- The outer loop of `DeriveCompleteness`. -/
def anyDirFailed : List (Bytes × Option Dir) → Checked Bool
  | [] => return false
  | e :: rest => do
    let d ← deref e.2
    if ← anyFailed d.fileList d.fileList.length 0 then return true else anyDirFailed rest

/-- `DeriveCompleteness`. -/
def deriveCompleteness (m : Manifest) : Checked Bytes :=
  if 0 < m.stats.scanErrors then return snapshotIncomplete
  else do
    if ← anyDirFailed m.dirEntries then return snapshotIncomplete else return snapshotComplete

/-- None of the pointers in `Dirs` is nil. -/
def Present (m : Manifest) : Prop := ∀ e ∈ m.dirEntries, ∃ d, e.2 = some d

/-- The traversals of a manifest do not panic. -/
structure Walks (m : Manifest) : Prop where
  allFiles : allFiles m = .ok m.allFiles
  buildFileMap : buildFileMap m = .ok m.buildFileMap
  findFile : ∀ filePath, findFile m filePath = .ok (m.findFile filePath)
  collectAliveHashes : collectAliveHashes [m] = .ok (GbfCore.collectAliveHashes [m])
  deriveCompleteness : deriveCompleteness m = .ok m.deriveCompleteness

section
variable {m : Manifest} (hm : Present m)
include hm

theorem allFiles_eq (hcount : 0 ≤ m.stats.fileCount) : allFiles m = .ok m.allFiles := by
  have hmake : makeSlice m.stats.fileCount = .ok () := if_neg (by omega)
  rw [allFiles, ok_bind hmake, Manifest.allFiles, flatMap_eq_foldl]
  refine foldlM_ok_of_mem (fun e he result => ?_) []
  obtain ⟨d, hd⟩ := hm e he
  rw [hd]
  rfl

theorem buildFileMap_eq : buildFileMap m = .ok m.buildFileMap := by
  rw [buildFileMap, Manifest.buildFileMap, Manifest.allFiles, foldl_flatMap]
  refine foldlM_ok_of_mem (fun e he result => ?_) _
  obtain ⟨d, hd⟩ := hm e he
  rw [hd]
  dsimp only
  rw [foldl_map]
  rfl

theorem aliveOf_eq (alive : SortedMap Bytes Bool) :
    aliveOf alive m = .ok ((m.files.flatMap FileEntry.aliveHashes).foldl
      (fun alive h => alive.insert h true) alive) := by
  rw [aliveOf, Manifest.files, flatMap_assoc, foldl_flatMap]
  refine foldlM_ok_of_mem (fun e he result => ?_) _
  obtain ⟨d, hd⟩ := hm e he
  rw [hd]
  rfl

theorem findFile_eq (filePath : Bytes) : findFile m filePath = .ok (m.findFile filePath) := by
  rw [findFile, ok_bind (splitLast_eq filePath), Manifest.findFile]
  dsimp only
  cases hlookup : m.lookupDir (GbfCore.splitLast filePath).1 with
  | none => rfl
  | some d =>
    unfold Manifest.lookupDir at hlookup
    cases hdirs : m.dirs with
    | none =>
      rw [hdirs] at hlookup
      cases hlookup
    | some dirs =>
      rw [hdirs] at hlookup
      have hmem : ((GbfCore.splitLast filePath).1, d) ∈ m.dirEntries := by
        rw [Manifest.dirEntries, hdirs]
        exact SortedMap.lookup_eq_some.mp hlookup
      obtain ⟨d, rfl⟩ := hm _ hmem
      rfl

end

theorem collectAliveHashes_eq {manifests : List Manifest} (h : ∀ m ∈ manifests, Present m) :
    collectAliveHashes manifests = .ok (GbfCore.collectAliveHashes manifests) := by
  rw [collectAliveHashes, GbfCore.collectAliveHashes, foldl_flatMap]
  exact foldlM_ok_of_mem (fun m hm alive => aliveOf_eq (h m hm) alive) _

theorem anyFailed_eq :
    ∀ {n i : Nat}, i + n = files.length → anyFailed files n i =
      .ok ((files.drop i).any fun f => f.status = fileStatusLocked ∨ f.status = fileStatusError)
  | 0, i, hi => by
    rw [drop_eq_nil_of_le (by omega : files.length ≤ i)]
    rfl
  | n + 1, i, hi => by
    have hlt : i < files.length := by omega
    rw [anyFailed, ok_bind (index_ok hlt), drop_eq_getElem_cons hlt, any_cons]
    split
    · rename_i h
      rw [decide_eq_true h]
      rfl
    · rename_i h
      rw [decide_eq_false h, anyFailed_eq (by omega)]
      rfl

theorem anyDirFailed_eq {l : List (Bytes × Option Dir)} (hl : ∀ e ∈ l, ∃ d, e.2 = some d) :
    anyDirFailed l = .ok ((l.flatMap fun e => match e.2 with
      | none => []
      | some d => d.fileList).any fun f =>
        f.status = fileStatusLocked ∨ f.status = fileStatusError) := by
  induction l with
  | nil => rfl
  | cons e rest ih =>
    obtain ⟨⟨d, hd⟩, hrest⟩ := forall_mem_cons.mp hl
    rw [anyDirFailed, hd, ok_bind (rfl : deref (some d) = .ok d),
      ok_bind (anyFailed_eq (Nat.zero_add _)), drop_zero, flatMap_cons, hd,
      any_append]
    cases d.fileList.any fun f =>
      decide (f.status = fileStatusLocked ∨ f.status = fileStatusError) with
    | true => rfl
    | false => exact ih hrest

theorem deriveCompleteness_eq (hm : Present m) :
    deriveCompleteness m = .ok m.deriveCompleteness := by
  rw [deriveCompleteness, Manifest.deriveCompleteness]
  split
  · rfl
  · have hany : anyDirFailed m.dirEntries = .ok (m.files.any fun f =>
        f.status = fileStatusLocked ∨ f.status = fileStatusError) := anyDirFailed_eq hm
    rw [ok_bind hany]
    split <;> rfl

/-- Validation refuses nil directories and a wrong number of files. -/
theorem Walks.of_structured (h : m.Structured) : Walks m := by
  have hpresent : Present m := fun e he => (h.dirs e he).imp fun _ hd => hd.1
  have hcount : 0 ≤ m.stats.fileCount := by
    rw [h.fileCount]
    exact Int.natCast_nonneg _
  exact {
    allFiles := allFiles_eq hpresent hcount
    buildFileMap := buildFileMap_eq hpresent
    findFile := findFile_eq hpresent
    collectAliveHashes := collectAliveHashes_eq (forall_mem_singleton.mpr hpresent)
    deriveCompleteness := deriveCompleteness_eq hpresent }

end Checked

end GbfCore
