import GbfCore.Manifest.Validate

/-!
# What building a manifest does (manifest.go)

`AddFile` and `AddEmptyDir` set one directory and then go down a path, entering each
directory in the one above it. All of this is a sequence of two updates, `setDir` and
`linkChild`, whose effect is stated once: on the directory at any path, and on the
list of all files.
-/

namespace GbfCore

open List SortedMap

variable {l : List (Bytes × Bytes)} {q : Bytes}

/-! ## One directory is set -/

/-- The directory at a path exists. -/
def Manifest.HasDir (m : Manifest) (path : Bytes) : Prop := m.lookupDir path ≠ none

theorem lookupDir_setDir (m : Manifest) (path : Bytes) (d : Dir) (q : Bytes) :
    (m.setDir path d).lookupDir q = if q = path then some (some d) else m.lookupDir q := by
  show ((m.dirs.getD .empty).insert path (some d)).lookup q = _
  rw [lookup_insert]
  cases hd : m.dirs with
  | none => rw [Manifest.lookupDir, hd]; rfl
  | some dirs => rw [Manifest.lookupDir, hd]; rfl

theorem dirAt_setDir (m : Manifest) (path : Bytes) (d : Dir) (q : Bytes) :
    (m.setDir path d).dirAt q = if q = path then d else m.dirAt q := by
  unfold Manifest.dirAt
  rw [lookupDir_setDir]
  by_cases hq : q = path
  · rw [if_pos hq, if_pos hq]
  · rw [if_neg hq, if_neg hq]

/-- The files of the directories at other paths. -/
def Manifest.filesExcept (m : Manifest) (path : Bytes) : List FileEntry :=
  (m.dirEntries.filter fun e => decide (e.1 ≠ path)).flatMap fun e =>
    match e.2 with
    | none => []
    | some d => d.fileList

theorem files_setDir (m : Manifest) (path : Bytes) (d : Dir) :
    (m.setDir path d).files.Perm (d.fileList ++ m.filesExcept path) := by
  have hentries : (m.setDir path d).dirEntries.Perm
      ((path, some d) :: m.dirEntries.filter fun e => decide (e.1 ≠ path)) := by
    unfold Manifest.dirEntries
    cases hd : m.dirs with
    | none =>
      show ((m.dirs.getD .empty).insert path (some d)).entries.Perm _
      rw [hd]
      exact perm_insertEntry .nil
    | some dirs =>
      show ((m.dirs.getD .empty).insert path (some d)).entries.Perm _
      rw [hd]
      exact perm_insertEntry dirs.sorted
  exact hentries.flatMap_right _

/-- The files, those of one directory first. -/
theorem files_perm_dirAt (m : Manifest) (path : Bytes) :
    m.files.Perm ((m.dirAt path).fileList ++ m.filesExcept path) := by
  unfold Manifest.files Manifest.filesExcept Manifest.dirAt Manifest.lookupDir Manifest.dirEntries
  cases hd : m.dirs with
  | none => exact List.Perm.refl _
  | some dirs =>
    dsimp only
    cases hl : dirs.lookup path with
    | none =>
      rw [filter_of_lookup_none hl]
      exact List.Perm.refl _
    | some d =>
      refine ((perm_of_lookup dirs.sorted hl).flatMap_right _).trans ?_
      cases d <;> exact List.Perm.refl _

/-- Setting a directory that keeps its files. -/
theorem files_setDir_same {m : Manifest} {path : Bytes} {d : Dir}
    (h : d.fileList = (m.dirAt path).fileList) : (m.setDir path d).files.Perm m.files := by
  refine (files_setDir m path d).trans ?_
  rw [h]
  exact (files_perm_dirAt m path).symm

/-! ## Entering a directory in the one above it -/

theorem subDirList_addSubDir (d : Dir) (name c : Bytes) :
    c ∈ (d.addSubDir name).subDirList ↔ c ∈ d.subDirList ∨ c = name := by
  unfold Dir.addSubDir
  split
  · rename_i hmem
    constructor
    · exact .inl
    · rintro (h | rfl)
      · exact h
      · exact hmem
  · show c ∈ d.subDirList ++ [name] ↔ _
    rw [mem_append, mem_singleton]

theorem fileList_addSubDir (d : Dir) (name : Bytes) : (d.addSubDir name).fileList = d.fileList := by
  unfold Dir.addSubDir
  split <;> rfl

theorem hasDir_linkChild (m : Manifest) (parent child q : Bytes) :
    (m.linkChild parent child).HasDir q ↔ m.HasDir q ∨ q = parent := by
  unfold Manifest.HasDir Manifest.linkChild
  rw [lookupDir_setDir]
  by_cases hq : q = parent
  · simp [hq]
  · simp [hq]

theorem fileList_linkChild (m : Manifest) (parent child q : Bytes) :
    ((m.linkChild parent child).dirAt q).fileList = (m.dirAt q).fileList := by
  rw [Manifest.linkChild, dirAt_setDir]
  split
  · rename_i hq
    rw [fileList_addSubDir, hq]
  · rfl

theorem mem_subDirList_linkChild (m : Manifest) (parent child q c : Bytes) :
    c ∈ ((m.linkChild parent child).dirAt q).subDirList ↔
      c ∈ (m.dirAt q).subDirList ∨ (q, c) = (parent, child) := by
  rw [Manifest.linkChild, dirAt_setDir]
  by_cases hq : q = parent
  · subst hq
    rw [if_pos rfl, subDirList_addSubDir]
    simp
  · rw [if_neg hq]
    simp [hq]

theorem files_linkChild (m : Manifest) (parent child : Bytes) :
    (m.linkChild parent child).files.Perm m.files :=
  files_setDir_same (fileList_addSubDir _ _)

/-! ## Down a path -/

/-- The directories a path goes through, each with the next name. -/
def links (above : List Bytes) : List Bytes → List (Bytes × Bytes)
  | [] => []
  | child :: rest => (joinSlash above, child) :: links (above ++ [child]) rest

/-- Enter each of these names in its directory. -/
def Manifest.linkAll (m : Manifest) (l : List (Bytes × Bytes)) : Manifest :=
  l.foldl (fun m e => m.linkChild e.1 e.2) m

theorem ensureBelow_eq (m : Manifest) (above segs : List Bytes) :
    m.ensureBelow above segs = m.linkAll (links above segs) := by
  induction segs generalizing m above with
  | nil => rfl
  | cons child rest ih => exact ih _ _

theorem hasDir_linkAll : ∀ {m : Manifest},
    (m.linkAll l).HasDir q ↔ m.HasDir q ∨ ∃ c, (q, c) ∈ l := by
  induction l with
  | nil => simp [Manifest.linkAll]
  | cons e l ih =>
    intro m
    show ((m.linkChild e.1 e.2).linkAll l).HasDir q ↔ _
    rw [ih, hasDir_linkChild, or_assoc]
    refine or_congr_right ?_
    constructor
    · rintro (rfl | ⟨c, hc⟩)
      · exact ⟨e.2, mem_cons_self⟩
      · exact ⟨c, mem_cons_of_mem e hc⟩
    · rintro ⟨c, hc⟩
      rcases mem_cons.mp hc with rfl | hc
      · exact .inl rfl
      · exact .inr ⟨c, hc⟩

theorem fileList_linkAll : ∀ {m : Manifest},
    ((m.linkAll l).dirAt q).fileList = (m.dirAt q).fileList := by
  induction l with
  | nil => intro m; rfl
  | cons e l ih =>
    intro m
    show (((m.linkChild e.1 e.2).linkAll l).dirAt q).fileList = _
    rw [ih, fileList_linkChild]

theorem mem_subDirList_linkAll {c : Bytes} : ∀ {m : Manifest},
    c ∈ ((m.linkAll l).dirAt q).subDirList ↔ c ∈ (m.dirAt q).subDirList ∨ (q, c) ∈ l := by
  induction l with
  | nil => simp [Manifest.linkAll]
  | cons e l ih =>
    intro m
    show c ∈ (((m.linkChild e.1 e.2).linkAll l).dirAt q).subDirList ↔ _
    rw [ih, mem_subDirList_linkChild, or_assoc, mem_cons]

theorem files_linkAll : ∀ {m : Manifest},
    (m.linkAll l).files.Perm m.files := by
  induction l with
  | nil => exact List.Perm.refl _
  | cons e l ih => exact ih.trans (files_linkChild _ _ _)

/-- Everything but the directories stays. -/
theorem stats_linkAll : ∀ {m : Manifest},
    (m.linkAll l).stats = m.stats := by
  induction l with
  | nil => exact fun {m} => rfl
  | cons e l ih => exact fun {m} => ih

/-! ## Adding a file -/

/-- The path of an entry, cut at its last slash. -/
def FileEntry.place (f : FileEntry) : Bytes × Bytes := splitLast (normalizeManifestPath f.name)

/-- The entry as it is listed in its directory. -/
def FileEntry.placed (f : FileEntry) : FileEntry := { f with name := f.place.2 }

/-- The directories above a directory, each with the next name; none are above the
root. -/
def dirLinks (dir : Bytes) : List (Bytes × Bytes) :=
  if dir = [] then [] else links [] (splitSlash dir)

/-- `AddFile` before it goes through the parents. -/
def Manifest.putFile (m : Manifest) (f : FileEntry) : Manifest :=
  let m' := m.setDir f.place.1
    { m.dirAt f.place.1 with files := some ((m.dirAt f.place.1).fileList ++ [f.placed]) }
  { m' with stats := { m'.stats with
    fileCount := m'.stats.fileCount + 1
    totalSize := wrap64 (m'.stats.totalSize + f.size) } }

section
variable (m : Manifest) (f : FileEntry)

theorem addFile_eq :
    m.addFile f = (m.putFile f).linkAll (dirLinks f.place.1) := by
  unfold dirLinks
  show (if f.place.1 = [] then m.putFile f else (m.putFile f).ensureParentDirs f.place.1) = _
  split
  · rfl
  · exact ensureBelow_eq _ _ _

theorem lookupDir_putFile (q : Bytes) :
    (m.putFile f).lookupDir q =
      if q = f.place.1 then some (some { m.dirAt f.place.1 with
        files := some ((m.dirAt f.place.1).fileList ++ [f.placed]) })
      else m.lookupDir q :=
  lookupDir_setDir m f.place.1 _ q

theorem dirAt_putFile (q : Bytes) :
    (m.putFile f).dirAt q =
      if q = f.place.1 then { m.dirAt f.place.1 with
        files := some ((m.dirAt f.place.1).fileList ++ [f.placed]) }
      else m.dirAt q :=
  dirAt_setDir m f.place.1 _ q

theorem hasDir_addFile (q : Bytes) :
    (m.addFile f).HasDir q ↔
      m.HasDir q ∨ q = f.place.1 ∨ ∃ c, (q, c) ∈ dirLinks f.place.1 := by
  rw [addFile_eq, hasDir_linkAll, ← or_assoc]
  refine or_congr_left ?_
  unfold Manifest.HasDir
  rw [lookupDir_putFile]
  by_cases hq : q = f.place.1
  · simp [hq]
  · simp [hq]

/-- The files of a directory after a file was added. -/
theorem fileList_addFile (q : Bytes) :
    ((m.addFile f).dirAt q).fileList =
      (m.dirAt q).fileList ++ if q = f.place.1 then [f.placed] else [] := by
  rw [addFile_eq, fileList_linkAll, dirAt_putFile]
  split
  · rename_i hq
    subst hq
    rfl
  · exact (append_nil _).symm

theorem mem_subDirList_addFile (q c : Bytes) :
    c ∈ ((m.addFile f).dirAt q).subDirList ↔
      c ∈ (m.dirAt q).subDirList ∨ (q, c) ∈ dirLinks f.place.1 := by
  rw [addFile_eq, mem_subDirList_linkAll, dirAt_putFile]
  split
  · rename_i hq
    subst hq
    rfl
  · rfl

/-- **One file more.** -/
theorem files_addFile :
    (m.addFile f).files.Perm (f.placed :: m.files) := by
  rw [addFile_eq]
  refine files_linkAll.trans ?_
  refine (files_setDir m f.place.1 _).trans ?_
  show ((m.dirAt f.place.1).fileList ++ [f.placed] ++ _).Perm _
  rw [append_assoc]
  refine perm_middle.trans ?_
  exact (files_perm_dirAt m f.place.1).symm.cons f.placed

theorem stats_addFile :
    (m.addFile f).stats = { m.stats with
      fileCount := m.stats.fileCount + 1
      totalSize := wrap64 (m.stats.totalSize + f.size) } := by
  rw [addFile_eq, stats_linkAll]
  rfl

end

/-! ## Adding an empty directory -/

/-- The directory that `AddEmptyDir` adds: none for the root and for a path that ends in
a slash. -/
def emptyDirPath (relPath : Bytes) : Option Bytes :=
  let p := normalizeManifestPath relPath
  if p = [] ∨ (splitLast p).2 = [] then none else some p

/-- The directory itself, unless it is there. -/
def Manifest.putDir (m : Manifest) (p : Bytes) : Manifest :=
  if (m.lookupDir p).isSome then m else m.setDir p .zero

/-- The names `AddEmptyDir` enters. -/
def emptyDirLinks (p : Bytes) : List (Bytes × Bytes) :=
  if (splitLast p).1 = [] then [([], (splitLast p).2)] else links [] (splitSlash p)

theorem addEmptyDir_eq (m : Manifest) (relPath : Bytes) :
    m.addEmptyDir relPath =
      match emptyDirPath relPath with
      | none => m
      | some p => (m.putDir p).linkAll (emptyDirLinks p) := by
  unfold emptyDirPath emptyDirLinks Manifest.addEmptyDir
  generalize normalizeManifestPath relPath = p
  dsimp only
  by_cases hnone : p = [] ∨ (splitLast p).2 = []
  · rw [if_pos hnone, if_pos hnone]
  · rw [if_neg hnone, if_neg hnone]
    dsimp only
    by_cases htop : (splitLast p).1 = []
    · rw [if_pos htop, if_pos htop]
      rfl
    · rw [if_neg htop, if_neg htop]
      exact ensureBelow_eq _ _ _

theorem dirAt_putDir (m : Manifest) (p q : Bytes) : (m.putDir p).dirAt q = m.dirAt q := by
  unfold Manifest.putDir
  split
  · rfl
  · rename_i hnone
    rw [dirAt_setDir]
    split
    · rename_i hq
      subst hq
      rw [Manifest.dirAt, Option.not_isSome_iff_eq_none.mp hnone]
    · rfl

theorem hasDir_putDir (m : Manifest) (p q : Bytes) :
    (m.putDir p).HasDir q ↔ m.HasDir q ∨ q = p := by
  unfold Manifest.putDir
  split
  · rename_i hsome
    constructor
    · exact .inl
    · rintro (h | rfl)
      · exact h
      · exact Option.isSome_iff_ne_none.mp hsome
  · unfold Manifest.HasDir
    rw [lookupDir_setDir]
    by_cases hq : q = p
    · simp [hq]
    · simp [hq]

theorem files_putDir (m : Manifest) (p : Bytes) : (m.putDir p).files.Perm m.files := by
  unfold Manifest.putDir
  split
  · exact List.Perm.refl _
  · rename_i hnone
    refine files_setDir_same ?_
    rw [Manifest.dirAt, Option.not_isSome_iff_eq_none.mp hnone]

section
variable {m : Manifest} {relPath p : Bytes} (h : emptyDirPath relPath = some p)
include h

theorem hasDir_addEmptyDir (q : Bytes) :
    (m.addEmptyDir relPath).HasDir q ↔
      m.HasDir q ∨ q = p ∨ ∃ c, (q, c) ∈ emptyDirLinks p := by
  rw [addEmptyDir_eq, h]
  dsimp only
  rw [hasDir_linkAll, hasDir_putDir, or_assoc]

theorem mem_subDirList_addEmptyDir (q c : Bytes) :
    c ∈ ((m.addEmptyDir relPath).dirAt q).subDirList ↔
      c ∈ (m.dirAt q).subDirList ∨ (q, c) ∈ emptyDirLinks p := by
  rw [addEmptyDir_eq, h]
  dsimp only
  rw [mem_subDirList_linkAll, dirAt_putDir]

end

theorem fileList_addEmptyDir (m : Manifest) (relPath q : Bytes) :
    ((m.addEmptyDir relPath).dirAt q).fileList = (m.dirAt q).fileList := by
  rw [addEmptyDir_eq]
  split
  · rfl
  · rw [fileList_linkAll, dirAt_putDir]

/-- **No file more.** -/
theorem files_addEmptyDir (m : Manifest) (relPath : Bytes) :
    (m.addEmptyDir relPath).files.Perm m.files := by
  rw [addEmptyDir_eq]
  split
  · exact List.Perm.refl _
  · exact files_linkAll.trans (files_putDir _ _)

theorem stats_addEmptyDir (m : Manifest) (relPath : Bytes) :
    (m.addEmptyDir relPath).stats = m.stats := by
  rw [addEmptyDir_eq]
  split
  · rfl
  · rw [stats_linkAll]
    unfold Manifest.putDir
    split <;> rfl

/-! ## Whole runs -/

theorem files_foldl_addFile (l : List FileEntry) : ∀ m : Manifest,
    (l.foldl Manifest.addFile m).files.Perm (m.files ++ l.map FileEntry.placed) := by
  induction l with
  | nil =>
    intro m
    rw [map_nil, append_nil]
    exact List.Perm.refl _
  | cons f l ih =>
    intro m
    refine (ih (m.addFile f)).trans ?_
    refine ((files_addFile m f).append_right _).trans ?_
    exact perm_middle.symm

theorem files_foldl_addEmptyDir {α : Type} (path : α → Bytes) (l : List α) : ∀ m : Manifest,
    (l.foldl (fun m d => m.addEmptyDir (path d)) m).files.Perm m.files := by
  induction l with
  | nil => exact fun m => List.Perm.refl _
  | cons d l ih => exact fun m => (ih _).trans (files_addEmptyDir m (path d))

end GbfCore
