import GbfCore.Lib.Int64
import GbfCore.Lib.Path
import GbfCore.Lib.SortedMap
import GbfCore.Manifest.Types

/-!
# The manifest (manifest.go)

A manifest lists the files of a snapshot by directory: `Dirs` maps the path of each
directory to its files and to the names of its subdirectories. `AddFile` and
`AddEmptyDir` build it up from paths.

A nil slice, a nil map and a nil pointer are `none`. They are kept apart from their
empty counterparts because `encoding/json` does so. The cached file map of the source
is not part of the state: it is computed from `Dirs` whenever it is used.
-/

namespace GbfCore

variable {m : Manifest} {key : Bytes}

/-- `Dir`. -/
structure Dir where
  files : Option (List FileEntry)
  subDirs : Option (List Bytes)
deriving DecidableEq

/-- `ManifestStats`. -/
structure ManifestStats where
  fileCount : Int
  totalSize : Int
  newFiles : Int
  changedFiles : Int
  unchangedFiles : Int
  deletedFiles : Int
  newBytes : Int
  scanErrors : Int
deriving DecidableEq, Repr

/-- The directories of a manifest by their paths. -/
abbrev DirMap := SortedMap Bytes (Option Dir)

/-- `Manifest`. `filePath` is not serialized. -/
structure Manifest where
  version : Int
  sourceID : Int
  cloudID : Bytes
  sourceName : Bytes
  sourcePath : Bytes
  timestamp : Bytes
  deviceID : Bytes
  dirs : Option DirMap
  stats : ManifestStats
  completeness : Bytes
  filePath : Bytes
deriving DecidableEq

/-- `Dir{}` -/
def Dir.zero : Dir := ⟨none, none⟩

/-- `ManifestStats{}` -/
def ManifestStats.zero : ManifestStats := ⟨0, 0, 0, 0, 0, 0, 0, 0⟩

/-- `Manifest{}` -/
def Manifest.zero : Manifest := ⟨0, 0, [], [], [], [], [], none, .zero, [], []⟩

/-! ## Reading -/

/-- The files of a directory. -/
def Dir.fileList (d : Dir) : List FileEntry := d.files.getD []

/-- The subdirectories of a directory. -/
def Dir.subDirList (d : Dir) : List Bytes := d.subDirs.getD []

/-- The entries of `Dirs`. Ranging over the map goes through them in any order. -/
def Manifest.dirEntries (m : Manifest) : List (Bytes × Option Dir) :=
  match m.dirs with
  | none => []
  | some dirs => dirs.entries

/-- `m.Dirs[path]` -/
def Manifest.lookupDir (m : Manifest) (path : Bytes) : Option (Option Dir) :=
  match m.dirs with
  | none => none
  | some dirs => dirs.lookup path

/-- The path of a name in a directory. -/
def childPath (dirPath name : Bytes) : Bytes :=
  if dirPath = [] then name else dirPath ++ slash :: name

/-- `AllFiles`. -/
def Manifest.allFiles (m : Manifest) : List FileEntry :=
  m.dirEntries.flatMap fun e =>
    match e.2 with
    | none => []
    | some d => d.fileList.map fun f => { f with name := childPath e.1 f.name }

/-- `BuildFileMap`; the directories are ranged over in the order of their paths. -/
def Manifest.buildFileMap (m : Manifest) : SortedMap Bytes FileEntry :=
  m.allFiles.foldl (fun result f => result.insert f.name f) .empty

/-! ## Building -/

/-- `normalizeManifestPath`; POSIX has no other separator to replace. -/
def normalizeManifestPath : Bytes → Bytes
  | b :: rest => if b = slash then rest else b :: rest
  | [] => []

/-- What stands before and behind the last slash. -/
def splitLast (path : Bytes) : Bytes × Bytes :=
  ((path.reverse.dropWhile (· != slash)).tail.reverse,
    (path.reverse.takeWhile (· != slash)).reverse)

/-- `FindFile`; POSIX has no other separator to replace. -/
def Manifest.findFile (m : Manifest) (filePath : Bytes) : Option FileEntry :=
  let (dirPath, fileName) := splitLast filePath
  match m.lookupDir dirPath with
  | some (some d) =>
    (d.fileList.find? fun f => f.name = fileName).map fun f =>
      { f with name := childPath dirPath f.name }
  | _ => none

/-- The directory at a path, a new one if there is none. Where the map holds a nil
pointer, which only a decoded document has, the source would dereference it. -/
def Manifest.dirAt (m : Manifest) (path : Bytes) : Dir :=
  match m.lookupDir path with
  | some (some d) => d
  | _ => .zero

/-- The map holds its entries. -/
theorem lookupDir_eq_some {d : Option Dir} :
    m.lookupDir key = some d ↔ (key, d) ∈ m.dirEntries := by
  unfold Manifest.lookupDir Manifest.dirEntries
  cases m.dirs with
  | none => exact iff_of_false (Option.some_ne_none d).symm List.not_mem_nil
  | some dirs => exact SortedMap.lookup_eq_some

theorem dirAt_of_mem {d : Dir} (h : (key, some d) ∈ m.dirEntries) :
    m.dirAt key = d := by
  rw [Manifest.dirAt, lookupDir_eq_some.mpr h]

/-- A directory with a file is listed. -/
theorem mem_of_dirAt {f : FileEntry} (h : f ∈ (m.dirAt key).fileList) :
    (key, some (m.dirAt key)) ∈ m.dirEntries := by
  rw [← lookupDir_eq_some]
  unfold Manifest.dirAt at h ⊢
  split at h
  · rename_i d hd
    rw [hd]
  · exact absurd h List.not_mem_nil

/-- `m.Dirs[path] = d` -/
def Manifest.setDir (m : Manifest) (path : Bytes) (d : Dir) : Manifest :=
  { m with dirs := some ((m.dirs.getD .empty).insert path (some d)) }

/-- List a subdirectory, unless it is listed. -/
def Dir.addSubDir (d : Dir) (name : Bytes) : Dir :=
  if name ∈ d.subDirList then d else { d with subDirs := some (d.subDirList ++ [name]) }

/-- The body of the loop of `ensureParentDirs`: the directory above exists and lists
the one below. -/
def Manifest.linkChild (m : Manifest) (parent child : Bytes) : Manifest :=
  m.setDir parent ((m.dirAt parent).addSubDir child)

/-- The loop of `ensureParentDirs`, below the directories in `above`. -/
def Manifest.ensureBelow (m : Manifest) (above : List Bytes) : List Bytes → Manifest
  | [] => m
  | child :: rest =>
    (m.linkChild (joinSlash above) child).ensureBelow (above ++ [child]) rest

/-- `ensureParentDirs`. -/
def Manifest.ensureParentDirs (m : Manifest) (dirPath : Bytes) : Manifest :=
  m.ensureBelow [] (splitSlash dirPath)

/-- `AddFile`. -/
def Manifest.addFile (m : Manifest) (entry : FileEntry) : Manifest :=
  let p := normalizeManifestPath entry.name
  let (dir, base) := splitLast p
  let d := m.dirAt dir
  let m := m.setDir dir { d with files := some (d.fileList ++ [{ entry with name := base }]) }
  let m := { m with stats := { m.stats with
    fileCount := m.stats.fileCount + 1
    totalSize := wrap64 (m.stats.totalSize + entry.size) } }
  if dir = [] then m else m.ensureParentDirs dir

/-- `AddEmptyDir`. -/
def Manifest.addEmptyDir (m : Manifest) (relPath : Bytes) : Manifest :=
  let p := normalizeManifestPath relPath
  let (parentDir, dirName) := splitLast p
  if p = [] ∨ dirName = [] then m
  else
    let m := if (m.lookupDir p).isSome then m else m.setDir p .zero
    if parentDir = [] then m.linkChild [] dirName else m.ensureParentDirs p

example : splitLast (ascii "a/b/c.txt") = (ascii "a/b", ascii "c.txt") := by decide

end GbfCore
