import GbfCore.Lib.Calendar
import GbfCore.Manifest.Assemble
import GbfCore.Pipeline.Process

/-!
# The scan (pipeline.go)

`scanSourceTree` walks a source tree and lists its files and directories by their paths
relative to the root; `addEmptyDirs` enters the directories without children in the new
manifest. The tree is what `filepath.Walk` finds: for every name what `Lstat` and
`Readdirnames` say about it. Symbolic links and special files are files to the walk.

The exclude patterns are a parameter: all that matters here is that they are predicates of
the relative path and of the size.
-/

namespace GbfCore

open List

variable {above d : List Bytes}

/-- What the walk finds under a name. -/
inductive Node where
  /-- everything that is not a directory -/
  | file (name : Bytes) (size : Nat) (modTime : Instant) (mode : Nat)
  | dir (name : Bytes) (readable : Bool) (modTime : Instant) (mode : Nat) (children : List Node)
  /-- `Lstat` fails -/
  | lost (name : Bytes)

def Node.name : Node → Bytes
  | file name .. => name
  | dir name .. => name
  | lost name => name

/-- The exclude patterns, as predicates. -/
structure Filters where
  /-- `fsutil.ShouldSkipDir` -/
  shouldSkipDir : (relPath : Bytes) → Bool
  /-- `fsutil.IsExcluded` -/
  isExcluded : (relPath : Bytes) → Bool
  /-- `len(p.sizeFilters) > 0 && fsutil.IsSizeExcluded(…)` -/
  isSizeExcluded : (size : Nat) → Bool

/-- `fsutil.IgnoreFileName` -/
def ignoreFileName : Bytes := ascii ".ginkgo-backupignore"

/-- What `scanSourceTree` returns. -/
structure Scan where
  files : List ScanEntry
  dirEntries : List ScanEntry
  scanErrCount : Nat

namespace Scan

def empty : Scan := ⟨[], [], 0⟩

def append (a b : Scan) : Scan :=
  ⟨a.files ++ b.files, a.dirEntries ++ b.dirEntries, a.scanErrCount + b.scanErrCount⟩

/-- A path that could not be read. -/
def failed : Scan := ⟨[], [], 1⟩

end Scan

section
variable (F : Filters) (scanPath : Bytes)

mutual

/-- The walk below `path`. A directory is listed before the walk function sees it, so that
one that cannot be read is an error even if its name is excluded. -/
def scanNode (path : Bytes) : Node → Scan
  | .lost _ => .failed
  | .file name size modTime mode =>
    let absPath := pathJoin [path, name]
    let relPath := pathRel scanPath absPath
    if F.isExcluded relPath then .empty
    else if F.isSizeExcluded size then .empty
    else ⟨[⟨relPath, absPath, size, formatRFC3339 modTime.unix, mode⟩], [], 0⟩
  | .dir name readable modTime mode children =>
    let absPath := pathJoin [path, name]
    let relPath := pathRel scanPath absPath
    if readable = false then .failed
    else if name = ignoreFileName then .empty
    else if F.shouldSkipDir relPath then .empty
    else (Scan.mk [] [⟨relPath, absPath, 0, formatRFC3339 modTime.unix, mode⟩] 0).append
      (scanNodes absPath children)

/-- The walk through the names of a directory. -/
def scanNodes (path : Bytes) : List Node → Scan
  | [] => .empty
  | n :: ns => (scanNode path n).append (scanNodes path ns)

end

/-- `scanSourceTree`, for a context that is not cancelled; `none` is a root that cannot be
read. -/
def scanSourceTree : (root : Option (List Node)) → Scan
  | none => .failed
  | some children => scanNodes F scanPath scanPath children

end

/-! ## Empty directories -/

/-- The keys of `dirHasChildren`: the directories above the files, and those right above
another directory. -/
def dirHasChildren (files dirs : List Bytes) : List Bytes :=
  (files.flatMap fun relPath =>
    let parts := splitSlash relPath
    (List.range' 1 (parts.length - 1)).map fun j => joinSlash (parts.take j)) ++
  dirs.filterMap fun relPath => if slash ∈ relPath then some (splitLast relPath).1 else none

/-- `addEmptyDirs`. -/
def addEmptyDirs (m : Manifest) (files dirEntries : List ScanEntry) : Manifest :=
  let hasChildren := dirHasChildren (files.map ScanEntry.relPath) (dirEntries.map ScanEntry.relPath)
  dirEntries.foldl (fun m d =>
    if d.relPath ∈ hasChildren then m
    else if (splitSlash d.relPath).getLastD [] = [] then m
    else m.addEmptyDir d.relPath) m

/-! ## The names of the tree -/

mutual

/-- Every name is one a directory can hold, and no two in a directory are the same. -/
def Node.WellNamed : Node → Prop
  | .file name .. => PosixName name
  | .lost name => PosixName name
  | .dir name _ _ _ children => PosixName name ∧ WellNamedNodes children

/-- See `Node.WellNamed`. -/
def WellNamedNodes : List Node → Prop
  | [] => True
  | n :: ns => n.WellNamed ∧ n.name ∉ ns.map Node.name ∧ WellNamedNodes ns

end

section
variable (F : Filters)

mutual

/-- The files that are not excluded, each by its names from the root down. -/
def Node.filePaths (above : List Bytes) : Node → List (List Bytes)
  | .lost _ => []
  | .file name size _ _ =>
    let path := above ++ [name]
    if F.isExcluded (joinSlash path) = true ∨ F.isSizeExcluded size = true then [] else [path]
  | .dir name readable _ _ children =>
    let path := above ++ [name]
    if readable = false ∨ name = ignoreFileName ∨ F.shouldSkipDir (joinSlash path) = true then []
    else filePathsOf path children

/-- See `Node.filePaths`. -/
def filePathsOf (above : List Bytes) : List Node → List (List Bytes)
  | [] => []
  | n :: ns => n.filePaths above ++ filePathsOf above ns

end

mutual

/-- The directories that are not excluded. -/
def Node.dirPaths (above : List Bytes) : Node → List (List Bytes)
  | .lost _ => []
  | .file .. => []
  | .dir name readable _ _ children =>
    let path := above ++ [name]
    if readable = false ∨ name = ignoreFileName ∨ F.shouldSkipDir (joinSlash path) = true then []
    else path :: dirPathsOf path children

/-- See `Node.dirPaths`. -/
def dirPathsOf (above : List Bytes) : List Node → List (List Bytes)
  | [] => []
  | n :: ns => n.dirPaths above ++ dirPathsOf above ns

end

end

/-! ## The scan lists these paths -/

section
variable {F : Filters} {scanPath : Bytes}

/-- The files and directories of a scan, by their names from the root down. -/
structure Scan.Lists (sc : Scan) (files dirs : List (List Bytes)) : Prop where
  files : sc.files.map ScanEntry.relPath = files.map joinSlash
  dirs : sc.dirEntries.map ScanEntry.relPath = dirs.map joinSlash

theorem Scan.Lists.append {a b : Scan} {fs fs' ds ds' : List (List Bytes)} (ha : a.Lists fs ds)
    (hb : b.Lists fs' ds') : (a.append b).Lists (fs ++ fs') (ds ++ ds') := by
  constructor
  · rw [Scan.append, map_append, map_append, ha.files, hb.files]
  · rw [Scan.append, map_append, map_append, ha.dirs, hb.dirs]

/-- One step down: the relative path of a name in a directory. -/
theorem pathRel_child {path name : Bytes} (hpath : pathElems path = pathElems scanPath ++ above)
    (hname : PosixName name) :
    pathElems (pathJoin [path, name]) = pathElems scanPath ++ (above ++ [name]) ∧
      pathRel scanPath (pathJoin [path, name]) = joinSlash (above ++ [name]) := by
  have hsplit : splitSlash name = [name] := splitSlash_of_notMem hname.slash
  have helems : pathElems (pathJoin [path, name]) = pathElems scanPath ++ (above ++ [name]) := by
    rw [pathElems_pathJoin path, hsplit, hpath, append_assoc]
    intro seg hseg
    rw [hsplit, mem_singleton] at hseg
    exact hseg ▸ hname.pathName
  refine ⟨helems, ?_⟩
  rw [pathRel, helems, if_neg, relElems_append]
  intro heq
  have hnil := self_eq_append_right.mp heq
  simp at hnil

mutual

theorem scanNode_lists : ∀ {n : Node} {path : Bytes} {above : List Bytes}, n.WellNamed →
    pathElems path = pathElems scanPath ++ above →
    (scanNode F scanPath path n).Lists (n.filePaths F above) (n.dirPaths F above)
  | .lost _, path, above, _, _ => ⟨rfl, rfl⟩
  | .file name size modTime mode, path, above, hn, hpath => by
    obtain ⟨-, hrel⟩ := pathRel_child hpath hn
    rw [scanNode, Node.filePaths, Node.dirPaths, hrel]
    by_cases hex : F.isExcluded (joinSlash (above ++ [name])) = true
    · rw [if_pos hex, if_pos (.inl hex)]
      exact ⟨rfl, rfl⟩
    · by_cases hsize : F.isSizeExcluded size = true
      · rw [if_neg hex, if_pos hsize, if_pos (.inr hsize)]
        exact ⟨rfl, rfl⟩
      · rw [if_neg hex, if_neg hsize, if_neg (not_or.mpr ⟨hex, hsize⟩)]
        exact ⟨rfl, rfl⟩
  | .dir name readable modTime mode children, path, above, hn, hpath => by
    obtain ⟨helems, hrel⟩ := pathRel_child hpath hn.1
    have hbelow := scanNodes_lists hn.2 helems
    rw [scanNode, Node.filePaths, Node.dirPaths, hrel]
    by_cases hread : readable = false
    · rw [if_pos hread, if_pos (.inl hread), if_pos (.inl hread)]
      exact ⟨rfl, rfl⟩
    by_cases hname : name = ignoreFileName
    · rw [if_neg hread, if_pos hname, if_pos (.inr (.inl hname)), if_pos (.inr (.inl hname))]
      exact ⟨rfl, rfl⟩
    by_cases hskip : F.shouldSkipDir (joinSlash (above ++ [name])) = true
    · rw [if_neg hread, if_neg hname, if_pos hskip, if_pos (.inr (.inr hskip)),
        if_pos (.inr (.inr hskip))]
      exact ⟨rfl, rfl⟩
    · have hvisit := not_or.mpr ⟨hread, not_or.mpr ⟨hname, hskip⟩⟩
      rw [if_neg hread, if_neg hname, if_neg hskip, if_neg hvisit, if_neg hvisit]
      have hself : (Scan.mk [] [⟨joinSlash (above ++ [name]), pathJoin [path, name], 0,
          formatRFC3339 modTime.unix, mode⟩] 0).Lists [] [above ++ [name]] := ⟨rfl, rfl⟩
      exact hself.append hbelow

theorem scanNodes_lists : ∀ {ns : List Node} {path : Bytes} {above : List Bytes},
    WellNamedNodes ns → pathElems path = pathElems scanPath ++ above →
    (scanNodes F scanPath path ns).Lists (filePathsOf F above ns) (dirPathsOf F above ns)
  | [], _, _, _, _ => ⟨rfl, rfl⟩
  | _ :: _, _, _, hns, hpath =>
    (scanNode_lists hns.1 hpath).append (scanNodes_lists hns.2.2 hpath)

end

/-! ## Facts about the paths -/

/-- A visited path goes through the node, and its parent is where the walk started or a
visited directory. -/
structure Visited (above : List Bytes) (name : Bytes) (dirs : List (List Bytes))
    (path : List Bytes) : Prop where
  through : ∃ rest, path = above ++ name :: rest ∧ Names (name :: rest)
  parent : path.dropLast = above ∨ path.dropLast ∈ dirs

theorem Visited.mono {name : Bytes} {dirs dirs' : List (List Bytes)} {p : List Bytes}
    (h : Visited above name dirs p) (hsub : ∀ d ∈ dirs, d ∈ dirs') :
    Visited above name dirs' p :=
  ⟨h.through, h.parent.imp_right (hsub _)⟩

/-- What is visited below a directory is visited through it. -/
theorem Visited.lift {name child : Bytes} {dirs : List (List Bytes)} {p : List Bytes}
    (hname : PosixName name) (h : Visited (above ++ [name]) child dirs p) :
    Visited above name ((above ++ [name]) :: dirs) p := by
  obtain ⟨⟨rest, rfl, hrest⟩, hparent⟩ := h
  refine ⟨⟨child :: rest, ?_, (Names.singleton hname).append hrest⟩, .inr ?_⟩
  · rw [append_assoc]
    rfl
  · exact mem_cons.mpr hparent

theorem visited_self {name : Bytes} (hname : PosixName name) (dirs : List (List Bytes)) :
    Visited above name dirs (above ++ [name]) :=
  ⟨⟨[], rfl, Names.singleton hname⟩, .inl dropLast_concat⟩

mutual

theorem paths_visited : ∀ {n : Node} {above : List Bytes}, n.WellNamed →
    ∀ p ∈ n.filePaths F above ++ n.dirPaths F above,
      Visited above n.name (n.dirPaths F above) p
  | .lost _, _, _, _, hp => absurd hp not_mem_nil
  | .file name size modTime mode, above, hn, p, hp => by
    rw [Node.filePaths, Node.dirPaths, append_nil] at hp
    split at hp
    · exact absurd hp not_mem_nil
    · rw [mem_singleton] at hp
      subst hp
      exact visited_self hn _
  | .dir name readable modTime mode children, above, hn, p, hp => by
    rw [Node.filePaths, Node.dirPaths] at hp
    rw [Node.dirPaths]
    split at hp
    · exact absurd hp not_mem_nil
    · rename_i hvisit
      rw [if_neg hvisit]
      have hbelow : p ∈ filePathsOf F (above ++ [name]) children ++
          dirPathsOf F (above ++ [name]) children →
          Visited above name ((above ++ [name]) :: dirPathsOf F (above ++ [name]) children) p := by
        intro hp
        obtain ⟨child, -, hchild⟩ := pathsOf_visited hn.2 p hp
        exact hchild.lift hn.1
      rcases mem_append.mp hp with hp | hp
      · exact hbelow (mem_append_left _ hp)
      · rcases mem_cons.mp hp with rfl | hp
        · exact visited_self hn.1 _
        · exact hbelow (mem_append_right _ hp)

theorem pathsOf_visited : ∀ {ns : List Node} {above : List Bytes}, WellNamedNodes ns →
    ∀ p ∈ filePathsOf F above ns ++ dirPathsOf F above ns,
      ∃ n ∈ ns, Visited above n.name (dirPathsOf F above ns) p
  | [], _, _, _, hp => absurd hp not_mem_nil
  | n :: ns, above, hns, p, hp => by
    have hhead : p ∈ n.filePaths F above ++ n.dirPaths F above →
        ∃ x ∈ n :: ns, Visited above x.name (dirPathsOf F above (n :: ns)) p := fun hp =>
      ⟨n, mem_cons_self, (paths_visited hns.1 p hp).mono
        fun d hd => mem_append_left _ hd⟩
    have htail : p ∈ filePathsOf F above ns ++ dirPathsOf F above ns →
        ∃ x ∈ n :: ns, Visited above x.name (dirPathsOf F above (n :: ns)) p := by
      intro hp
      obtain ⟨x, hx, h⟩ := pathsOf_visited hns.2.2 p hp
      exact ⟨x, mem_cons_of_mem n hx, h.mono fun d hd => mem_append_right _ hd⟩
    rw [filePathsOf, dirPathsOf] at hp
    rcases mem_append.mp hp with hp | hp
    · exact (mem_append.mp hp).elim (fun h => hhead (mem_append_left _ h))
        (fun h => htail (mem_append_left _ h))
    · exact (mem_append.mp hp).elim (fun h => hhead (mem_append_right _ h))
        (fun h => htail (mem_append_right _ h))

end

mutual

/-- No file is listed twice. -/
theorem nodup_filePaths : ∀ {n : Node} {above : List Bytes}, n.WellNamed →
    (n.filePaths F above).Nodup
  | .lost _, _, _ => nodup_nil
  | .file name size modTime mode, above, _ => by
    rw [Node.filePaths]
    split
    · exact nodup_nil
    · exact nodup_singleton _
  | .dir name readable modTime mode children, above, hn => by
    rw [Node.filePaths]
    split
    · exact nodup_nil
    · exact nodup_filePathsOf hn.2

theorem nodup_filePathsOf : ∀ {ns : List Node} {above : List Bytes}, WellNamedNodes ns →
    (filePathsOf F above ns).Nodup
  | [], _, _ => nodup_nil
  | n :: ns, above, hns => by
    refine nodup_append.mpr ⟨nodup_filePaths hns.1, nodup_filePathsOf hns.2.2, ?_⟩
    -- the paths of two siblings differ in the name behind `above`
    rintro p hp q hq rfl
    obtain ⟨rest, hrest, -⟩ := (paths_visited hns.1 p (mem_append_left _ hp)).through
    obtain ⟨x, hx, hvisited⟩ := pathsOf_visited hns.2.2 p (mem_append_left _ hq)
    obtain ⟨rest', hrest', -⟩ := hvisited.through
    have hname : n.name = x.name :=
      (List.cons.inj (append_cancel_left (hrest.symm.trans hrest'))).1
    exact hns.2.1 (hname ▸ mem_map_of_mem hx)

end

end

/-! ## What a scan is -/

/-- The files and directories of a scan: names a directory can hold, every parent scanned,
no file twice. -/
structure SourcePaths (files dirs : List (List Bytes)) : Prop where
  names : ∀ p ∈ files ++ dirs, Names p ∧ p ≠ []
  parent : ∀ p ∈ files ++ dirs, p.dropLast = [] ∨ p.dropLast ∈ dirs
  nodup : files.Nodup

/-- The paths of the root of the walk. -/
def rootPaths (pathsOf : List Node → List (List Bytes)) : Option (List Node) → List (List Bytes)
  | none => []
  | some children => pathsOf children

/-- **What `scanSourceTree` lists**: files and directories with parents in the list. -/
theorem scanSourceTree_lists (F : Filters) (scanPath : Bytes) {root : Option (List Node)}
    (hroot : ∀ children, root = some children → WellNamedNodes children) :
    (scanSourceTree F scanPath root).Lists (rootPaths (filePathsOf F []) root)
        (rootPaths (dirPathsOf F []) root) ∧
      SourcePaths (rootPaths (filePathsOf F []) root) (rootPaths (dirPathsOf F []) root) := by
  cases root with
  | none => exact ⟨⟨rfl, rfl⟩, fun _ hp => absurd hp not_mem_nil,
      fun _ hp => absurd hp not_mem_nil, nodup_nil⟩
  | some children =>
    have hnames := hroot children rfl
    refine ⟨scanNodes_lists hnames (append_nil _).symm, ?_, ?_, nodup_filePathsOf hnames⟩
    · intro p hp
      obtain ⟨n, -, ⟨rest, rfl, hrest⟩, -⟩ := pathsOf_visited hnames p hp
      exact ⟨hrest, cons_ne_nil _ _⟩
    · intro p hp
      obtain ⟨n, -, -, hparent⟩ := pathsOf_visited hnames p hp
      exact hparent

/-! ## The directories of the new manifest -/

section
variable {files dirs : List (List Bytes)}

/-- The scanned directories that nothing scanned is in. -/
def leafDirs (files dirs : List (List Bytes)) : List (List Bytes) :=
  dirs.filter fun d =>
    decide (joinSlash d ∉ dirHasChildren (files.map joinSlash) (dirs.map joinSlash))

/-- `addEmptyDirs` adds exactly these. -/
theorem addEmptyDirs_eq {sc : Scan} (hsc : sc.Lists files dirs) (h : SourcePaths files dirs)
    (m : Manifest) : addEmptyDirs m sc.files sc.dirEntries =
      (leafDirs files dirs).foldl (fun m d => m.addEmptyDir (joinSlash d)) m := by
  unfold addEmptyDirs leafDirs
  dsimp only
  rw [hsc.files, hsc.dirs]
  generalize dirHasChildren (files.map joinSlash) (dirs.map joinSlash) = hasChildren
  -- only the paths of the entries matter
  have hpaths : ∀ (l : List ScanEntry) (m : Manifest),
      l.foldl (fun m d => if d.relPath ∈ hasChildren then m
        else if (splitSlash d.relPath).getLastD [] = [] then m else m.addEmptyDir d.relPath) m =
      (l.map ScanEntry.relPath).foldl (fun m p => if p ∈ hasChildren then m
        else if (splitSlash p).getLastD [] = [] then m else m.addEmptyDir p) m := by
    intro l m
    rw [foldl_map]
  rw [hpaths, hsc.dirs, foldl_map, foldl_filter]
  refine foldl_ext _ _ m fun m d hd => ?_
  obtain ⟨hnames, hne⟩ := h.names d (mem_append_right _ hd)
  have hlast : (splitSlash (joinSlash d)).getLastD [] ≠ [] := by
    rw [hnames.split_join hne, getLastD_eq_getLast?, List.getLast?_eq_getLast_of_ne_nil hne]
    exact (hnames _ (getLast_mem hne)).pathName.ne_nil
  rw [if_neg hlast]
  by_cases hchild : joinSlash d ∈ hasChildren
  · rw [if_pos hchild, if_neg (fun hnot => (of_decide_eq_true hnot : _ ∉ hasChildren) hchild)]
  · rw [if_neg hchild, if_pos (decide_eq_true hchild)]

/-- A directory with children has a scanned file below it, or a scanned directory in it. -/
theorem child_of_hasChildren (h : SourcePaths files dirs) (hd : d ∈ dirs)
    (hchild : joinSlash d ∈ dirHasChildren (files.map joinSlash) (dirs.map joinSlash)) :
    (∃ p ∈ files, d <+: p.dropLast) ∨ ∃ c, d ++ [c] ∈ dirs := by
  have hdnames := h.names d (mem_append_right _ hd)
  rcases mem_append.mp hchild with hfile | hdir
  · obtain ⟨path, hpath, hj⟩ := mem_flatMap.mp hfile
    obtain ⟨p, hp, rfl⟩ := mem_map.mp hpath
    obtain ⟨hpnames, hpne⟩ := h.names p (mem_append_left _ hp)
    rw [hpnames.split_join hpne] at hj
    obtain ⟨j, hj, heq⟩ := mem_map.mp hj
    have htake : Names (p.take j) := fun seg hseg => hpnames seg (mem_of_mem_take hseg)
    have hdj : p.take j = d := htake.joinSlash_inj hdnames.1 heq
    have hlt : j ≤ p.length - 1 := by
      have := mem_range'_1.mp hj
      omega
    refine .inl ⟨p, hp, ?_⟩
    rw [← hdj, dropLast_eq_take]
    exact take_prefix_take_left hlt
  · obtain ⟨path, hpath, hsome⟩ := mem_filterMap.mp hdir
    obtain ⟨d', hd', rfl⟩ := mem_map.mp hpath
    obtain ⟨hnames', hne'⟩ := h.names d' (mem_append_right _ hd')
    obtain ⟨above, c, rfl⟩ : ∃ above c, d' = above ++ [c] :=
      ⟨_, _, (dropLast_append_getLast hne').symm⟩
    have hc := hnames' c (mem_append_right _ (mem_singleton_self c))
    rw [splitLast_joinSlash above hc.slash] at hsome
    split at hsome
    · cases hnames'.of_append_left.joinSlash_inj hdnames.1 (Option.some.inj hsome)
      exact .inr ⟨c, hd'⟩
    · cases hsome

/-- **Every scanned directory is above a leaf directory or a file.** -/
theorem exists_leaf_below (h : SourcePaths files dirs) (hd : d ∈ dirs) :
    (∃ leaf ∈ leafDirs files dirs, d <+: leaf) ∨ ∃ p ∈ files, d <+: p.dropLast := by
  obtain ⟨bound, hbound⟩ : ∃ bound, ∀ d ∈ dirs, d.length ≤ bound :=
    ⟨(dirs.map List.length).sum, fun d hd =>
      single_le_sum (fun _ _ => Nat.zero_le _) _ (mem_map_of_mem hd)⟩
  -- down the tree: a child is longer, and lengths are bounded
  induction hn : bound - d.length using Nat.strongRecOn generalizing d with
  | ind n ih =>
    by_cases hchild : joinSlash d ∈ dirHasChildren (files.map joinSlash) (dirs.map joinSlash)
    · rcases child_of_hasChildren h hd hchild with hfile | ⟨c, hc⟩
      · exact .inr hfile
      · have hlen := hbound _ hc
        rw [length_append, length_singleton] at hlen
        have hless : bound - (d ++ [c]).length < n := by
          rw [length_append, length_singleton]
          omega
        have hprefix : d <+: d ++ [c] := prefix_append _ _
        rcases ih _ hless hc rfl with ⟨leaf, hleaf, hbelow⟩ | ⟨p, hp, hbelow⟩
        · exact .inl ⟨leaf, hleaf, hprefix.trans hbelow⟩
        · exact .inr ⟨p, hp, hprefix.trans hbelow⟩
    · exact .inl ⟨d, mem_filter.mpr ⟨hd, decide_eq_true hchild⟩, prefix_refl d⟩

/-- With a path, everything above it is scanned. -/
theorem SourcePaths.prefix_mem (h : SourcePaths files dirs) (hd : d ∈ dirs) (habove : above <+: d)
    (hne : above ≠ []) : above ∈ dirs := by
  obtain ⟨below, rfl⟩ := habove
  induction below using List.reverseRecOn with
  | nil => rwa [append_nil] at hd
  | append_singleton below c ih =>
    rw [← append_assoc] at hd
    have hparent := h.parent _ (mem_append_right _ hd)
    rw [dropLast_concat] at hparent
    rcases hparent with hnil | hmem
    · exact absurd (append_eq_nil_iff.mp hnil).1 hne
    · exact ih hmem

end

end GbfCore
