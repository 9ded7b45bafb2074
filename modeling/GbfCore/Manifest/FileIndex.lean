import GbfCore.Manifest.CheckedLoad
import GbfCore.Manifest.TreeShape

/-!
# The file index (manifest.go)

`AllFiles`, `BuildFileMap` and `FindFile` put a path together from a directory and a name, or take
it apart, each in its own way. On the manifests that `ValidateStructure` accepts they agree
(`fileIndex_faithful`), in whatever order Go ranges over `Dirs`: a path has one directory and one
name, so that no two files have the same path.

`FindFileTolerant` also ranges over the map that `BuildFileMap` made, and returns the first match.
It may have several, which differ in case, and which one is the first is up to the runtime
(`findFileTolerant_iff`).
-/

namespace GbfCore

open List SortedMap

variable {order : List (Bytes × Option Dir)} {f : FileEntry} {path : Bytes}

/-! ## Ranging over the directories -/

/-- The files of one directory under their paths. -/
def filesOf (e : Bytes × Option Dir) : List FileEntry :=
  match e.2 with
  | none => []
  | some d => d.fileList.map fun f => { f with name := childPath e.1 f.name }

/-- `AllFiles`, with `Dirs` ranged over in this order. -/
def allFilesIn (order : List (Bytes × Option Dir)) : List FileEntry := order.flatMap filesOf

/-- `BuildFileMap`, with `Dirs` ranged over in this order. -/
def fileMapIn (order : List (Bytes × Option Dir)) : SortedMap Bytes FileEntry :=
  (allFilesIn order).foldl (fun result f => result.insert f.name f) .empty

theorem mem_allFilesIn {m : Manifest} (h : order.Perm m.dirEntries) :
    f ∈ allFilesIn order ↔ f ∈ m.allFiles :=
  (h.flatMap_right filesOf).mem_iff

/-- The files of a directory with this path. -/
def filesAt (path : Bytes) (e : Bytes × Option Dir) : List FileEntry :=
  (filesOf e).filter fun f => decide (f.name = path)

theorem mem_filesAt {e : Bytes × Option Dir} :
    f ∈ filesAt path e ↔ f ∈ filesOf e ∧ f.name = path := by
  rw [filesAt, mem_filter, decide_eq_true_iff]

/-- The map has the last file of each path. -/
theorem lookup_fileMapIn (order : List (Bytes × Option Dir)) (path : Bytes) :
    (fileMapIn order).lookup path = (order.flatMap (filesAt path)).getLast? := by
  rw [fileMapIn, lookup_foldl_insert_key, allFilesIn, filter_flatMap]
  rfl

/-! ## Accepted manifests -/

section
variable {m : Manifest} (hm : m.Structured)
include hm

/-- A path has one directory and one name. -/
theorem nodup_allFiles : (m.allFiles.map FileEntry.name).Nodup := by
  have hkeys : m.dirEntries.Pairwise fun a b => a.1 ≠ b.1 := by
    unfold Manifest.dirEntries
    cases m.dirs with
    | none => exact .nil
    | some dirs =>
      refine dirs.sorted.imp fun hlt heq => ?_
      rw [heq] at hlt
      exact Std.Irrefl.irrefl _ hlt
  rw [Manifest.allFiles, map_flatMap]
  show (m.dirEntries.flatMap fun e => (filesOf e).map FileEntry.name).Nodup
  rw [nodup_flatMap]
  constructor
  · rintro ⟨key, d⟩ he
    obtain ⟨d, rfl, hok⟩ := hm.dirs _ he
    show ((d.fileList.map fun f => { f with name := childPath key f.name }).map _).Nodup
    rw [map_map]
    refine (nodup_map_iff_inj_on hok.nodup.of_map).mpr ?_
    intro f hf g hg heq
    exact inj_on_of_nodup_map hok.nodup hf hg
      (childPath_inj (hok.files f hf).name (hok.files g hg).name heq).2
  · refine hkeys.imp_of_mem fun {a b} ha hb hne => ?_
    intro path hpa hpb
    obtain ⟨f, hf, rfl⟩ := mem_map.mp hpa
    obtain ⟨g, hg, heq⟩ := mem_map.mp hpb
    obtain ⟨d, hd, hok⟩ := hm.dirs _ ha
    obtain ⟨d', hd', hok'⟩ := hm.dirs _ hb
    rw [filesOf, hd] at hf
    rw [filesOf, hd'] at hg
    obtain ⟨f₀, hf₀, rfl⟩ := mem_map.mp hf
    obtain ⟨g₀, hg₀, rfl⟩ := mem_map.mp hg
    exact hne (childPath_inj (hok'.files g₀ hg₀).name (hok.files f₀ hf₀).name heq).1.symm

theorem eq_of_allFiles {g : FileEntry} (hf : f ∈ m.allFiles) (hg : g ∈ m.allFiles)
    (h : f.name = g.name) : f = g :=
  inj_on_of_nodup_map (nodup_allFiles hm) hf hg h

/-- The map has every file, under its path. -/
theorem lookup_fileMapIn_eq_some (ho : order.Perm m.dirEntries) :
    (fileMapIn order).lookup path = some f ↔ f ∈ m.allFiles ∧ f.name = path := by
  have hmem : ∀ g, g ∈ order.flatMap (filesAt path) ↔ g ∈ m.allFiles ∧ g.name = path := by
    intro g
    rw [← mem_allFilesIn ho, allFilesIn, mem_flatMap, mem_flatMap]
    simp only [mem_filesAt, ← and_assoc, exists_and_right]
  rw [lookup_fileMapIn]
  constructor
  · intro hlast
    exact (hmem f).mp (mem_of_getLast? hlast)
  · intro hf
    obtain ⟨g, hg⟩ := Option.isSome_iff_exists.mp
      (getLast?_isSome.mpr (ne_nil_of_mem ((hmem f).mpr hf)))
    obtain ⟨hg', hpath⟩ := (hmem g).mp (mem_of_getLast? hg)
    rw [hg, eq_of_allFiles hm hg' hf.1 (hpath.trans hf.2.symm)]

omit hm in
/-- The two parts of a query that is not absolute make up the query. -/
theorem childPath_splitLast {query : Bytes} (h : query.head? ≠ some slash) :
    childPath (splitLast query).1 (splitLast query).2 = query := by
  rcases cut_at_lastSlash query with hnot | ⟨a, b, hb, rfl⟩
  · rw [splitLast_of_notMem hnot]
    exact if_pos rfl
  · have hne : a ≠ [] := by
      rintro rfl
      exact h rfl
    rw [splitLast_append hb]
    exact if_neg hne

omit hm in
theorem splitLast_childPath (key : Bytes) {name : Bytes} (h : slash ∉ name) :
    splitLast (childPath key name) = (key, name) := by
  unfold childPath
  split
  · rename_i hroot
    rw [hroot, splitLast_of_notMem h]
  · exact splitLast_append h

omit hm in
theorem find?_name {files : List FileEntry} (h : (files.map FileEntry.name).Nodup) (hf : f ∈ files) :
    (files.find? fun g => decide (g.name = f.name)) = some f := by
  have hsome : (files.find? fun g => decide (g.name = f.name)).isSome = true :=
    find?_isSome.mpr ⟨f, hf, by simp⟩
  obtain ⟨g, hg⟩ := Option.isSome_iff_exists.mp hsome
  have hname : g.name = f.name := by
    simpa using find?_some hg
  rw [hg, inj_on_of_nodup_map h (mem_of_find?_eq_some hg) hf hname]

theorem findFile_eq_some {query : Bytes} (hq : query.head? ≠ some slash) :
    m.findFile query = some f ↔ f ∈ m.allFiles ∧ f.name = query := by
  constructor
  · intro h
    unfold Manifest.findFile at h
    dsimp only at h
    split at h
    · rename_i d hd
      obtain ⟨f₀, hf₀, rfl⟩ := Option.map_eq_some_iff.mp h
      have hname : f₀.name = (splitLast query).2 := by
        simpa using find?_some hf₀
      refine ⟨mem_flatMap.mpr ⟨_, lookupDir_eq_some.mp hd, ?_⟩, ?_⟩
      · exact mem_map_of_mem (mem_of_find?_eq_some hf₀)
      · show childPath _ f₀.name = query
        rw [hname, childPath_splitLast hq]
    · cases h
  · rintro ⟨hf, rfl⟩
    obtain ⟨⟨key, d⟩, he, hfd⟩ := mem_flatMap.mp hf
    obtain ⟨d, rfl, hok⟩ := hm.dirs _ he
    obtain ⟨f₀, hf₀, rfl⟩ := mem_map.mp hfd
    -- the path of a file leads back to its directory and its name
    unfold Manifest.findFile
    dsimp only
    rw [splitLast_childPath key (hok.files f₀ hf₀).name.slash]
    dsimp only
    rw [lookupDir_eq_some.mpr he]
    dsimp only
    rw [find?_name hok.nodup hf₀]
    rfl

end

/-- **The index of an accepted manifest is faithful**: `AllFiles` has as many files as the
statistics say and no path twice, `BuildFileMap` has exactly these files under their paths, and
`FindFile` finds them, in whatever orders the directories are ranged over. -/
theorem fileIndex_faithful {m : Manifest} (h : m.validateStructure = .ok ())
    {order order' : List (Bytes × Option Dir)} (ho : order.Perm m.dirEntries)
    (ho' : order'.Perm m.dirEntries) :
    ((allFilesIn order).length : Int) = m.stats.fileCount ∧
      ((allFilesIn order).map FileEntry.name).Nodup ∧
      (∀ path f, (fileMapIn order').lookup path = some f ↔ f ∈ allFilesIn order ∧ f.name = path) ∧
      ∀ query : Bytes, query.head? ≠ some slash →
        m.findFile query = (fileMapIn order').lookup query := by
  have hm := validateStructure_ok_iff.mp h
  have hperm : (allFilesIn order).Perm m.allFiles := ho.flatMap_right filesOf
  have hcount : m.allFiles.length = m.files.length := by
    rw [Manifest.allFiles, Manifest.files, length_flatMap, length_flatMap]
    congr 1
    refine map_congr_left fun e _ => ?_
    obtain ⟨key, _ | d⟩ := e
    · rfl
    · exact length_map _
  refine ⟨?_, ?_, ?_, ?_⟩
  · rw [hperm.length_eq, hcount, hm.fileCount]
  · exact (hperm.map FileEntry.name).nodup_iff.mpr (nodup_allFiles hm)
  · intro path f
    rw [lookup_fileMapIn_eq_some hm ho', mem_allFilesIn ho]
  · intro query hq
    refine Option.ext fun f => ?_
    rw [findFile_eq_some hm hq, lookup_fileMapIn_eq_some hm ho']

/-- A file `f` in the root directory and another one in the directory `d`. -/
def twoDirs : Manifest :=
  (Manifest.zero.addFile ⟨ascii "f", [], 1, [], 0, [], []⟩).addFile
    ⟨ascii "d/f", [], 2, [], 0, [], []⟩

/-- The directories are ranged over in the other order. -/
theorem fileIndex_faithful_twoDirs :
    twoDirs.validateStructure = .ok () ∧ (allFilesIn twoDirs.dirEntries.reverse).length = 2 ∧
      ∃ f, twoDirs.findFile (ascii "d/f") = some f ∧ f.size = 2 ∧
        f ∈ allFilesIn twoDirs.dirEntries.reverse := by
  have hvalid : twoDirs.validateStructure = .ok () := by decide
  have horder := reverse_perm twoDirs.dirEntries
  obtain ⟨-, -, hmap, hfind⟩ := fileIndex_faithful hvalid horder horder
  obtain ⟨f, hf, hsize⟩ : ∃ f, twoDirs.findFile (ascii "d/f") = some f ∧ f.size = 2 :=
    ⟨_, rfl, by decide⟩
  exact ⟨hvalid, by decide, f, hf, hsize, ((hmap _ f).mp ((hfind _ (by decide)).symm.trans hf)).1⟩

/-! ## The tolerant lookup -/

/-- `toggleLeadingDot`. -/
def toggleLeadingDot (p : Bytes) : Bytes :=
  if p = [] then p
  else
    let dir := p.takeWhile (· != slash)
    let rest := p.dropWhile (· != slash)
    if dir.head? = some dot then dir.tail ++ rest else dot :: dir ++ rest

example : toggleLeadingDot (ascii ".agent/x") = ascii "agent/x" := by decide

namespace Checked

/-- The body of the loop of `BuildFileMap` over the directories. -/
def addFilesOf (result : SortedMap Bytes FileEntry) (e : Bytes × Option Dir) :
    Checked (SortedMap Bytes FileEntry) := do
  let d ← deref e.2
  return d.fileList.foldl (fun result f => result.insert (childPath e.1 f.name)
    { f with name := childPath e.1 f.name }) result

/-- `BuildFileMap`, with `Dirs` ranged over in this order. -/
def fileMapIn (order : List (Bytes × Option Dir)) : Checked (SortedMap Bytes FileEntry) :=
  order.foldlM addFilesOf .empty

theorem fileMapIn_of_present (h : ∀ e ∈ order, ∃ d, e.2 = some d) :
    fileMapIn order = .ok (GbfCore.fileMapIn order) := by
  rw [fileMapIn, GbfCore.fileMapIn, allFilesIn, foldl_flatMap]
  refine foldlM_ok_of_mem (fun e he result => ?_) _
  obtain ⟨d, hd⟩ := h e he
  rw [addFilesOf, filesOf, hd]
  dsimp only
  rw [foldl_map]
  rfl

theorem fileMapIn_of_nil (h : ∃ e ∈ order, e.2 = none) :
    fileMapIn order = .error .nilPointer := by
  have hloop : ∀ result, order.foldlM addFilesOf result = .error .nilPointer := by
    induction order with
    | nil =>
      obtain ⟨e, he, -⟩ := h
      exact absurd he not_mem_nil
    | cons e rest ih =>
      intro result
      obtain ⟨key, _ | d⟩ := e
      · rfl
      · refine ih ?_ _
        obtain ⟨e', he', hnone⟩ := h
        rcases mem_cons.mp he' with rfl | he'
        · cases hnone
        · exact ⟨e', he', hnone⟩
  exact hloop _

end Checked

/-- The orders in which the runtime ranges over `Dirs` and over a file map. -/
structure RangeOrder (m : Manifest) where
  dirs : List (Bytes × Option Dir)
  dirs_perm : dirs.Perm m.dirEntries
  fileMap : SortedMap Bytes FileEntry → List (Bytes × FileEntry)
  fileMap_perm : ∀ map, (fileMap map).Perm map.entries

section
variable (lower : Bytes → Bytes) (m : Manifest) (filePath : Bytes)

/-- `FindFileTolerant`, where `lower` is `strings.ToLower`. -/
def findFileTolerant (o : RangeOrder m) : Checked (Option FileEntry) := do
  let fileMap ← Checked.fileMapIn o.dirs
  let alt := toggleLeadingDot filePath
  match if alt ≠ filePath then fileMap.lookup alt else none with
  | some entry => return some entry
  | none =>
    let lowered := lower filePath
    let altLower := if alt ≠ filePath then lower alt else lowered
    return ((o.fileMap fileMap).find? fun e => lower e.1 = lowered ∨ lower e.1 = altLower).map
      Prod.snd

/-- The path is the query or its leading-dot variant, up to case. -/
def Tolerated (path : Bytes) : Prop :=
  lower path = lower filePath ∨ lower path = lower (toggleLeadingDot filePath)

/-- The file is the last one with this path in its directory, so that `BuildFileMap` keeps it if
this directory is the last one with a file of this path. -/
def Manifest.Indexed (path : Bytes) (f : FileEntry) : Prop :=
  ∃ e ∈ m.dirEntries, (filesAt path e).getLast? = some f

/-- The answers of the tolerant lookup: files at the leading-dot variant if there are any, and
otherwise files at any tolerated path. -/
def Manifest.Answers (f : FileEntry) : Prop :=
  if toggleLeadingDot filePath ≠ filePath ∧ ∃ g ∈ m.allFiles, g.name = toggleLeadingDot filePath then
    m.Indexed (toggleLeadingDot filePath) f
  else m.Indexed f.name f ∧ Tolerated lower filePath f.name

variable {lower m filePath}

theorem Manifest.Indexed.mem (h : m.Indexed path f) :
    f ∈ m.allFiles ∧ f.name = path := by
  obtain ⟨e, he, hlast⟩ := h
  obtain ⟨hf, hname⟩ := mem_filesAt.mp (mem_of_getLast? hlast)
  exact ⟨mem_flatMap.mpr ⟨e, he, hf⟩, hname⟩

theorem Manifest.Answers.mem (h : m.Answers lower filePath f) :
    f ∈ m.allFiles ∧ Tolerated lower filePath f.name := by
  unfold Manifest.Answers at h
  split at h
  · obtain ⟨hf, hname⟩ := h.mem
    exact ⟨hf, .inr (by rw [hname])⟩
  · exact ⟨h.1.mem.1, h.2⟩

theorem indexed_of_lookup (ho : order.Perm m.dirEntries)
    (h : (fileMapIn order).lookup path = some f) :
    m.Indexed path f := by
  have hlast : ∀ l : List (Bytes × Option Dir), (l.flatMap (filesAt path)).getLast? = some f →
      ∃ e ∈ l, (filesAt path e).getLast? = some f := by
    intro l
    induction l with
    | nil => exact fun hnil => nomatch hnil
    | cons e rest ih =>
      intro hsome
      rw [flatMap_cons, getLast?_append] at hsome
      cases hrest : (rest.flatMap (filesAt path)).getLast? with
      | some g =>
        rw [hrest] at hsome
        cases hsome
        obtain ⟨e', he', hfound⟩ := ih hrest
        exact ⟨e', mem_cons_of_mem e he', hfound⟩
      | none =>
        rw [hrest] at hsome
        exact ⟨e, mem_cons_self, hsome⟩
  rw [lookup_fileMapIn] at h
  obtain ⟨e, he, hfound⟩ := hlast order h
  exact ⟨e, ho.mem_iff.mp he, hfound⟩

/-- With its directory last, the file stays in the map. -/
theorem Manifest.Indexed.exists_order (h : m.Indexed path f) :
    ∃ order, order.Perm m.dirEntries ∧ (fileMapIn order).lookup path = some f := by
  obtain ⟨e, he, hlast⟩ := h
  obtain ⟨before, after, hsplit⟩ := append_of_mem he
  refine ⟨before ++ after ++ [e], ?_, ?_⟩
  · rw [hsplit]
    exact (perm_append_singleton e _).trans perm_middle.symm
  · rw [lookup_fileMapIn, flatMap_append, getLast?_append, flatMap_singleton, hlast]
    rfl

/-- Whether a path is in the map does not depend on the order. -/
theorem lookup_eq_none_iff (ho : order.Perm m.dirEntries) :
    (fileMapIn order).lookup path = none ↔ ∀ f ∈ m.allFiles, f.name ≠ path := by
  rw [lookup_fileMapIn, getLast?_eq_none_iff, flatMap_eq_nil_iff]
  constructor
  · intro hnil f hf hname
    obtain ⟨e, he, hfe⟩ := mem_flatMap.mp hf
    exact ne_nil_of_mem (mem_filesAt.mpr ⟨hfe, hname⟩) (hnil e (ho.mem_iff.mpr he))
  · intro hnone e he
    refine eq_nil_iff_forall_not_mem.mpr fun f hf => ?_
    obtain ⟨hfe, hname⟩ := mem_filesAt.mp hf
    exact hnone f (mem_flatMap.mpr ⟨e, ho.mem_iff.mp he, hfe⟩) hname

instance (path : Bytes) : Decidable (Tolerated lower filePath path) :=
  inferInstanceAs (Decidable (_ ∨ _))

/-- The tolerant lookup where no directory is nil: the map at the leading-dot variant, and then
the first tolerated path. -/
theorem findFileTolerant_of_present (hp : Checked.Present m) (o : RangeOrder m) :
    findFileTolerant lower m filePath o =
      .ok ((if toggleLeadingDot filePath ≠ filePath then
          (fileMapIn o.dirs).lookup (toggleLeadingDot filePath) else none).or
        (((o.fileMap (fileMapIn o.dirs)).find? fun e => decide (Tolerated lower filePath e.1)).map
          Prod.snd)) := by
  have hmap : Checked.fileMapIn o.dirs = .ok (fileMapIn o.dirs) :=
    Checked.fileMapIn_of_present fun e he => hp e (o.dirs_perm.mem_iff.mp he)
  have halt : (if toggleLeadingDot filePath ≠ filePath then lower (toggleLeadingDot filePath)
      else lower filePath) = lower (toggleLeadingDot filePath) := by
    split
    · rfl
    · rename_i heq
      rw [not_not.mp heq]
  rw [findFileTolerant, Checked.ok_bind hmap]
  dsimp only
  rw [halt]
  cases if toggleLeadingDot filePath ≠ filePath then
    (fileMapIn o.dirs).lookup (toggleLeadingDot filePath) else none with
  | some entry => rfl
  | none => rfl

theorem findFileTolerant_of_nil (hp : ¬ Checked.Present m) (o : RangeOrder m) :
    findFileTolerant lower m filePath o = .error .nilPointer := by
  have hmap : Checked.fileMapIn o.dirs = .error .nilPointer := by
    refine Checked.fileMapIn_of_nil ?_
    by_contra hall
    refine hp fun e he => Option.ne_none_iff_exists'.mp fun hnone => hall ?_
    exact ⟨e, o.dirs_perm.mem_iff.mpr he, hnone⟩
  rw [findFileTolerant, hmap]
  rfl

/-- Where no directory is nil, the lookup returns an answer if there is a tolerated path. -/
theorem findFileTolerant_spec (hp : Checked.Present m) (o : RangeOrder m) :
    (∃ f, findFileTolerant lower m filePath o = .ok (some f) ∧ m.Answers lower filePath f) ∨
      findFileTolerant lower m filePath o = .ok none ∧
        ∀ f ∈ m.allFiles, ¬ Tolerated lower filePath f.name := by
  rw [findFileTolerant_of_present hp]
  by_cases halt : toggleLeadingDot filePath ≠ filePath ∧
      ∃ g ∈ m.allFiles, g.name = toggleLeadingDot filePath
  · left
    cases hlookup : (fileMapIn o.dirs).lookup (toggleLeadingDot filePath) with
    | none =>
      obtain ⟨g, hg, hname⟩ := halt.2
      exact absurd hname ((lookup_eq_none_iff o.dirs_perm).mp hlookup g hg)
    | some f =>
      refine ⟨f, by rw [if_pos halt.1]; rfl, ?_⟩
      rw [Manifest.Answers, if_pos halt]
      exact indexed_of_lookup o.dirs_perm hlookup
  · have hnone : (if toggleLeadingDot filePath ≠ filePath then
        (fileMapIn o.dirs).lookup (toggleLeadingDot filePath) else none) = none := by
      split
      · rename_i hne
        exact (lookup_eq_none_iff o.dirs_perm).mpr fun f hf hname => halt ⟨hne, f, hf, hname⟩
      · rfl
    rw [hnone, Option.none_or]
    have hentry : ∀ e, e ∈ o.fileMap (fileMapIn o.dirs) ↔
        (fileMapIn o.dirs).lookup e.1 = some e.2 := fun e => by
      rw [(o.fileMap_perm _).mem_iff, lookup_eq_some]
    cases hfind : (o.fileMap (fileMapIn o.dirs)).find?
        fun e => decide (Tolerated lower filePath e.1) with
    | some e =>
      left
      have hindexed := indexed_of_lookup o.dirs_perm
        ((hentry e).mp (mem_of_find?_eq_some hfind))
      refine ⟨e.2, rfl, ?_⟩
      rw [Manifest.Answers, if_neg halt, hindexed.mem.2]
      exact ⟨hindexed, by simpa using find?_some hfind⟩
    | none =>
      right
      refine ⟨rfl, fun f hf htol => ?_⟩
      cases hlookup : (fileMapIn o.dirs).lookup f.name with
      | none => exact (lookup_eq_none_iff o.dirs_perm).mp hlookup f hf rfl
      | some g =>
        have hscan := find?_eq_none.mp hfind (f.name, g) ((hentry _).mpr hlookup)
        exact hscan (decide_eq_true htol)

/-- Every answer is the result for some orders. -/
theorem Manifest.Answers.exists_order (hp : Checked.Present m) (h : m.Answers lower filePath f) :
    ∃ o : RangeOrder m, findFileTolerant lower m filePath o = .ok (some f) := by
  by_cases halt : toggleLeadingDot filePath ≠ filePath ∧
      ∃ g ∈ m.allFiles, g.name = toggleLeadingDot filePath
  · rw [Manifest.Answers, if_pos halt] at h
    obtain ⟨order, ho, hlookup⟩ := h.exists_order
    refine ⟨⟨order, ho, entries, fun _ => List.Perm.refl _⟩, ?_⟩
    rw [findFileTolerant_of_present hp, if_pos halt.1, hlookup]
    rfl
  · rw [Manifest.Answers, if_neg halt] at h
    obtain ⟨order, ho, hlookup⟩ := h.1.exists_order
    -- the runtime starts with the entry of the file, where there is one
    let first : Bytes × FileEntry := (f.name, f)
    refine ⟨⟨order, ho, fun map => if first ∈ map.entries then first :: map.entries.erase first
      else map.entries, fun map => ?_⟩, ?_⟩
    · split
      · rename_i hmem
        exact (perm_cons_erase hmem).symm
      · exact List.Perm.refl _
    · have hnone : (if toggleLeadingDot filePath ≠ filePath then
          (fileMapIn order).lookup (toggleLeadingDot filePath) else none) = none := by
        split
        · rename_i hne
          exact (lookup_eq_none_iff ho).mpr fun g hg hname => halt ⟨hne, g, hg, hname⟩
        · rfl
      rw [findFileTolerant_of_present hp]
      dsimp only
      rw [hnone, if_pos (lookup_eq_some.mp hlookup), find?_cons_of_pos]
      · rfl
      · exact decide_eq_true h.2

variable (lower m filePath)

/-- **The tolerant lookup and the order of the maps**: the result is the same for all orders, and
a tolerated file if there is one, exactly if there is no tolerated file, or no directory is nil and
there is only one answer. -/
theorem findFileTolerant_iff :
    ((∀ o o' : RangeOrder m,
        findFileTolerant lower m filePath o = findFileTolerant lower m filePath o') ∧
      ((∃ f ∈ m.allFiles, Tolerated lower filePath f.name) → ∀ o : RangeOrder m,
        ∃ f ∈ m.allFiles, Tolerated lower filePath f.name ∧
          findFileTolerant lower m filePath o = .ok (some f))) ↔
      (∀ f ∈ m.allFiles, ¬ Tolerated lower filePath f.name) ∨
        Checked.Present m ∧
          ∀ f g, m.Answers lower filePath f → m.Answers lower filePath g → f = g := by
  constructor
  · rintro ⟨hsame, hfound⟩
    by_cases hsome : ∃ f ∈ m.allFiles, Tolerated lower filePath f.name
    swap
    · exact .inl fun f hf htol => hsome ⟨f, hf, htol⟩
    have hp : Checked.Present m := by
      by_contra hp
      obtain ⟨f, -, -, hok⟩ := hfound hsome
        ⟨m.dirEntries, List.Perm.refl _, entries, fun _ => List.Perm.refl _⟩
      rw [findFileTolerant_of_nil hp] at hok
      cases hok
    refine .inr ⟨hp, fun f g hf hg => ?_⟩
    -- each of the two is found in some order
    obtain ⟨o, hof⟩ := hf.exists_order hp
    obtain ⟨o', hog⟩ := hg.exists_order hp
    have heq := hof.symm.trans ((hsame o o').trans hog)
    exact Option.some.inj (Except.ok.inj heq)
  · rintro (hnone | ⟨hp, honly⟩)
    · refine ⟨fun o o' => ?_, fun ⟨f, hf, htol⟩ => absurd htol (hnone f hf)⟩
      by_cases hp : Checked.Present m
      · have hok : ∀ o : RangeOrder m, findFileTolerant lower m filePath o = .ok none := by
          intro o
          obtain ⟨f, hok, hf⟩ | ⟨hok, -⟩ := findFileTolerant_spec hp o
          · exact absurd hf.mem.2 (hnone f hf.mem.1)
          · exact hok
        rw [hok o, hok o']
      · rw [findFileTolerant_of_nil hp, findFileTolerant_of_nil hp]
    · constructor
      · intro o o'
        rcases findFileTolerant_spec hp o with ⟨f, hok, hf⟩ | ⟨hok, hnone⟩ <;>
          rcases findFileTolerant_spec hp o' with ⟨g, hok', hg⟩ | ⟨hok', hnone'⟩
        · rw [hok, hok', honly f g hf hg]
        · exact absurd hf.mem.2 (hnone' f hf.mem.1)
        · exact absurd hg.mem.2 (hnone g hg.mem.1)
        · rw [hok, hok']
      · rintro ⟨f₀, hf₀, htol⟩ o
        rcases findFileTolerant_spec hp o with ⟨f, hok, hf⟩ | ⟨-, hnone⟩
        · exact ⟨f, hf.mem.1, hf.mem.2, hok⟩
        · exact absurd htol (hnone f₀ hf₀)

end

/-- The files `Aa` of one byte and `aA` of two in the root directory. -/
def twoCases : Manifest :=
  { Manifest.zero with
    dirs := some (empty.insert [] (some ⟨some
      [⟨ascii "Aa", [], 1, [], 0, [], []⟩, ⟨ascii "aA", [], 2, [], 0, [], []⟩], none⟩))
    stats := { ManifestStats.zero with fileCount := 2, totalSize := 3 } }

/-- For `AA` the runtime decides which of the two is returned. -/
theorem twoCases_depends_on_order :
    twoCases.validateStructure = .ok () ∧ ∃ o o' : RangeOrder twoCases,
      findFileTolerant toLower twoCases (ascii "AA") o =
        .ok (some ⟨ascii "Aa", [], 1, [], 0, [], []⟩) ∧
      findFileTolerant toLower twoCases (ascii "AA") o' =
        .ok (some ⟨ascii "aA", [], 2, [], 0, [], []⟩) := by
  refine ⟨by decide, ⟨twoCases.dirEntries, List.Perm.refl _, entries,
    fun _ => List.Perm.refl _⟩, ⟨twoCases.dirEntries, List.Perm.refl _,
    fun map => map.entries.reverse, fun map => reverse_perm _⟩, ?_, ?_⟩
  · decide
  · decide

end GbfCore
