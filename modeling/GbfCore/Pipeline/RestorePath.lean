import GbfCore.Lib.Inside
import GbfCore.Manifest.CloudID
import GbfCore.Manifest.Validate

/-!
# Where a restore writes (restore.go)

A restore takes the paths of a manifest through `safeRestoreComponents`, which has its
own idea of a path that stays inside the target. It is compared with the idea of
`ValidateStructure`: an accepted manifest has only paths made of proper names, and of
these the sanitizer refuses exactly the ones that look like a Windows drive.
-/

namespace GbfCore

open List Bool

variable {key : Bytes} {relPath : Bytes} {comps : List Bytes}

/-- The errors of `safeRestorePath`. -/
inductive RestorePathError where
  | empty
  | absolute (relPath : Bytes)
  | escapes (relPath : Bytes)
deriving DecidableEq, Repr

/-- `".."` -/
def dotDot : Bytes := [dot, dot]

section
variable (cwd : WorkDir) (targetDir : Bytes)

/-- `safeRestorePath`. Both paths given to `filepath.Rel` are absolute. -/
def safeRestorePath (relPath : Bytes) : Except RestorePathError Bytes :=
  if relPath = [] then .error .empty
  else if relPath.head?.any isSeparator then .error (.absolute relPath)
  else if isWindowsDrive relPath then .error (.absolute relPath)
  else
    let clean := pathClean relPath
    if clean = dotDot ∨ dotDot ++ [slash] <+: clean then .error (.escapes relPath)
    else
      let absTarget := pathAbs cwd targetDir
      let joined := pathJoin [absTarget, clean]
      let rel := pathRel absTarget joined
      if rel ≠ [dot] ∧ dotDot ++ [slash] <+: rel then .error (.escapes relPath)
      else .ok joined

/-- `safeRestoreComponents`. -/
def safeRestoreComponents (relPath : Bytes) : Except RestorePathError (List Bytes) :=
  (safeRestorePath cwd targetDir relPath).bind fun abs =>
    let rel := pathRel (pathAbs cwd targetDir) abs
    .ok (if rel = [dot] then []
      else (splitSlash rel).filter fun part => decide (part ≠ [] ∧ part ≠ [dot]))

/-- The starts `safeRestorePath` refuses on every platform: a separator of either kind, and
what looks like a Windows drive. -/
def refusesStart (relPath : Bytes) : Bool :=
  relPath.head?.any isSeparator || isWindowsDrive relPath

/-! ## Paths made of names -/

section
variable {relPath : Bytes} (hnames : PathNames relPath)
include hnames

theorem ne_nil_of_names : relPath ≠ [] := by
  rintro rfl
  exact (hnames [] (mem_singleton_self _)).ne_nil rfl

theorem ne_dot_of_names : relPath ≠ [dot] := by
  rintro rfl
  exact (hnames [dot] (mem_singleton_self _)).ne_dot (.inr rfl)

theorem not_escaping_of_names : ¬ (relPath = dotDot ∨ dotDot ++ [slash] <+: relPath) := by
  rintro (rfl | ⟨rest, rfl⟩)
  · exact (hnames dotDot (mem_singleton_self _)).ne_dotdot rfl
  · -- the first segment is `..`
    have hsplit : splitSlash (dotDot ++ [slash] ++ rest) = splitSlash dotDot ++ splitSlash rest := by
      rw [append_assoc]
      exact splitSlash_append dotDot rest
    have hmem : dotDot ∈ splitSlash (dotDot ++ [slash] ++ rest) := by
      rw [hsplit]
      exact mem_append_left _ (mem_singleton_self _)
    exact (hnames dotDot hmem).ne_dotdot rfl

theorem filter_of_names :
    (splitSlash relPath).filter (fun part => decide (part ≠ [] ∧ part ≠ [dot])) =
      splitSlash relPath := by
  refine filter_eq_self.mpr fun part hpart => decide_eq_true ?_
  exact ⟨(hnames part hpart).ne_nil, fun h => (hnames part hpart).ne_dot (.inr h)⟩

/-- The sanitizer keeps a path made of names, unless it refuses its start. -/
theorem safeRestoreComponents_of_accepted (hstart : refusesStart relPath = false) :
    safeRestoreComponents cwd targetDir relPath = .ok (splitSlash relPath) := by
  obtain ⟨hhead, hdrive⟩ := or_eq_false_iff.mp hstart
  have hpath : safeRestorePath cwd targetDir relPath =
      .ok (pathJoin [pathAbs cwd targetDir, relPath]) := by
    unfold safeRestorePath
    rw [if_neg (ne_nil_of_names hnames), if_neg (eq_false_iff.mp hhead), hdrive]
    simp only [false_eq_true, if_false, pathClean_of_names hnames,
      pathRel_pathJoin _ hnames]
    rw [if_neg (not_escaping_of_names hnames), if_neg]
    exact fun h => not_escaping_of_names hnames (.inr h.2)
  unfold safeRestoreComponents
  rw [hpath]
  show Except.ok _ = _
  rw [pathRel_pathJoin _ hnames, if_neg (ne_dot_of_names hnames), filter_of_names hnames]

theorem safeRestoreComponents_names (hback : backslash ∉ relPath)
    (hdrive : isWindowsDrive relPath = false) :
    safeRestoreComponents cwd targetDir relPath = .ok (splitSlash relPath) := by
  refine safeRestoreComponents_of_accepted cwd targetDir hnames (or_eq_false_iff.mpr ⟨?_, hdrive⟩)
  refine eq_false_iff.mpr fun hany => ?_
  obtain ⟨b, hb, hsep⟩ := (Option.any_eq_true _ _).mp hany
  rcases or_eq_true_iff.mp hsep with h | h
  · have hroot : rooted relPath = true := decide_eq_true (eq_of_beq h ▸ hb)
    rw [rooted_of_names hnames] at hroot
    cases hroot
  · exact hback (eq_of_beq h ▸ mem_of_head? hb)

end

/-- A path whose start is refused. -/
theorem safeRestoreComponents_refused (h : refusesStart relPath = true) (comps : List Bytes) :
    safeRestoreComponents cwd targetDir relPath ≠ .ok comps := by
  have hpath : ∀ abs, safeRestorePath cwd targetDir relPath ≠ .ok abs := by
    intro abs
    unfold safeRestorePath
    split
    · exact nofun
    · split
      · exact nofun
      · rename_i hhead
        rw [(or_eq_true_iff.mp h).resolve_left hhead]
        exact nofun
  intro hok
  obtain ⟨abs, habs, -⟩ := bind_eq_ok.mp hok
  exact hpath abs habs

/-! ## What the sanitizer lets through -/

theorem safeRestorePath_ok {abs : Bytes} (h : safeRestorePath cwd targetDir relPath = .ok abs) :
    rooted relPath = false ∧
      ¬ (pathClean relPath = dotDot ∨ dotDot ++ [slash] <+: pathClean relPath) ∧
      abs = pathJoin [pathAbs cwd targetDir, pathClean relPath] := by
  unfold safeRestorePath at h
  split at h
  · cases h
  · split at h
    · cases h
    · rename_i hhead
      split at h
      · cases h
      · dsimp only at h
        split at h
        · cases h
        · rename_i hescapes
          split at h
          · cases h
          · cases h
            refine ⟨decide_eq_false fun hslash => hhead ?_, hescapes, rfl⟩
            rw [hslash]
            rfl

/-- A relative path that does not climb is a path of names. -/
theorem names_of_not_climbing {elems : List Bytes} (h : CleanElems false elems)
    (hne : elems ≠ []) (hescapes : ¬ (renderPath false elems = dotDot ∨
      dotDot ++ [slash] <+: renderPath false elems)) : ∀ seg ∈ elems, PathName seg := by
  obtain ⟨k, names, rfl, -, hnames⟩ := h.shape
  cases k with
  | zero => exact hnames
  | succ k =>
    refine absurd ?_ hescapes
    rw [renderPath, if_neg (by decide), if_neg hne, replicate_succ, cons_append]
    by_cases hrest : List.replicate k [dot, dot] ++ names = []
    · rw [hrest]
      exact .inl rfl
    · refine .inr ⟨joinSlash (List.replicate k [dot, dot] ++ names), ?_⟩
      refine Eq.trans ?_ (joinSlash_append (cons_ne_nil dotDot []) hrest).symm
      simp [joinSlash]

/-- A dot joined to a directory leads nowhere else. -/
theorem pathJoin_dot {a : Bytes} (ha : a ≠ []) :
    pathJoin [a, [dot]] = pathJoin [a] ∧ pathElems (pathJoin [a, [dot]]) = pathElems a := by
  have helems : pathElems (a ++ slash :: [dot]) = pathElems a := by
    rw [pathElems, pathElems, rooted_append ha, splitSlash_append, cleanSegs_split]
    show cleanSegs _ [[dot]] _ = _
    rw [cleanSegs_cons, if_pos (.inr rfl)]
    exact reverse_reverse _
  have hjoin : pathJoin [a, [dot]] = pathClean (a ++ slash :: [dot]) := by
    rw [pathJoin, dropWhile_cons_of_neg (by simpa using ha)]
    simp [joinSlash]
  have hsingle : pathJoin [a] = pathClean a := by
    rw [pathJoin, dropWhile_cons_of_neg (by simpa using ha)]
    simp [joinSlash]
  rw [hjoin, hsingle, pathElems_pathClean, pathClean_eq, pathClean_eq, helems, rooted_append ha]
  exact ⟨rfl, rfl⟩

theorem pathAbs_ne_nil : pathAbs cwd targetDir ≠ [] := by
  intro hnil
  have hrooted := rooted_pathAbs cwd targetDir
  rw [hnil] at hrooted
  cases hrooted

/-- What the sanitizer makes of a path: nothing if it is the one to the target itself, and
otherwise its names. -/
theorem safeRestoreComponents_ok (h : safeRestoreComponents cwd targetDir relPath = .ok comps) :
    safeRestorePath cwd targetDir relPath =
        .ok (pathJoin [pathAbs cwd targetDir, pathClean relPath]) ∧
      (pathClean relPath = [dot] ∧ comps = [] ∨
        comps = splitSlash (pathClean relPath) ∧ ∀ seg ∈ comps, PathName seg) := by
  obtain ⟨abs, habs, hcomps⟩ := bind_eq_ok.mp h
  obtain ⟨hroot, hescapes, rfl⟩ := safeRestorePath_ok cwd targetDir habs
  refine ⟨habs, ?_⟩
  have hclean : CleanElems false (pathElems relPath) := hroot ▸ cleanElems_pathElems relPath
  have hrender : pathClean relPath = renderPath false (pathElems relPath) := by
    rw [pathClean_eq, hroot]
  dsimp only at hcomps
  by_cases hne : pathElems relPath = []
  · have hdot : pathClean relPath = [dot] := by
      rw [hrender, hne]
      rfl
    have hrel : pathRel (pathAbs cwd targetDir) (pathJoin [pathAbs cwd targetDir, [dot]]) = [dot] :=
      if_pos (pathJoin_dot (pathAbs_ne_nil cwd targetDir)).2.symm
    rw [hdot, hrel, if_pos rfl] at hcomps
    exact .inl ⟨hdot, (Except.ok.inj hcomps).symm⟩
  · have hsplit : splitSlash (pathClean relPath) = pathElems relPath := by
      rw [hrender, renderPath, if_neg (by decide), if_neg hne]
      exact splitSlash_joinSlash hclean.slash hne
    have hnames : PathNames (pathClean relPath) := by
      rw [PathNames, hsplit]
      exact names_of_not_climbing hclean hne (hrender ▸ hescapes)
    rw [pathRel_pathJoin _ hnames, if_neg (ne_dot_of_names hnames),
      filter_of_names hnames] at hcomps
    cases hcomps
    exact .inr ⟨rfl, hnames⟩

/-- **Only names come through the sanitizer.** -/
theorem safeRestoreComponents_single (h : safeRestoreComponents cwd targetDir relPath = .ok comps) :
    ∀ c ∈ comps, PathName c ∧ slash ∉ c := by
  rcases (safeRestoreComponents_ok cwd targetDir h).2 with ⟨-, rfl⟩ | ⟨rfl, hnames⟩
  · exact nofun
  · exact fun c hc => ⟨hnames c hc, slash_notMem_of_mem_splitSlash hc⟩

/-- **A restore path stays inside the target.** It is the join of its components, which are
single names, and there are none only if the path is the one to the target itself. -/
theorem restorePath_inside {relPath : Bytes} {comps : List Bytes}
    (h : safeRestoreComponents cwd targetDir relPath = .ok comps) :
    (∀ c ∈ comps, c ≠ [] ∧ c ≠ [dot] ∧ c ≠ dotDot ∧ slash ∉ c) ∧
      (∃ abs, safeRestorePath cwd targetDir relPath = .ok abs ∧
        abs = pathJoin (pathAbs cwd targetDir :: comps) ∧ Inside (pathAbs cwd targetDir) abs) ∧
      (comps = [] → pathClean relPath = [dot]) := by
  have hne := pathAbs_ne_nil cwd targetDir
  obtain ⟨hpath, hcomps⟩ := safeRestoreComponents_ok cwd targetDir h
  refine ⟨fun c hc => ?_, ⟨_, hpath, ?_⟩, ?_⟩
  · obtain ⟨hname, hslash⟩ := safeRestoreComponents_single cwd targetDir h c hc
    exact ⟨hname.ne_nil, fun hdot => hname.ne_dot (.inr hdot), hname.ne_dotdot, hslash⟩
  · rcases hcomps with ⟨hdot, rfl⟩ | ⟨rfl, hnames⟩
    · obtain ⟨hjoin, helems⟩ := pathJoin_dot hne
      have hroot : rooted (pathJoin [pathAbs cwd targetDir, [dot]]) =
          rooted (pathAbs cwd targetDir) := by
        rw [hjoin, pathJoin, dropWhile_cons_of_neg (by simpa using hne)]
        simpa [joinSlash] using rooted_pathClean _
      rw [hdot]
      exact ⟨hjoin, hroot, [], forall_mem_nil _, helems.trans (append_nil _).symm⟩
    · refine ⟨?_, (Inside.refl _).join hnames⟩
      rw [pathJoin, pathJoin, dropWhile_cons_of_neg (by simpa using hne),
        dropWhile_cons_of_neg (by simpa using hne)]
      have hjoin := joinSlash_append (cons_ne_nil (pathAbs cwd targetDir) [])
        (splitSlash_ne_nil (pathClean relPath))
      rw [joinSlash_splitSlash] at hjoin
      exact congrArg pathClean (Eq.trans (by simp [joinSlash]) hjoin.symm)
  · rintro rfl
    rcases hcomps with ⟨hdot, -⟩ | ⟨hnil, -⟩
    · exact hdot
    · exact absurd hnil.symm (splitSlash_ne_nil _)

/-- `docs/../a` below `t`, from the root directory. -/
theorem restorePath_inside_sample :
    safeRestorePath ⟨[slash], rfl⟩ (ascii "t") (ascii "docs/../a") = .ok (ascii "/t/a") ∧
      Inside (ascii "/t") (ascii "/t/a") := by
  have hcomps : safeRestoreComponents ⟨[slash], rfl⟩ (ascii "t") (ascii "docs/../a") =
      .ok [ascii "a"] := by decide +kernel
  have htarget : pathAbs ⟨[slash], rfl⟩ (ascii "t") = ascii "/t" := by decide +kernel
  have hjoin : pathJoin [ascii "/t", ascii "a"] = ascii "/t/a" := by decide +kernel
  obtain ⟨-, ⟨abs, hpath, habs, hinside⟩, -⟩ := restorePath_inside _ _ hcomps
  rw [htarget, hjoin] at habs
  rw [habs] at hpath hinside
  exact ⟨hpath, htarget ▸ hinside⟩

end

/-! ## The paths of an accepted manifest -/

theorem names_of_dirKey (h : DirKey key) (hne : key ≠ []) :
    PathNames key :=
  fun seg hseg => ⟨((h.resolve_left hne).2 seg hseg).ne_nil, ((h.resolve_left hne).2 seg hseg).dot⟩

theorem names_of_entryName {name : Bytes} (h : EntryName name) :
    PathNames name := by
  rw [PathNames, splitSlash_of_notMem h.slash]
  intro seg hseg
  rw [mem_singleton.mp hseg]
  exact ⟨h.ne_nil, h.dot⟩

/-- No key has a colon. -/
theorem colon_notMem_of_dirKey (h : DirKey key) : colon ∉ key := by
  rcases h with rfl | ⟨-, hsegs⟩
  · exact not_mem_nil
  · intro hmem
    obtain ⟨seg, hseg, hcolon⟩ := exists_mem_splitSlash hmem (by decide)
    exact (hsegs seg hseg).colon hcolon

theorem not_drive_of_ne {b : UInt8} (h : b ≠ colon) (a : UInt8) (rest : Bytes) :
    isWindowsDrive (a :: b :: rest) = false := by
  show (b == colon && _) = false
  rw [beq_eq_false_iff_ne.mpr h, Bool.false_and]

theorem not_drive_of_colon {path : Bytes} (h : colon ∉ path) : isWindowsDrive path = false := by
  match path with
  | [] => rfl
  | [_] => rfl
  | a :: b :: rest =>
    refine not_drive_of_ne ?_ a rest
    rintro rfl
    exact h (mem_cons_of_mem a mem_cons_self)

/-- A path below a directory does not look like a drive: a colon in its second place
would be in the key. -/
theorem not_drive_of_child (h : colon ∉ key) (hne : key ≠ []) (name : Bytes) :
    isWindowsDrive (key ++ slash :: name) = false := by
  match key, hne with
  | [a], _ => exact not_drive_of_ne (b := slash) (by decide) a name
  | a :: b :: rest, _ =>
    refine not_drive_of_ne ?_ a (rest ++ slash :: name)
    rintro rfl
    exact h (mem_cons_of_mem a mem_cons_self)

section
variable (cwd : WorkDir) (targetDir : Bytes) {m : Manifest}

theorem restore_key {e : Bytes × Option Dir} (hm : m.Structured) (he : e ∈ m.dirEntries)
    (hne : e.1 ≠ []) : safeRestoreComponents cwd targetDir e.1 = .ok (splitSlash e.1) := by
  obtain ⟨d, -, hd⟩ := hm.dirs e he
  refine safeRestoreComponents_names cwd targetDir (names_of_dirKey hd.key hne) ?_ ?_
  · exact (hd.key.resolve_left hne).1
  · exact not_drive_of_colon (colon_notMem_of_dirKey hd.key)

/-- A file below a directory. -/
theorem restore_child {d : Dir} {f : FileEntry} (hd : DirOk m key d) (hne : key ≠ [])
    (hf : f ∈ d.fileList) :
    safeRestoreComponents cwd targetDir (key ++ slash :: f.name) =
      .ok (splitSlash (key ++ slash :: f.name)) := by
  have hname := (hd.files f hf).name
  refine safeRestoreComponents_names cwd targetDir ?_ ?_ ?_
  · intro seg hseg
    rw [splitSlash_append] at hseg
    rcases mem_append.mp hseg with hseg | hseg
    · exact names_of_dirKey hd.key hne seg hseg
    · exact names_of_entryName hname seg hseg
  · intro hback
    rcases mem_append.mp hback with hback | hback
    · exact (hd.key.resolve_left hne).1 hback
    · exact hname.backslash ((mem_cons.mp hback).resolve_left (by decide))
  · exact not_drive_of_child (colon_notMem_of_dirKey hd.key) hne f.name

/-- A file of the root. -/
theorem restore_root_iff {f : FileEntry} (hname : EntryName f.name) :
    safeRestoreComponents cwd targetDir f.name = .ok (splitSlash f.name) ↔
      isWindowsDrive f.name = false := by
  constructor
  · intro hok
    by_contra hdrive
    exact safeRestoreComponents_refused cwd targetDir
      (or_eq_true_iff.mpr (.inr (not_eq_false _ ▸ hdrive))) _ hok
  · exact safeRestoreComponents_names cwd targetDir (names_of_entryName hname) hname.backslash

/-- **Validator and sanitizer agree**, but for files of the root whose name looks like a
Windows drive. -/
theorem restore_paths_iff (h : m.validateStructure = .ok ()) :
    ((∀ e ∈ m.dirEntries, e.1 ≠ [] →
        safeRestoreComponents cwd targetDir e.1 = .ok (splitSlash e.1)) ∧
      ∀ f ∈ m.allFiles, safeRestoreComponents cwd targetDir f.name = .ok (splitSlash f.name)) ↔
    ∀ f ∈ (m.dirAt []).fileList, isWindowsDrive f.name = false := by
  have hm := validateStructure_ok_iff.mp h
  constructor
  · rintro ⟨-, hfiles⟩ f hf
    have hmem := mem_of_dirAt hf
    obtain ⟨d, hd, hok⟩ := hm.dirs _ hmem
    cases hd
    refine (restore_root_iff cwd targetDir (hok.files f hf).name).mp (hfiles f ?_)
    exact mem_flatMap.mpr ⟨_, hmem, mem_map.mpr ⟨f, hf, rfl⟩⟩
  · intro hroot
    refine ⟨fun e he hne => restore_key cwd targetDir hm he hne, ?_⟩
    intro g hg
    obtain ⟨⟨key, d⟩, he, hgd⟩ := mem_flatMap.mp hg
    obtain ⟨d, rfl, hok⟩ := hm.dirs _ he
    obtain ⟨f, hf, rfl⟩ := mem_map.mp hgd
    dsimp only at hok he ⊢
    by_cases hkey : key = []
    · subst hkey
      refine (restore_root_iff cwd targetDir (hok.files f hf).name).mpr (hroot f ?_)
      rw [dirAt_of_mem he]
      exact hf
    · rw [childPath, if_neg hkey]
      exact restore_child cwd targetDir hok hkey hf

end

/-- A manifest with one empty file. -/
def oneFileManifest (path : Bytes) : Manifest :=
  Manifest.zero.addFile ⟨path, [], 0, [], 0o644, fileStatusNew, []⟩

theorem restore_paths_below :
    (oneFileManifest (ascii "d/c:x")).validateStructure = .ok () ∧
      ∀ f ∈ (oneFileManifest (ascii "d/c:x")).allFiles,
        safeRestoreComponents ⟨ascii "/w", rfl⟩ (ascii "t") f.name = .ok (splitSlash f.name) := by
  have hok : (oneFileManifest (ascii "d/c:x")).validateStructure = .ok () := by decide
  exact ⟨hok, ((restore_paths_iff ⟨ascii "/w", rfl⟩ (ascii "t") hok).mpr (by decide)).2⟩

theorem restore_path_refused :
    (oneFileManifest (ascii "c:x")).validateStructure = .ok () ∧
      ∃ f ∈ (oneFileManifest (ascii "c:x")).allFiles,
        safeRestoreComponents ⟨ascii "/w", rfl⟩ (ascii "t") f.name =
          .error (.absolute (ascii "c:x")) := by
  refine ⟨by decide, ⟨ascii "c:x", [], 0, [], 0o644, fileStatusNew, []⟩, by decide, ?_⟩
  rfl

end GbfCore
