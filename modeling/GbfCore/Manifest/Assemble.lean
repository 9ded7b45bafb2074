import GbfCore.Manifest.Build

/-!
# Manifests assembled from paths

A manifest that `AddEmptyDir` and `AddFile` built holds the directories above the paths it
was built from, and nothing else. `Manifest.Shape` says so for a set of directories, each
given by its names from the root down. Whether such a manifest is accepted is then a
question about names alone (`structured_iff`).
-/

namespace GbfCore

open List

variable {a b ds segs : List Bytes} {name : Bytes} {m : Manifest} {dirs : Set (List Bytes)}

/-- A name of a POSIX directory. -/
structure PosixName (name : Bytes) : Prop where
  pathName : PathName name
  slash : slash ∉ name
  nul : (0 : UInt8) ∉ name

/-- Names from the root down. -/
def Names (segs : List Bytes) : Prop := ∀ seg ∈ segs, PosixName seg

theorem Names.of_append_left (h : Names (a ++ b)) : Names a :=
  fun seg hseg => h seg (mem_append_left b hseg)

theorem Names.append (ha : Names a) (hb : Names b) : Names (a ++ b) :=
  fun seg hseg => (mem_append.mp hseg).elim (ha seg) (hb seg)

theorem Names.singleton (h : PosixName name) : Names [name] := by
  intro seg hseg
  rw [mem_singleton] at hseg
  exact hseg ▸ h

theorem Names.split_join (h : Names segs) (hne : segs ≠ []) :
    splitSlash (joinSlash segs) = segs :=
  splitSlash_joinSlash (fun seg hseg => (h seg hseg).slash) hne

theorem Names.joinSlash_ne_nil (h : Names segs) (hne : segs ≠ []) :
    joinSlash segs ≠ [] := by
  intro hnil
  have hsplit := h.split_join hne
  rw [hnil] at hsplit
  exact (h [] (hsplit ▸ mem_singleton.mpr rfl)).pathName.ne_nil rfl

theorem Names.joinSlash_inj (ha : Names a) (hb : Names b) (h : joinSlash a = joinSlash b) :
    a = b := by
  by_cases hnil : a = []
  · by_contra hne
    exact hb.joinSlash_ne_nil (fun hb' => hne (hnil.trans hb'.symm)) (h ▸ hnil ▸ rfl)
  · by_cases hnil' : b = []
    · exact absurd (h.trans (hnil' ▸ rfl)) (ha.joinSlash_ne_nil hnil)
    · rw [← ha.split_join hnil, h, hb.split_join hnil']

theorem Names.normalize (h : Names segs) (hne : segs ≠ []) :
    normalizeManifestPath (joinSlash segs) = joinSlash segs := by
  cases hpath : joinSlash segs with
  | nil => rfl
  | cons b rest =>
    rw [normalizeManifestPath, if_neg]
    rintro rfl
    -- a leading slash would start with an empty name
    have hnil : [] ∈ splitSlash (joinSlash segs) := nil_mem_splitSlash (by rw [hpath]; rfl)
    rw [h.split_join hne] at hnil
    exact (h [] hnil).pathName.ne_nil rfl

theorem splitLast_of_notMem {b : Bytes} (h : slash ∉ b) : splitLast b = ([], b) := by
  have hall : ∀ x ∈ b.reverse, (x != slash) = true := by
    intro x hx
    exact bne_iff_ne.mpr fun heq => h (heq ▸ mem_reverse.mp hx)
  rw [splitLast, dropWhile_eq_nil_iff.mpr hall, takeWhile_eq_self_iff.mpr hall,
    reverse_reverse]
  rfl

theorem splitLast_append {a b : Bytes} (h : slash ∉ b) : splitLast (a ++ slash :: b) = (a, b) := by
  have hall : ∀ x ∈ b.reverse, (x != slash) = true := by
    intro x hx
    exact bne_iff_ne.mpr fun heq => h (heq ▸ mem_reverse.mp hx)
  have hrev : (a ++ slash :: b).reverse = b.reverse ++ slash :: a.reverse := by simp
  rw [splitLast, hrev, dropWhile_append_of_pos hall, takeWhile_append_of_pos hall,
    dropWhile_cons_of_neg (by simp), takeWhile_cons_of_neg (by simp), append_nil,
    tail_cons, reverse_reverse, reverse_reverse]

theorem splitLast_joinSlash (above : List Bytes) (h : slash ∉ name) :
    splitLast (joinSlash (above ++ [name])) = (joinSlash above, name) := by
  have hone : joinSlash [name] = name := by simp [joinSlash]
  by_cases hnil : above = []
  · subst hnil
    rw [nil_append, hone]
    exact splitLast_of_notMem h
  · rw [joinSlash_append hnil (cons_ne_nil _ _), hone]
    exact splitLast_append h

theorem childPath_joinSlash {above : List Bytes} (h : Names above) (name : Bytes) :
    childPath (joinSlash above) name = joinSlash (above ++ [name]) := by
  have hone : joinSlash [name] = name := by simp [joinSlash]
  unfold childPath
  by_cases hnil : above = []
  · subst hnil
    rw [if_pos (by rfl), nil_append, hone]
  · rw [if_neg (h.joinSlash_ne_nil hnil), joinSlash_append hnil (cons_ne_nil _ _), hone]

/-! ## The links of a path -/

theorem mem_links {q c : Bytes} : ∀ {above : List Bytes},
    (q, c) ∈ links above segs ↔
      ∃ front back, segs = front ++ c :: back ∧ q = joinSlash (above ++ front) := by
  induction segs with
  | nil =>
    intro above
    refine iff_of_false not_mem_nil ?_
    rintro ⟨front, back, heq, -⟩
    cases front <;> cases heq
  | cons child rest ih =>
    intro above
    rw [links, mem_cons, ih]
    constructor
    · rintro (heq | ⟨front, back, rfl, rfl⟩)
      · cases heq
        exact ⟨[], rest, rfl, by rw [append_nil]⟩
      · exact ⟨child :: front, back, rfl, by rw [append_assoc]; rfl⟩
    · rintro ⟨front, back, heq, rfl⟩
      cases front with
      | nil =>
        cases heq
        rw [append_nil]
        exact .inl rfl
      | cons a front =>
        cases heq
        exact .inr ⟨front, back, rfl, by rw [append_assoc]; rfl⟩

/-- A path and the directories its links are in are those from the root down to it. -/
theorem prefix_iff_links {q : Bytes} :
    (q = joinSlash segs ∨ ∃ c, (q, c) ∈ links [] segs) ↔
      ∃ above, above <+: segs ∧ q = joinSlash above := by
  constructor
  · rintro (rfl | ⟨c, hc⟩)
    · exact ⟨segs, prefix_refl segs, rfl⟩
    · obtain ⟨front, back, rfl, rfl⟩ := mem_links.mp hc
      exact ⟨front, prefix_append _ _, rfl⟩
  · rintro ⟨above, ⟨below, rfl⟩, rfl⟩
    cases below with
    | nil => exact .inl (by rw [append_nil])
    | cons c below => exact .inr ⟨c, mem_links.mpr ⟨above, below, rfl, rfl⟩⟩

theorem dirLinks_joinSlash (h : Names segs) :
    dirLinks (joinSlash segs) = links [] segs := by
  unfold dirLinks
  by_cases hnil : segs = []
  · subst hnil
    rfl
  · rw [if_neg (h.joinSlash_ne_nil hnil), h.split_join hnil]

theorem Names.exists_last (h : Names segs) (hne : segs ≠ []) :
    ∃ above name, segs = above ++ [name] ∧ PosixName name :=
  ⟨_, _, (dropLast_append_getLast hne).symm, h _ (getLast_mem hne)⟩

theorem emptyDirPath_joinSlash (h : Names segs) (hne : segs ≠ []) :
    emptyDirPath (joinSlash segs) = some (joinSlash segs) := by
  obtain ⟨above, name, rfl, hname⟩ := h.exists_last hne
  unfold emptyDirPath
  dsimp only
  rw [h.normalize hne, splitLast_joinSlash above hname.slash, if_neg]
  rintro (hnil | hnil)
  · exact h.joinSlash_ne_nil hne hnil
  · exact hname.pathName.ne_nil hnil

theorem emptyDirLinks_joinSlash (h : Names segs) (hne : segs ≠ []) :
    emptyDirLinks (joinSlash segs) = links [] segs := by
  obtain ⟨above, name, rfl, hname⟩ := h.exists_last hne
  unfold emptyDirLinks
  rw [splitLast_joinSlash above hname.slash]
  by_cases hnil : above = []
  · subst hnil
    rfl
  · rw [if_neg (h.of_append_left.joinSlash_ne_nil hnil), h.split_join hne]

/-! ## The directories of an assembled manifest -/

/-- The directories of the manifest are those above the given ones, these included, and
each lists the next. -/
structure Manifest.Shape (m : Manifest) (dirs : Set (List Bytes)) : Prop where
  hasDir : ∀ q, m.HasDir q ↔ ∃ ds ∈ dirs, ∃ above, above <+: ds ∧ q = joinSlash above
  subDirs : ∀ q c, c ∈ (m.dirAt q).subDirList ↔ ∃ ds ∈ dirs, (q, c) ∈ links [] ds
  noNil : ∀ q, m.lookupDir q ≠ some none

theorem noNil_linkAll {l : List (Bytes × Bytes)} : ∀ {m : Manifest},
    (∀ q, m.lookupDir q ≠ some none) → ∀ q, (m.linkAll l).lookupDir q ≠ some none := by
  induction l with
  | nil => exact fun h => h
  | cons e l ih =>
    intro m h
    refine ih fun q => ?_
    show (m.setDir e.1 _).lookupDir q ≠ some none
    rw [lookupDir_setDir]
    split
    · exact fun hsome => nomatch hsome
    · exact h q

theorem noNil_addFile (h : ∀ q, m.lookupDir q ≠ some none) (f : FileEntry) :
    ∀ q, (m.addFile f).lookupDir q ≠ some none := by
  rw [addFile_eq]
  refine noNil_linkAll fun q => ?_
  rw [lookupDir_putFile]
  split
  · exact fun hsome => nomatch hsome
  · exact h q

theorem noNil_addEmptyDir (h : ∀ q, m.lookupDir q ≠ some none) (relPath : Bytes) :
    ∀ q, (m.addEmptyDir relPath).lookupDir q ≠ some none := by
  rw [addEmptyDir_eq]
  split
  · exact h
  · refine noNil_linkAll fun q => ?_
    unfold Manifest.putDir
    split
    · exact h q
    · rw [lookupDir_setDir]
      split
      · exact fun hsome => nomatch hsome
      · exact h q

/-- One more member on the right of a disjunction, as both kinds of step leave it. -/
private theorem or_exists_insert {p : List Bytes → Prop} {dirs : Set (List Bytes)} :
    (∃ x ∈ insert ds dirs, p x) ↔ (∃ x ∈ dirs, p x) ∨ p ds := by
  constructor
  · rintro ⟨x, rfl | hx, hp⟩
    · exact .inr hp
    · exact .inl ⟨x, hx, hp⟩
  · rintro (⟨x, hx, hp⟩ | hp)
    · exact ⟨x, .inr hx, hp⟩
    · exact ⟨ds, .inl rfl, hp⟩

theorem Manifest.Shape.addEmptyDir (h : m.Shape dirs) (hds : Names ds) (hne : ds ≠ []) :
    (m.addEmptyDir (joinSlash ds)).Shape (insert ds dirs) := by
  have hpath := emptyDirPath_joinSlash hds hne
  refine ⟨fun q => ?_, fun q c => ?_, noNil_addEmptyDir h.noNil _⟩
  · rw [hasDir_addEmptyDir hpath, emptyDirLinks_joinSlash hds hne, prefix_iff_links, h.hasDir,
      or_exists_insert]
  · rw [mem_subDirList_addEmptyDir hpath, emptyDirLinks_joinSlash hds hne, h.subDirs,
      or_exists_insert]

/-- Where a file of the directory `ds` goes. -/
theorem place_of_name {f : FileEntry} (hds : Names (ds ++ [name]))
    (hf : f.name = joinSlash (ds ++ [name])) :
    f.place = (joinSlash ds, name) := by
  have hname := hds name (mem_append_right _ (mem_singleton.mpr rfl))
  rw [FileEntry.place, hf, hds.normalize (by simp), splitLast_joinSlash ds hname.slash]

theorem Manifest.Shape.addFile (h : m.Shape dirs) {f : FileEntry} (hds : Names ds)
    (hplace : f.place.1 = joinSlash ds) :
    (m.addFile f).Shape (insert ds dirs) := by
  refine ⟨fun q => ?_, fun q c => ?_, noNil_addFile h.noNil f⟩
  · rw [hasDir_addFile, hplace, dirLinks_joinSlash hds, prefix_iff_links, h.hasDir,
      or_exists_insert]
  · rw [mem_subDirList_addFile, hplace, dirLinks_joinSlash hds, h.subDirs, or_exists_insert]

theorem shape_foldl_addEmptyDir {l : List (List Bytes)} (hl : ∀ ds ∈ l, Names ds ∧ ds ≠ []) :
    ∀ {m : Manifest} {dirs : Set (List Bytes)}, m.Shape dirs →
      (l.foldl (fun m ds => m.addEmptyDir (joinSlash ds)) m).Shape ({ds | ds ∈ l} ∪ dirs) := by
  induction l with
  | nil =>
    intro m dirs h
    have hempty : {ds : List Bytes | ds ∈ ([] : List (List Bytes))} ∪ dirs = dirs := by simp
    rw [hempty]
    exact h
  | cons ds l ih =>
    intro m dirs h
    obtain ⟨hds, hne⟩ := hl ds mem_cons_self
    have hrest := ih (fun x hx => hl x (mem_cons_of_mem ds hx)) (h.addEmptyDir hds hne)
    have hsets : {x | x ∈ l} ∪ insert ds dirs = {x | x ∈ ds :: l} ∪ dirs := by
      ext x
      simp only [Set.mem_union, Set.mem_ofPred_eq, Set.mem_insert_iff, mem_cons]
      exact ⟨fun h => by tauto, fun h => by tauto⟩
    exact hsets ▸ hrest

/-- The directories of a list of files. -/
def parentsOf (l : List FileEntry) : Set (List Bytes) :=
  {ds | Names ds ∧ ∃ f ∈ l, f.place.1 = joinSlash ds}

theorem shape_foldl_addFile {l : List FileEntry}
    (hl : ∀ f ∈ l, ∃ ds, Names ds ∧ f.place.1 = joinSlash ds) :
    ∀ {m : Manifest} {dirs : Set (List Bytes)}, m.Shape dirs →
      (l.foldl Manifest.addFile m).Shape (parentsOf l ∪ dirs) := by
  induction l with
  | nil =>
    intro m dirs h
    have hempty : parentsOf [] ∪ dirs = dirs := by simp [parentsOf]
    rw [hempty]
    exact h
  | cons f l ih =>
    intro m dirs h
    obtain ⟨ds, hds, hplace⟩ := hl f mem_cons_self
    have hrest := ih (fun x hx => hl x (mem_cons_of_mem f hx)) (h.addFile hds hplace)
    have hsets : parentsOf l ∪ insert ds dirs = parentsOf (f :: l) ∪ dirs := by
      ext x
      constructor
      · rintro (⟨hx, g, hg, heq⟩ | rfl | hx)
        · exact .inl ⟨hx, g, mem_cons_of_mem f hg, heq⟩
        · exact .inl ⟨hds, f, mem_cons_self, hplace⟩
        · exact .inr hx
      · rintro (⟨hx, g, hg, heq⟩ | hx)
        · rcases mem_cons.mp hg with rfl | hg
          · exact .inr (.inl (hx.joinSlash_inj hds (heq.symm.trans hplace)))
          · exact .inl ⟨hx, g, hg, heq⟩
        · exact .inr (.inr hx)
    exact hsets ▸ hrest

theorem fileList_foldl_addFile (l : List FileEntry) (q : Bytes) : ∀ m : Manifest,
    ((l.foldl Manifest.addFile m).dirAt q).fileList =
      (m.dirAt q).fileList ++ (l.filter fun f => decide (f.place.1 = q)).map FileEntry.placed := by
  induction l with
  | nil => exact fun m => (append_nil _).symm
  | cons f l ih =>
    intro m
    rw [foldl_cons, ih, fileList_addFile, append_assoc, filter_cons]
    by_cases hq : q = f.place.1
    · rw [if_pos hq, if_pos (decide_eq_true hq.symm)]
      rfl
    · rw [if_neg hq, if_neg (fun h => hq (of_decide_eq_true h).symm)]
      rfl

theorem fileList_foldl_addEmptyDir (l : List (List Bytes)) (q : Bytes) : ∀ m : Manifest,
    ((l.foldl (fun m ds => m.addEmptyDir (joinSlash ds)) m).dirAt q).fileList =
      (m.dirAt q).fileList := by
  induction l with
  | nil => exact fun m => rfl
  | cons ds l ih => exact fun m => (ih _).trans (fileList_addEmptyDir m _ q)

theorem stats_foldl_addEmptyDir (l : List (List Bytes)) : ∀ m : Manifest,
    (l.foldl (fun m ds => m.addEmptyDir (joinSlash ds)) m).stats = m.stats := by
  induction l with
  | nil => exact fun m => rfl
  | cons ds l ih => exact fun m => (ih _).trans (stats_addEmptyDir m _)

/-! ## The totals -/

theorem stats_foldl_addFile (l : List FileEntry) : ∀ m : Manifest,
    (l.foldl Manifest.addFile m).stats = { m.stats with
      fileCount := m.stats.fileCount + l.length
      totalSize := l.foldl (fun s f => wrap64 (s + f.size)) m.stats.totalSize } := by
  induction l with
  | nil => intro m; simp
  | cons f l ih =>
    intro m
    rw [foldl_cons, ih, stats_addFile, foldl_cons, length_cons, Int.natCast_add,
      Int.add_comm (l.length : Int), ← Int.add_assoc]
    rfl

/-! ## When an assembled manifest is accepted -/

theorem mem_dirEntries {key : Bytes} {d : Option Dir} :
    (key, d) ∈ m.dirEntries ↔ m.lookupDir key = some d := by
  unfold Manifest.dirEntries Manifest.lookupDir
  cases m.dirs with
  | none => exact iff_of_false not_mem_nil (fun h => nomatch h)
  | some dirs => exact SortedMap.lookup_eq_some.symm

theorem byte_mem_joinSlash {b : UInt8} (h : Names segs) (hb : b ≠ slash) :
    b ∈ joinSlash segs ↔ ∃ seg ∈ segs, b ∈ seg := by
  by_cases hne : segs = []
  · subst hne
    simp [joinSlash]
  constructor
  · intro hmem
    obtain ⟨seg, hseg, hb'⟩ := exists_mem_splitSlash hmem hb
    rw [h.split_join hne] at hseg
    exact ⟨seg, hseg, hb'⟩
  · rintro ⟨seg, hseg, hmem⟩
    obtain ⟨front, back, rfl⟩ := append_of_mem hseg
    clear h hseg hne
    induction front with
    | nil =>
      cases back with
      | nil => simpa [joinSlash] using hmem
      | cons c back => simp [joinSlash, hmem]
    | cons a front ih =>
      rw [cons_append, ← singleton_append,
        joinSlash_append (cons_ne_nil _ _) (by simp)]
      exact mem_append_right _ (mem_cons_of_mem _ ih)

/-- A name that may be the name of a directory in a manifest. -/
def KeyName (name : Bytes) : Prop := backslash ∉ name ∧ colon ∉ name

theorem dirKey_joinSlash (h : Names segs) :
    DirKey (joinSlash segs) ↔ ∀ seg ∈ segs, KeyName seg := by
  by_cases hne : segs = []
  · subst hne
    exact iff_of_true (.inl rfl) (fun _ hseg => absurd hseg not_mem_nil)
  unfold DirKey
  rw [h.split_join hne, byte_mem_joinSlash h (by decide)]
  constructor
  · rintro (hnil | ⟨hback, hsegs⟩) seg hseg
    · exact absurd hnil (h.joinSlash_ne_nil hne)
    · exact ⟨fun hmem => hback ⟨seg, hseg, hmem⟩, (hsegs seg hseg).colon⟩
  · intro hkeys
    refine .inr ⟨?_, fun seg hseg => ?_⟩
    · rintro ⟨seg, hseg, hmem⟩
      exact (hkeys seg hseg).1 hmem
    · exact ⟨(h seg hseg).pathName.ne_nil, (h seg hseg).pathName.not_dot, (hkeys seg hseg).2⟩

theorem entryName_iff (h : PosixName name) : EntryName name ↔ backslash ∉ name :=
  ⟨EntryName.backslash, fun hback => ⟨h.pathName.ne_nil, h.slash, hback, h.pathName.not_dot⟩⟩

section
variable {entries : List FileEntry}

/-- What is known of a manifest that was assembled from directories and files. -/
structure Assembled (m : Manifest) (dirs : Set (List Bytes)) (entries : List FileEntry) :
    Prop where
  shape : m.Shape dirs
  names : ∀ ds ∈ dirs, Names ds
  fileList : ∀ q, (m.dirAt q).fileList =
    (entries.filter fun f => decide (f.place.1 = q)).map FileEntry.placed
  files : m.files.Perm (entries.map FileEntry.placed)
  fileCount : m.stats.fileCount = entries.length
  totalSize : m.stats.totalSize = entries.foldl (fun s f => wrap64 (s + f.size)) 0

/-- The totals are right, whatever the files are. -/
theorem Assembled.totals (h : Assembled m dirs entries) :
    m.stats.fileCount = m.files.length ∧
      m.stats.totalSize = m.files.foldl (fun s f => wrap64 (s + f.size)) 0 := by
  constructor
  · rw [h.fileCount, h.files.length_eq, length_map]
  · rw [h.totalSize, foldl_wrap64_eq FileEntry.size, foldl_wrap64_eq FileEntry.size,
      (h.files.map FileEntry.size).sum_eq, map_map]
    rfl

theorem Assembled.mem_dirEntries_iff (h : Assembled m dirs entries) {e : Bytes × Option Dir} :
    e ∈ m.dirEntries ↔ e.2 = some (m.dirAt e.1) ∧
      ∃ ds ∈ dirs, ∃ above, above <+: ds ∧ e.1 = joinSlash above := by
  obtain ⟨key, d⟩ := e
  have hnil := h.shape.noNil key
  have hhas := h.shape.hasDir key
  rw [mem_dirEntries]
  dsimp only
  rw [← hhas, Manifest.HasDir, Manifest.dirAt]
  cases hl : m.lookupDir key with
  | none => exact iff_of_false (by rintro ⟨⟩) (fun hd => hd.2 rfl)
  | some found =>
    cases found with
    | none => exact absurd hl hnil
    | some found =>
      constructor
      · intro hd
        cases hd
        exact ⟨rfl, Option.some_ne_none _⟩
      · rintro ⟨rfl, -⟩
        rfl

/-- **An assembled manifest is accepted exactly if its directories have the names of keys and
its files are acceptable.** -/
theorem Assembled.structured_iff (h : Assembled m dirs entries)
    (hparents : ∀ f ∈ entries, ∃ ds ∈ dirs, f.place.1 = joinSlash ds)
    (hnodup : (entries.map FileEntry.place).Nodup) :
    m.Structured ↔
      (∀ ds ∈ dirs, ∀ seg ∈ ds, KeyName seg) ∧ ∀ f ∈ entries, FileOk f.placed := by
  constructor
  · intro hs
    constructor
    · intro ds hds seg hseg
      obtain ⟨d, -, hok⟩ := hs.dirs (joinSlash ds, some (m.dirAt (joinSlash ds)))
        (h.mem_dirEntries_iff.mpr ⟨rfl, ds, hds, ds, prefix_refl ds, rfl⟩)
      exact (dirKey_joinSlash (h.names ds hds)).mp hok.key seg hseg
    · intro f hf
      obtain ⟨ds, hds, hplace⟩ := hparents f hf
      obtain ⟨d, hd, hok⟩ := hs.dirs (joinSlash ds, some (m.dirAt (joinSlash ds)))
        (h.mem_dirEntries_iff.mpr ⟨rfl, ds, hds, ds, prefix_refl ds, rfl⟩)
      cases hd
      refine hok.files f.placed ?_
      rw [h.fileList, ← hplace]
      exact mem_map_of_mem (mem_filter.mpr ⟨hf, decide_eq_true rfl⟩)
  · rintro ⟨hkeys, hfiles⟩
    refine ⟨?_, h.totals.1, h.totals.2⟩
    rintro ⟨key, d⟩ he
    obtain ⟨hd, ds, hds, above, habove, hkey⟩ := h.mem_dirEntries_iff.mp he
    dsimp only at hd hkey
    subst hkey
    have hnames : Names above := fun seg hseg => h.names ds hds seg (habove.subset hseg)
    refine ⟨_, hd, ?_, ?_, ?_, ?_⟩
    · exact (dirKey_joinSlash hnames).mpr fun seg hseg => hkeys ds hds seg (habove.subset hseg)
    · intro f hf
      rw [h.fileList] at hf
      obtain ⟨g, hg, rfl⟩ := mem_map.mp hf
      exact hfiles g (mem_filter.mp hg).1
    · -- two files of one directory differ in their places, so in their names
      rw [h.fileList, map_map]
      refine List.Nodup.of_map (fun name => (joinSlash above, name)) ?_
      rw [map_map]
      have hsub := hnodup.sublist ((filter_sublist
        (p := fun f => decide (f.place.1 = joinSlash above))).map FileEntry.place)
      refine (map_congr_left fun f hf => ?_) ▸ hsub
      exact Prod.ext (of_decide_eq_true (mem_filter.mp hf).2) rfl
    · intro c hc
      obtain ⟨ds', hds', hlink⟩ := (h.shape.subDirs _ _).mp hc
      obtain ⟨front, back, rfl, heq⟩ := mem_links.mp hlink
      have hnames' := h.names _ hds'
      have hc' : c ∈ front ++ c :: back := mem_append_right _ mem_cons_self
      refine ⟨(entryName_iff (hnames' c hc')).mpr (hkeys _ hds' c hc').1, ?_⟩
      rw [heq, nil_append, childPath_joinSlash hnames'.of_append_left]
      refine (h.shape.hasDir _).mpr ⟨_, hds', front ++ [c], ⟨back, ?_⟩, rfl⟩
      rw [append_assoc]
      rfl

end

end GbfCore
