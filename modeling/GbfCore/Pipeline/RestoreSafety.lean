import GbfCore.Blob.Sample
import GbfCore.Pipeline.RestoreProtocol

/-!
# What a restore does to the file system

Two readings of the protocol of a restore. In the first, other processes may change the tree
below the target between any two calls: every handle of the restore was still reached through
real directories (`restore_through_directories`). In the second nothing else changes the
tree, and every call may fail: a name holds what it held before the restore, or
the full verified content of an entry (`restore_whole_files`).
-/

namespace GbfCore

open Function Prog Option List Except GbfCore.Tree

variable {path : List Bytes} {reached : Set Nat} {Good : List Bytes → Bytes → Prop} {c : DirCall}
  {d : Nat} {f : Nat}
variable {m' : Machine} {name : Bytes}

/-- Nothing is open and nothing has happened. -/
def Machine.start (tree : Tree) : Machine := ⟨tree, fun _ => none, none, ∅, ∅, ∅⟩

/-- What a call of a restore can answer and leave behind. The store and the context answer
anything. -/
def RestoreCall.Outcome (faults : DirCall.Faults) (m : Machine) :
    (c : RestoreCall) → c.Answer → Machine → Prop
  | .dir c, r, m' => c.Outcome faults m r m'
  | .get _, _, m' => m' = m
  | .getStream _, _, m' => m' = m
  | .cancelled, _, m' => m' = m
  | .newUUID, _, m' => m' = m

/-- The same, after other processes have made any change to the tree. -/
def RestoreCall.Attacked (m : Machine) (c : RestoreCall) (r : c.Answer) (m' : Machine) : Prop :=
  ∃ tree, Outcome ⟨True, True⟩ { m with tree := tree } c r m'

/-! ## Handles -/

/-- The handles of a restore were reached through real directories. -/
structure Reached (g : RestoreGhost) (m : Machine) : Prop where
  dirs : ∀ {fd path}, g.dirs fd = some path → ∃ d, m.fd fd = some d ∧ d ∈ m.reached
  staging : ∀ {st f}, g.staging = some st → st.file = some f →
    ∃ x, m.fd f = some x ∧ x ∈ m.created

section
variable {g : RestoreGhost} {m : Machine}

theorem reached_start (tree : Tree) : Reached .init (.start tree) :=
  ⟨(fun h => nomatch h), (fun h => nomatch h)⟩

/-- A descriptor that is not in use is not one of the restore. -/
theorem Reached.free (h : Reached g m) (hf : m.fd f = none) : g.Free f := by
  constructor
  · cases hdirs : g.dirs f with
    | none => rfl
    | some path =>
      obtain ⟨d, hd, -⟩ := h.dirs hdirs
      cases hf.symm.trans hd
  · intro st hst hfile
    obtain ⟨x, hx, -⟩ := h.staging hst hfile
    cases hf.symm.trans hx

theorem fd_update_of_some {f' x y : Nat} (hf : m.fd f = none) (h : m.fd f' = some y) :
    update m.fd f (some x) f' = some y := by
  have hne : f' ≠ f := by
    rintro rfl
    cases hf.symm.trans h
  exact (update_of_ne hne _ _).trans h

/-- A directory that was opened. -/
theorem Reached.openDir (h : Reached g m) {x : Nat} (hf : m.fd f = none)
    (hsub : m.reached ⊆ reached) (hx : x ∈ reached) :
    Reached (g.openDir f path)
      { m with fd := update m.fd f (some x), reached := reached } := by
  constructor
  · intro fd path' hpath
    by_cases hfd : fd = f
    · exact ⟨x, by rw [hfd]; exact update_self .., hx⟩
    · obtain ⟨d, hd, hmem⟩ := h.dirs ((update_of_ne hfd _ _).symm.trans hpath)
      exact ⟨d, (update_of_ne hfd _ _).trans hd, hsub hmem⟩
  · intro st f' hst hfile
    obtain ⟨y, hy, hmem⟩ := h.staging hst hfile
    exact ⟨y, fd_update_of_some hf hy, hmem⟩

theorem Reached.close (h : Reached g m) (fd : Nat) :
    Reached (g.close fd) { m with fd := update m.fd fd none } := by
  constructor
  · intro fd' path hpath
    have hne : fd' ≠ fd := by
      rintro rfl
      cases (update_self ..).symm.trans hpath
    obtain ⟨d, hd, hmem⟩ := h.dirs ((update_of_ne hne _ _).symm.trans hpath)
    exact ⟨d, (update_of_ne hne _ _).trans hd, hmem⟩
  · intro st' f hst' hfile
    obtain ⟨st, hst, rfl⟩ := map_eq_some_iff.mp hst'
    split at hfile
    · cases hfile
    · rename_i hst_ne
      obtain ⟨x, hx, hmem⟩ := h.staging hst hfile
      have hne : f ≠ fd := fun heq => hst_ne (heq ▸ hfile)
      exact ⟨x, (update_of_ne hne _ _).trans hx, hmem⟩

/-- Without a staging file, only the directories count. -/
theorem Reached.unstaged (h : Reached g m) : Reached { g with staging := none } m :=
  ⟨h.dirs, fun hst => nomatch hst⟩

theorem Reached.written (h : Reached g m) (data : Option Bytes) : Reached (g.write data) m := by
  refine ⟨h.dirs, fun hst' hfile => ?_⟩
  obtain ⟨st, hst, rfl⟩ := map_eq_some_iff.mp hst'
  exact h.staging hst hfile

theorem Reached.tree (h : Reached g m) (tree : Tree) (staged : Set (Nat × Bytes)) :
    Reached g { m with tree := tree, staged := staged } :=
  ⟨h.dirs, h.staging⟩

/-- **A call keeps its handles to what was reached**, whatever the tree has become. -/
theorem Reached.step {r : c.Answer} {faults : DirCall.Faults} (hpre : c.InOrder Good g)
    (h : Reached g m) (hout : c.Outcome faults m r m') :
    c.Admits g r ∧ Reached (c.after g r) m' := by
  cases c with
  | openRoot path =>
    cases r with
    | error e => exact ⟨trivial, hout ▸ h⟩
    | ok f =>
      obtain ⟨x, -, hf, rfl⟩ := hout
      have hopen : Reached (g.openDir f []) _ :=
        h.openDir hf (Set.subset_insert x m.reached) (Set.mem_insert x _)
      exact ⟨h.free hf, hopen.dirs, hopen.staging⟩
  | mkdirAll path =>
    cases r with
    | error e => exact ⟨trivial, hout ▸ h⟩
    | ok =>
      rcases hout with rfl | rfl
      · exact ⟨trivial, h⟩
      · exact ⟨trivial, h.tree _ m.staged⟩
  | openDir dir name =>
    cases r with
    | error e => exact ⟨trivial, hout.1 ▸ h⟩
    | ok f =>
      obtain ⟨d, x, hdir, -, -, hf, rfl⟩ := hout
      obtain ⟨path, hpath⟩ := isSome_iff_exists.mp hpre.1
      obtain ⟨d', hd', hmem⟩ := h.dirs hpath
      cases hdir.symm.trans hd'
      exact ⟨h.free hf, h.openDir hf Set.subset_union_left (Set.mem_union_right _ ⟨rfl, hmem⟩)⟩
  | mkdir dir name =>
    cases r with
    | error e => exact ⟨trivial, hout.1 ▸ h⟩
    | ok =>
      obtain ⟨d, hd, -, -, rfl⟩ := hout
      exact ⟨trivial, h.tree _ m.staged⟩
  | stat dir name => exact ⟨trivial, hout.1 ▸ h⟩
  | utimes dir name => exact ⟨trivial, hout ▸ h⟩
  | chmod file mode => exact ⟨trivial, hout ▸ h⟩
  | sync fd => exact ⟨trivial, hout ▸ h⟩
  | close fd => exact ⟨trivial, hout ▸ h.close fd⟩
  | create dir name =>
    cases r with
    | error e => exact ⟨trivial, hout ▸ h⟩
    | ok f =>
      obtain ⟨d, hd, hdir, -, hf, rfl⟩ := hout
      obtain ⟨path, hpath⟩ := isSome_iff_exists.mp hpre.1
      obtain ⟨d', hd', hmem⟩ := h.dirs hpath
      cases hdir.symm.trans hd'
      refine ⟨h.free hf, fun {fd path'} hpath' => ?_, fun {st f'} hst hfile => ?_⟩
      · obtain ⟨e, he, hreached⟩ := h.dirs hpath'
        exact ⟨e, fd_update_of_some hf he, hreached⟩
      · cases hst
        cases hfile
        exact ⟨_, update_self .., .inr ⟨rfl, hmem⟩⟩
  | write file data =>
    cases r with
    | error e =>
      rcases hout with rfl | ⟨x, b, k, hx, -, rfl⟩
      · exact ⟨trivial, h.written none⟩
      · exact ⟨trivial, (h.tree _ m.staged).written none⟩
    | ok =>
      obtain ⟨x, b, hx, -, rfl⟩ := hout
      exact ⟨trivial, (h.tree _ m.staged).written (some data)⟩
  | rename dir source target =>
    cases r with
    | error e => exact ⟨trivial, hout ▸ h⟩
    | ok =>
      obtain ⟨d, x, hd, hx, -, -, -, rfl⟩ := hout
      refine ⟨trivial, ?_⟩
      split
      · exact h.unstaged
      · exact (h.tree _ _).unstaged
  | unlink dir name =>
    cases r with
    | error e => exact ⟨trivial, hout.1 ▸ h.unstaged⟩
    | ok =>
      obtain ⟨d, hd, -, -, rfl⟩ := hout
      exact ⟨trivial, (h.tree _ _).unstaged⟩

theorem Reached.attacked {c : RestoreCall} {r : c.Answer} (hpre : (restoreProtocol Good).pre g c)
    (h : Reached g m) (hout : RestoreCall.Attacked m c r m') :
    (restoreProtocol Good).admits g c r ∧ Reached ((restoreProtocol Good).next g c r) m' := by
  obtain ⟨tree, hout⟩ := hout
  have h' := h.tree tree m.staged
  cases c with
  | dir c => exact h'.step hpre hout
  | get hash => exact ⟨trivial, hout ▸ h'⟩
  | getStream hash => exact ⟨trivial, hout ▸ h'⟩
  | cancelled => exact ⟨trivial, hout ▸ h'⟩
  | newUUID => exact ⟨trivial, hout ▸ h'⟩

/-- A call acts in a directory, or on a file, that was reached, and is given single names. -/
structure Machine.Secure (m : Machine) (c : DirCall) : Prop where
  dir : ∀ dir, c.dir? = some dir → ∃ d, m.fd dir = some d ∧ d ∈ m.reached
  file : ∀ file, c.file? = some file → ∃ x, m.fd file = some x ∧ x ∈ m.created
  names : ∀ name ∈ c.names, SingleName name

theorem Reached.secure (hpre : c.InOrder Good g) (h : Reached g m) : m.Secure c := by
  have hdirs : ∀ {dir : Nat}, (g.dirs dir).isSome → ∃ d, m.fd dir = some d ∧ d ∈ m.reached := by
    intro dir hdir
    obtain ⟨path, hpath⟩ := isSome_iff_exists.mp hdir
    exact h.dirs hpath
  have hnone : ∀ {f : Nat} {Q : Prop}, none = some f → Q := by rintro _ _ ⟨⟩
  have hself : ∀ {f f' : Nat}, some f = some f' → f' = f := fun h => (some.inj h).symm
  -- a call in an open directory with one name, and one on the staging file
  have hone : ∀ {c : DirCall} {dir : Nat} {name : Bytes}, c.dir? = some dir → c.file? = none →
      c.names = [name] → (g.dirs dir).isSome → SingleName name → m.Secure c := by
    intro c dir name hc hfile hnames hdir hname
    refine ⟨fun dir' hdir' => ?_, fun f hf => hnone (hfile ▸ hf), fun name' hname' => ?_⟩
    · rw [hc] at hdir'
      exact hself hdir' ▸ hdirs hdir
    · rw [hnames] at hname'
      exact mem_singleton.mp hname' ▸ hname
  have hstaged : ∀ {c : DirCall} {file : Nat}, c.dir? = none → c.file? = some file →
      c.names = [] → (∃ st, g.staging = some st ∧ st.file = some file) → m.Secure c := by
    intro c file hc hfile hnames ⟨st, hst, hopen⟩
    refine ⟨fun f hf => hnone (hc ▸ hf), fun f hf => ?_, fun name hname => ?_⟩
    · rw [hfile] at hf
      exact hself hf ▸ h.staging hst hopen
    · rw [hnames] at hname
      cases hname
  cases c with
  | openDir dir name => exact hone rfl rfl rfl hpre.1 hpre.2
  | mkdir dir name => exact hone rfl rfl rfl hpre.1 hpre.2
  | stat dir name => exact hone rfl rfl rfl hpre.1 hpre.2
  | utimes dir name => exact hone rfl rfl rfl hpre.1 hpre.2
  | create dir name => exact hone rfl rfl rfl hpre.1 hpre.2.1
  | unlink dir name =>
    obtain ⟨st, -, -, -, hname, -, hdir⟩ := hpre
    exact hone rfl rfl rfl hdir hname
  | write file data => exact hstaged rfl rfl rfl hpre
  | chmod file mode => exact hstaged rfl rfl rfl hpre
  | rename dir source target =>
    obtain ⟨st, path, content, -, -, -, hsource, htarget, -, -, hpath, -⟩ := hpre
    refine ⟨fun dir' hdir' => ?_, fun f hf => hnone hf, fun name hname => ?_⟩
    · rw [hself hdir']
      exact h.dirs hpath
    · rcases mem_cons.mp hname with rfl | hname
      · exact hsource
      · exact mem_singleton.mp hname ▸ htarget
  | openRoot path => exact ⟨fun _ h => hnone h, fun _ h => hnone h, forall_mem_nil _⟩
  | mkdirAll path => exact ⟨fun _ h => hnone h, fun _ h => hnone h, forall_mem_nil _⟩
  | sync fd => exact ⟨fun _ h => hnone h, fun _ h => hnone h, forall_mem_nil _⟩
  | close fd => exact ⟨fun _ h => hnone h, fun _ h => hnone h, forall_mem_nil _⟩

end

/-- **A restore never writes through a symbolic link.** Whatever the tree is at the start and
whatever other processes make of it, each call is made in a directory that was reached from
the target through real directories, or on a file created in one, and with single names. -/
theorem restore_through_directories (P : Primitives) (dec : Decryptor) (sizes : WriteSizes)
    (cfg : RestoreConfig) (keys : List Bytes) (files : List FileEntry) (tree : Tree) {c : DirCall}
    {next : c.Answer → RestoreProg (Except RunError RestoreResult)} {m : Machine}
    (h : Reaches RestoreCall.Attacked (restoreRun P dec sizes cfg keys files) (.start tree)
      (call (.dir c) next) m) : m.Secure c := by
  obtain ⟨g, hg, hguard⟩ := (restoreRun_guard P dec sizes cfg keys files).reaches Reached h
    (reached_start tree) fun _ _ _ _ _ => Reached.attacked
  exact hg.secure hguard.1

theorem emptyDirTree_obj_lt {x : Nat} {o : Obj}
    (h : (if x = 0 then some Obj.dir else none) = some o) : x < 1 := by
  split at h
  · omega
  · cases h

/-- One directory, with nothing in it. -/
def emptyDirTree : Tree where
  obj x := if x = 0 then some .dir else none
  entry _ _ := none
  fresh := 1
  obj_lt := @emptyDirTree_obj_lt
  entry_lt h := nomatch h
  entry_dir h := nomatch h

/-- It is open as the target. -/
def openedMachine : Machine :=
  { Machine.start emptyDirTree with
    fd := update (fun _ => none) 3 (some 0)
    root := some 0
    reached := insert 0 ∅ }

theorem openRoot_emptyDirTree (faults : DirCall.Faults) (path : Bytes) :
    RestoreCall.Outcome faults (.start emptyDirTree) (.dir (.openRoot path)) (.ok 3)
      openedMachine :=
  ⟨0, rfl, rfl, rfl⟩

/-- Everything in one write. -/
def wholeWrites : WriteSizes := ⟨fun b => [b], fun b => by simp⟩

/-- A restore to `/restore` that keeps the files that are there. -/
def sampleRestore : RestoreConfig := ⟨⟨ascii "/", by decide⟩, ascii "/restore", false⟩

/-- The target after somebody else has put a link into it. -/
def linkTree : Tree := emptyDirTree.add 0 rfl (ascii "a") (.link (ascii "/etc"))

/-- The directory of a manifest is missing and cannot be created: a link has come first. It is
opened without being followed. -/
theorem restore_through_directories_link : ∃ next m,
    Reaches RestoreCall.Attacked
      (restoreRun samplePrimitives (newDecryptor sampleKey 0) wholeWrites sampleRestore
        [ascii "a"] [])
      (.start emptyDirTree) (call (.dir (.openDir 3 (ascii "a"))) next) m ∧
    m.tree.held 0 (ascii "a") = some (.link (ascii "/etc")) ∧
    m.Secure (.openDir 3 (ascii "a")) := by
  have habsent : RestoreCall.Attacked openedMachine (.dir (.openDir 3 (ascii "a")))
      (.error .notExist) openedMachine := ⟨emptyDirTree, rfl, .inr ⟨0, rfl, rfl⟩⟩
  have hexist : RestoreCall.Attacked openedMachine (.dir (.mkdir 3 (ascii "a"))) (.error .exist)
      { openedMachine with tree := linkTree } := ⟨linkTree, rfl, .inr ⟨rfl, 0, rfl, by decide⟩⟩
  have hrun : Reaches RestoreCall.Attacked
      (restoreRun samplePrimitives (newDecryptor sampleKey 0) wholeWrites sampleRestore
        [ascii "a"] [])
      (.start emptyDirTree) (call (.dir (.openDir 3 (ascii "a"))) _)
      { openedMachine with tree := linkTree } :=
    .step ⟨emptyDirTree, openRoot_emptyDirTree _ _⟩ (.step habsent (.step hexist (.refl _ _)))
  exact ⟨_, _, hrun, rfl, restore_through_directories _ _ _ _ _ _ _ hrun⟩

/-! ## Names -/

section
variable (P : Primitives) (cfg : RestoreConfig) (files : List FileEntry) (tree : Tree)

/-- **What a name may hold once a restore has begun**: what it held before; a directory, where
nothing was; or the full content of an entry that is restored to it. -/
def HeldAfter (m : Machine) (d : Nat) (name : Bytes) : Prop :=
  m.tree.held d name = tree.held d name ∨
  (tree.held d name = none ∧ m.tree.held d name = some .dir) ∨
  ∃ root path content, m.root = some root ∧ m.tree.walk root path = some d ∧
    m.tree.held d name = some (.file content) ∧ Restored P cfg files (path ++ [name]) content

/-- The staging file is an inode with one name and the content that was written. -/
structure StagedAt (m : Machine) (st : StagedFile) (d x : Nat) (content : Bytes) : Prop where
  dir : m.fd st.dir = some d
  mem : (d, st.name) ∈ m.staged
  entry : m.tree.entry d st.name = some x
  unique : ∀ {d' name}, m.tree.entry d' name = some x → d' = d ∧ name = st.name
  obj : m.tree.obj x = some (.file content)
  written : ∀ b, st.written = some b → b = content
  file : ∀ f, st.file = some f → m.fd f = some x

/-- The open directories are at their paths, and no name has been given up. -/
structure Kept (faults : DirCall.Faults) (g : RestoreGhost) (m : Machine) : Prop where
  dirs : ∀ {fd path}, g.dirs fd = some path →
    ∃ root d, m.root = some root ∧ m.fd fd = some d ∧ m.tree.walk root path = some d
  rooted : g.rooted = false → m.root = none
  names : ∀ d name, (d, name) ∉ m.staged → HeldAfter P cfg files tree m d name
  staged : ∀ {d name}, (d, name) ∈ m.staged → tree.held d name = none
  staging : ∀ {st}, g.staging = some st → ∃ d x content, StagedAt m st d x content
  only : ¬ faults.unlink → ∀ {d name}, (d, name) ∈ m.staged →
    ∃ st, g.staging = some st ∧ m.fd st.dir = some d ∧ name = st.name

variable {P cfg files tree} {faults : DirCall.Faults} {g : RestoreGhost} {m : Machine}

theorem kept_start : Kept P cfg files tree faults .init (.start tree) where
  dirs h := nomatch h
  rooted _ := rfl
  names _ _ _ := .inl rfl
  staged h := nomatch h
  staging h := nomatch h
  only _ _ _ h := nomatch h

theorem HeldAfter.mono (h : HeldAfter P cfg files tree m d name)
    (hheld : m'.tree.held d name = m.tree.held d name) (hroot : m'.root = m.root)
    (hkeeps : m.tree.KeepsDirs m'.tree) :
    HeldAfter P cfg files tree m' d name := by
  rcases h with heq | ⟨hnone, hdir⟩ | ⟨root, path, content, hr, hwalk, hfile, hrestored⟩
  · exact .inl (hheld.trans heq)
  · exact .inr (.inl ⟨hnone, hheld.trans hdir⟩)
  · exact .inr (.inr ⟨root, path, content, hroot.trans hr, walk_mono hkeeps hwalk,
      hheld.trans hfile, hrestored⟩)

section
variable (h : Kept P cfg files tree faults g m)
include h

theorem Kept.walks {t : Tree} (hkeeps : m.tree.KeepsDirs t) {fd path}
    (hpath : g.dirs fd = some path) :
    ∃ root d, m.root = some root ∧ m.fd fd = some d ∧ t.walk root path = some d := by
  obtain ⟨root, d, hroot, hd, hwalk⟩ := h.dirs hpath
  exact ⟨root, d, hroot, hd, walk_mono hkeeps hwalk⟩

/-- Where there is nothing now there was nothing before. -/
theorem Kept.absent (hnone : m.tree.entry d name = none) : tree.held d name = none := by
  have hheld := held_of_entry_none hnone
  by_cases hmem : (d, name) ∈ m.staged
  · exact h.staged hmem
  · rcases h.names d name hmem with heq | ⟨hbefore, -⟩ | ⟨_, _, _, -, -, hfile, -⟩
    · exact heq.symm.trans hheld
    · exact hbefore
    · cases hheld.symm.trans hfile

/-- A descriptor that is not in use is not one of the restore. -/
theorem Kept.free (hf : m.fd f = none) :
    g.Free f := by
  constructor
  · cases hdirs : g.dirs f with
    | none => rfl
    | some path =>
      obtain ⟨_, d, -, hd, -⟩ := h.dirs hdirs
      cases hf.symm.trans hd
  · intro st hst hfile
    obtain ⟨d, x, content, hat⟩ := h.staging hst
    cases hf.symm.trans (hat.file f hfile)

/-! ### Opening and closing -/

section
variable {f x : Nat} (hf : m.fd f = none)
include hf

omit h in
theorem StagedAt.opened {st : StagedFile} {y : Nat} {content : Bytes}
    (h : StagedAt m st d y content) :
    StagedAt { m with fd := update m.fd f (some x), reached := reached } st d y content :=
  ⟨fd_update_of_some hf h.dir, h.mem, h.entry, h.unique, h.obj, h.written,
    fun f' hf' => fd_update_of_some hf (h.file f' hf')⟩

/-- A directory below the target was opened. -/
theorem Kept.openDir {root : Nat} (hroot : m.root = some root)
    (hwalk : m.tree.walk root path = some x) :
    Kept P cfg files tree faults (g.openDir f path)
      { m with fd := update m.fd f (some x), reached := reached } where
  dirs := by
    intro fd path' hpath
    by_cases hfd : fd = f
    · subst hfd
      cases (update_self ..).symm.trans hpath
      exact ⟨root, x, hroot, update_self .., hwalk⟩
    · obtain ⟨root', d, hroot', hd, hwalk'⟩ :=
        h.dirs ((update_of_ne hfd _ _).symm.trans hpath)
      exact ⟨root', d, hroot', fd_update_of_some hf hd, hwalk'⟩
  rooted := h.rooted
  names := h.names
  staged := h.staged
  staging hst := by
    obtain ⟨d, y, content, hat⟩ := h.staging hst
    exact ⟨d, y, content, hat.opened hf⟩
  only hunlink d name hmem := by
    obtain ⟨st, hst, hdir, hname⟩ := h.only hunlink hmem
    exact ⟨st, hst, fd_update_of_some hf hdir, hname⟩

omit h in
/-- The target was opened. -/
theorem Kept.openRoot (h : Kept P cfg files tree faults .init m) :
    Kept P cfg files tree faults { RestoreGhost.init.openDir f [] with rooted := true }
      { m with fd := update m.fd f (some x), root := some x, reached := reached } where
  dirs := by
    intro fd path hpath
    by_cases hfd : fd = f
    · subst hfd
      cases (update_self ..).symm.trans hpath
      exact ⟨x, x, rfl, update_self .., rfl⟩
    · cases (update_of_ne hfd _ _).symm.trans hpath
  rooted hfalse := nomatch hfalse
  names d name hmem := by
    -- nothing was restored before the target was open
    rcases h.names d name hmem with heq | hdir | ⟨_, _, _, hroot, -⟩
    · exact .inl heq
    · exact .inr (.inl hdir)
    · cases (h.rooted rfl).symm.trans hroot
  staged := h.staged
  staging hst := nomatch hst
  only hunlink d name hmem := by
    obtain ⟨st, hst, -⟩ := h.only hunlink hmem
    cases hst

end

theorem Kept.close {fd : Nat} (hpre : ∀ st, g.staging = some st → st.dir ≠ fd) :
    Kept P cfg files tree faults (g.close fd) { m with fd := update m.fd fd none } where
  dirs := by
    intro fd' path hpath
    have hne : fd' ≠ fd := by
      rintro rfl
      cases (update_self ..).symm.trans hpath
    obtain ⟨root, d, hroot, hd, hwalk⟩ := h.dirs ((update_of_ne hne _ _).symm.trans hpath)
    exact ⟨root, d, hroot, (update_of_ne hne _ _).trans hd, hwalk⟩
  rooted := h.rooted
  names := h.names
  staged := h.staged
  staging hst' := by
    obtain ⟨st, hst, rfl⟩ := map_eq_some_iff.mp hst'
    obtain ⟨d, x, content, hat⟩ := h.staging hst
    have hdir : update m.fd fd none st.dir = some d :=
      (update_of_ne (hpre st hst) _ _).trans hat.dir
    refine ⟨d, x, content, ?_⟩
    split
    · exact ⟨hdir, hat.mem, hat.entry, hat.unique, hat.obj, hat.written, fun _ hf => nomatch hf⟩
    · rename_i hfile
      refine ⟨hdir, hat.mem, hat.entry, hat.unique, hat.obj, hat.written, fun f hf => ?_⟩
      have hne : f ≠ fd := fun heq => hfile (heq ▸ hf)
      exact (update_of_ne hne _ _).trans (hat.file f hf)
  only hunlink d name hmem := by
    obtain ⟨st, hst, hdir, rfl⟩ := h.only hunlink hmem
    have hdir' : update m.fd fd none st.dir = some d :=
      (update_of_ne (hpre st hst) _ _).trans hdir
    refine ⟨if st.file = some fd then { st with file := none } else st, ?_, ?_, ?_⟩
    · show g.staging.map _ = _
      rw [hst]
      rfl
    · split <;> exact hdir'
    · split <;> rfl

/-! ### Changes of the tree -/

/-- The tree has changed, but not the staging file. -/
theorem Kept.retree {t : Tree} (hkeeps : m.tree.KeepsDirs t)
    (hnames : ∀ d name, (d, name) ∉ m.staged →
      HeldAfter P cfg files tree { m with tree := t } d name)
    (hentry : ∀ {d name x}, m.tree.entry d name = some x → t.entry d name = some x)
    (hback : ∀ {d name x}, x ≠ m.tree.fresh → t.entry d name = some x →
      m.tree.entry d name = some x) (hobj : ∀ {x o}, m.tree.obj x = some o → t.obj x = some o) :
    Kept P cfg files tree faults g { m with tree := t } where
  dirs := h.walks hkeeps
  rooted := h.rooted
  names := hnames
  staged := h.staged
  staging hst := by
    obtain ⟨d, x, content, hat⟩ := h.staging hst
    exact ⟨d, x, content, hat.dir, hat.mem, hentry hat.entry,
      fun hx => hat.unique (hback (ne_fresh hat.entry) hx), hobj hat.obj, hat.written, hat.file⟩
  only := h.only

theorem Kept.grow (o : Obj) :
    Kept P cfg files tree faults g { m with tree := m.tree.grow o } :=
  h.retree (keepsDirs_grow o)
    (fun d name hmem => (h.names d name hmem).mono (held_grow o d name) rfl
      (keepsDirs_grow o))
    (fun hx => hx) (fun _ hx => hx) obj_grow_of_obj

theorem Kept.mkdir (hd : m.tree.obj d = some .dir) (hnone : m.tree.entry d name = none) :
    Kept P cfg files tree faults g { m with tree := m.tree.add d hd name .dir } := by
  have hkeeps : m.tree.KeepsDirs (m.tree.add d hd name .dir) := keepsDirs_add hnone
  refine h.retree hkeeps (fun d' name' hmem => ?_) (fun {d' name' x} hx => ?_)
    (fun {d' name' x} hne hx => ?_) obj_grow_of_obj
  · by_cases heq : d' = d ∧ name' = name
    · obtain ⟨rfl, rfl⟩ := heq
      exact .inr (.inl ⟨h.absent hnone, held_add_self hd⟩)
    · exact (h.names d' name' hmem).mono (held_add_of_ne hd heq) rfl hkeeps
  · rw [entry_add, if_neg]
    · exact hx
    · rintro ⟨rfl, rfl⟩
      cases hnone.symm.trans hx
  · rw [entry_add] at hx
    split at hx
    · exact absurd (some.inj hx).symm hne
    · exact hx

theorem Kept.create (hstaging : g.staging = none) {dir : Nat} (hd : m.tree.obj d = some .dir)
    (hdir : m.fd dir = some d) (hnone : m.tree.entry d name = none) (hf : m.fd f = none)
    {created : Set Nat} :
    Kept P cfg files tree faults { g with staging := some ⟨dir, name, some f, some []⟩ }
      { m with
        tree := m.tree.add d hd name (.file [])
        fd := update m.fd f (some m.tree.fresh)
        created := created
        staged := insert (d, name) m.staged } := by
  have hkeeps : m.tree.KeepsDirs (m.tree.add d hd name (.file [])) := keepsDirs_add hnone
  constructor
  · intro fd path hpath
    obtain ⟨root, e, hroot, he, hwalk⟩ := h.dirs hpath
    exact ⟨root, e, hroot, fd_update_of_some hf he, walk_mono hkeeps hwalk⟩
  · exact h.rooted
  · intro d' name' hmem
    have hne : ¬ (d' = d ∧ name' = name) := by
      rintro ⟨rfl, rfl⟩
      exact hmem (Set.mem_insert ..)
    exact (h.names d' name' fun hin => hmem (Set.mem_insert_of_mem _ hin)).mono
      (held_add_of_ne hd hne) rfl hkeeps
  · intro d' name' hmem
    rcases Set.mem_insert_iff.mp hmem with heq | hmem
    · cases heq
      exact h.absent hnone
    · exact h.staged hmem
  · intro st hst
    cases hst
    refine ⟨d, m.tree.fresh, [], fd_update_of_some hf hdir, Set.mem_insert .., ?_, ?_, ?_,
      fun b hb => (some.inj hb).symm, fun f' hf' => ?_⟩
    · show (m.tree.add d hd name (.file [])).entry d name = _
      rw [entry_add, if_pos ⟨rfl, rfl⟩]
    · intro d' name' hentry
      rw [entry_add] at hentry
      split at hentry
      · assumption
      · exact absurd rfl (ne_fresh hentry)
    · show (m.tree.add d hd name (.file [])).obj m.tree.fresh = _
      rw [obj_add, if_pos rfl]
    · cases hf'
      exact update_self ..
  · intro hunlink d' name' hmem
    rcases Set.mem_insert_iff.mp hmem with heq | hmem
    · cases heq
      exact ⟨_, rfl, fd_update_of_some hf hdir, rfl⟩
    · obtain ⟨st, hst, -⟩ := h.only hunlink hmem
      cases hstaging.symm.trans hst

/-! ### The staging file -/

section
variable {st : StagedFile} {d x : Nat} {content : Bytes} (hst : g.staging = some st)
  (hat : StagedAt m st d x content)
include hst

omit hst in
/-- What was written is no longer known. -/
theorem Kept.forget :
    Kept P cfg files tree faults (g.write none) m where
  dirs := h.dirs
  rooted := h.rooted
  names := h.names
  staged := h.staged
  staging hst' := by
    obtain ⟨st, hst, rfl⟩ := map_eq_some_iff.mp hst'
    obtain ⟨d, x, content, hat⟩ := h.staging hst
    refine ⟨d, x, content, hat.dir, hat.mem, hat.entry, hat.unique, hat.obj, fun b hb => ?_, hat.file⟩
    obtain ⟨b', -, hb'⟩ := bind_eq_some_iff.mp hb
    cases hb'
  only hunlink d name hmem := by
    obtain ⟨st, hst, hdir, hname⟩ := h.only hunlink hmem
    refine ⟨{ st with written := st.written.bind fun _ => none }, ?_, hdir, hname⟩
    show g.staging.map _ = _
    rw [hst]
    rfl

include hat

theorem Kept.write {b' : Bytes} {data : Option Bytes}
    (hdata : ∀ more, data = some more → b' = content ++ more) :
    Kept P cfg files tree faults (g.write data)
      { m with tree := m.tree.write x content b' hat.obj } := by
  have hkeeps : m.tree.KeepsDirs (m.tree.write x content b' hat.obj) := keepsDirs_write
  have hstaging : (g.write data).staging =
      some { st with written := st.written.bind fun b => data.map (b ++ ·) } := by
    show g.staging.map _ = _
    rw [hst]
    rfl
  constructor
  · exact h.walks hkeeps
  · exact h.rooted
  · intro d' name' hmem
    refine (h.names d' name' hmem).mono (held_write_of_ne hat.obj fun hentry => hmem ?_) rfl hkeeps
    obtain ⟨rfl, rfl⟩ := hat.unique hentry
    exact hat.mem
  · exact h.staged
  · intro st' hst'
    cases hstaging.symm.trans hst'
    refine ⟨d, x, b', hat.dir, hat.mem, hat.entry, hat.unique, ?_, fun b hb => ?_, hat.file⟩
    · show (m.tree.write x content b' hat.obj).obj x = _
      rw [obj_write, if_pos rfl]
    · obtain ⟨b₀, hb₀, hmap⟩ := bind_eq_some_iff.mp hb
      obtain ⟨more, rfl, rfl⟩ := map_eq_some_iff.mp hmap
      rw [hdata more rfl, hat.written b₀ hb₀]
  · intro hunlink d' name' hmem
    obtain ⟨st', hst', hdir, hname⟩ := h.only hunlink hmem
    cases hst.symm.trans hst'
    exact ⟨_, hstaging, hdir, hname⟩

/-- The only name that may stay behind is that of the staging file. -/
theorem Kept.only_staging (hunlink : ¬ faults.unlink) {d' : Nat} (hmem : (d', name) ∈ m.staged) :
    d' = d ∧ name = st.name := by
  obtain ⟨st', hst', hdir, rfl⟩ := h.only hunlink hmem
  cases hst.symm.trans hst'
  exact ⟨some.inj (hdir.symm.trans hat.dir), rfl⟩

/-- **The staging file gets its final name.** -/
theorem Kept.rename {root : Nat} {target : Bytes} (hne : st.name ≠ target)
    (hroot : m.root = some root) (hwalk : m.tree.walk root path = some d)
    (hgood : Restored P cfg files (path ++ [target]) content) (hd : m.tree.obj d = some .dir)
    (hx : x < m.tree.fresh)
    (htarget : ∀ y, m.tree.entry d target = some y → m.tree.obj y ≠ some .dir) :
    Kept P cfg files tree faults { g with staging := none }
      { m with
        tree := m.tree.move d hd st.name target x hx
        staged := m.staged \ {(d, st.name), (d, target)} } := by
  have hsource : ∀ y, m.tree.entry d st.name = some y → m.tree.obj y ≠ some .dir := by
    intro y hy hdir
    cases hat.entry.symm.trans hy
    cases hat.obj.symm.trans hdir
  have hkeeps : m.tree.KeepsDirs (m.tree.move d hd st.name target x hx) :=
    keepsDirs_move hd hx hsource htarget
  constructor
  · exact h.walks hkeeps
  · exact h.rooted
  · intro d' name' hmem
    by_cases hs : d' = d ∧ name' = st.name
    · obtain ⟨rfl, rfl⟩ := hs
      exact .inl ((held_move_source hd hx).trans (h.staged hat.mem).symm)
    · by_cases ht : d' = d ∧ name' = target
      · obtain ⟨rfl, rfl⟩ := ht
        exact .inr (.inr ⟨root, path, content, hroot, walk_mono hkeeps hwalk,
          (held_move_target hd hx hne.symm).trans hat.obj, hgood⟩)
      · refine (h.names d' name' fun hin => hmem ⟨hin, ?_⟩).mono (held_move_of_ne hd hx hs ht) rfl
          hkeeps
        rintro (heq | heq)
        · exact hs (Prod.mk.inj heq)
        · exact ht (Prod.mk.inj heq)
  · exact fun hmem => h.staged hmem.1
  · exact fun hst' => nomatch hst'
  · intro hunlink d' name' hmem
    obtain ⟨rfl, rfl⟩ := h.only_staging hst hat hunlink hmem.1
    exact absurd (.inl rfl) hmem.2

/-- The staging file is removed. -/
theorem Kept.unlink (hd : m.tree.obj d = some .dir) :
    Kept P cfg files tree faults { g with staging := none }
      { m with tree := m.tree.remove d hd st.name, staged := m.staged \ {(d, st.name)} } := by
  have hkeeps : m.tree.KeepsDirs (m.tree.remove d hd st.name) := by
    refine keepsDirs_remove fun y hy hdir => ?_
    cases hat.entry.symm.trans hy
    cases hat.obj.symm.trans hdir
  constructor
  · exact h.walks hkeeps
  · exact h.rooted
  · intro d' name' hmem
    by_cases hs : d' = d ∧ name' = st.name
    · obtain ⟨rfl, rfl⟩ := hs
      exact .inl ((held_remove_self hd).trans (h.staged hat.mem).symm)
    · refine (h.names d' name' fun hin => hmem ⟨hin, ?_⟩).mono (held_remove_of_ne hd hs) rfl hkeeps
      exact fun heq => hs (Prod.mk.inj heq)
  · exact fun hmem => h.staged hmem.1
  · exact fun hst' => nomatch hst'
  · intro hunlink d' name' hmem
    obtain ⟨rfl, rfl⟩ := h.only_staging hst hat hunlink hmem.1
    exact absurd rfl hmem.2

omit hst in
/-- The staging file cannot be removed. -/
theorem Kept.leak (hleak : faults.unlink ∨ m.tree.entry d st.name = none) :
    Kept P cfg files tree faults { g with staging := none } m where
  dirs := h.dirs
  rooted := h.rooted
  names := h.names
  staged := h.staged
  staging hst' := nomatch hst'
  only hunlink _ _ _ := by
    cases (hleak.resolve_left hunlink).symm.trans hat.entry

end

/-! ### Runs -/

end

/-- **A call keeps the names.** -/
theorem Kept.step {r : c.Answer} (hpre : c.InOrder (Restored P cfg files) g)
    (h : Kept P cfg files tree faults g m) (hout : c.Outcome faults m r m') :
    c.Admits g r ∧ Kept P cfg files tree faults (c.after g r) m' := by
  cases c with
  | openRoot path =>
    cases r with
    | error e => exact ⟨trivial, hout ▸ h⟩
    | ok f =>
      obtain ⟨x, -, hf, rfl⟩ := hout
      cases (hpre : g = .init)
      exact ⟨h.free hf, h.openRoot hf⟩
  | mkdirAll path =>
    cases r with
    | error e => exact ⟨trivial, hout ▸ h⟩
    | ok =>
      rcases hout with rfl | rfl
      · exact ⟨trivial, h⟩
      · exact ⟨trivial, h.grow .dir⟩
  | openDir dir name =>
    cases r with
    | error e => exact ⟨trivial, hout.1 ▸ h⟩
    | ok f =>
      obtain ⟨d, x, hdir, hentry, hx, hf, rfl⟩ := hout
      obtain ⟨path, hpath⟩ := isSome_iff_exists.mp hpre.1
      obtain ⟨root, d', hroot, hd', hwalk⟩ := h.dirs hpath
      cases hdir.symm.trans hd'
      refine ⟨h.free hf, ?_⟩
      show Kept P cfg files tree faults (g.openDir f ((g.dirs dir).getD [] ++ [name])) _
      rw [hpath]
      exact h.openDir hf hroot (walk_child hwalk hentry hx)
  | mkdir dir name =>
    cases r with
    | error e => exact ⟨trivial, hout.1 ▸ h⟩
    | ok =>
      obtain ⟨d, hd, -, hnone, rfl⟩ := hout
      exact ⟨trivial, h.mkdir hd hnone⟩
  | stat dir name => exact ⟨trivial, hout.1 ▸ h⟩
  | utimes dir name => exact ⟨trivial, hout ▸ h⟩
  | chmod file mode => exact ⟨trivial, hout ▸ h⟩
  | sync fd => exact ⟨trivial, hout ▸ h⟩
  | close fd => exact ⟨trivial, hout ▸ h.close hpre⟩
  | create dir name =>
    cases r with
    | error e => exact ⟨trivial, hout ▸ h⟩
    | ok f =>
      obtain ⟨d, hd, hdir, hnone, hf, rfl⟩ := hout
      exact ⟨h.free hf, h.create hpre.2.2 hd hdir hnone hf⟩
  | write file data =>
    obtain ⟨st, hst, hfile⟩ := hpre
    obtain ⟨d, x, content, hat⟩ := h.staging hst
    cases r with
    | error e =>
      rcases hout with rfl | ⟨y, b, k, hy, hfd, rfl⟩
      · exact ⟨trivial, h.forget⟩
      · cases hfd.symm.trans (hat.file file hfile)
        cases hy.symm.trans hat.obj
        exact ⟨trivial, h.write hst hat fun _ hnone => absurd hnone.symm (some_ne_none _)⟩
    | ok =>
      obtain ⟨y, b, hy, hfd, rfl⟩ := hout
      cases hfd.symm.trans (hat.file file hfile)
      cases hy.symm.trans hat.obj
      exact ⟨trivial, h.write hst hat fun more hmore => by cases hmore; rfl⟩
  | rename dir source target =>
    cases r with
    | error e => exact ⟨trivial, hout ▸ h⟩
    | ok =>
      obtain ⟨st, path, content, hst, rfl, rfl, -, -, hne, -, hpath, hwritten, hgood⟩ := hpre
      obtain ⟨d, x, content', hat⟩ := h.staging hst
      obtain ⟨d', x', hd, hx, hdir, -, htarget, rfl⟩ := hout
      obtain ⟨root, e, hroot, he, hwalk⟩ := h.dirs hpath
      cases hdir.symm.trans hat.dir
      cases hdir.symm.trans he
      cases hx.symm.trans hat.entry
      cases hat.written content hwritten
      rw [if_neg fun hsame => hne (hat.unique hsame).2.symm]
      exact ⟨trivial, h.rename hst hat hne hroot hwalk hgood hd _ htarget⟩
  | unlink dir name =>
    obtain ⟨st, hst, rfl, rfl, -, -, -⟩ := hpre
    obtain ⟨d, x, content, hat⟩ := h.staging hst
    cases r with
    | error e =>
      obtain ⟨rfl, hleak⟩ := hout
      exact ⟨trivial, h.leak hat (hleak.imp_right fun hnone => hnone d hat.dir)⟩
    | ok =>
      obtain ⟨d', hd, hdir, -, rfl⟩ := hout
      cases hdir.symm.trans hat.dir
      exact ⟨trivial, h.unlink hst hat hd⟩

theorem Kept.keep {c : RestoreCall} {r : c.Answer}
    (hpre : (restoreProtocol (Restored P cfg files)).pre g c) (h : Kept P cfg files tree faults g m)
    (hout : RestoreCall.Outcome faults m c r m') :
    (restoreProtocol (Restored P cfg files)).admits g c r ∧
      Kept P cfg files tree faults ((restoreProtocol (Restored P cfg files)).next g c r) m' := by
  cases c with
  | dir c => exact h.step hpre hout
  | get hash => exact ⟨trivial, hout ▸ h⟩
  | getStream hash => exact ⟨trivial, hout ▸ h⟩
  | cancelled => exact ⟨trivial, hout ▸ h⟩
  | newUUID => exact ⟨trivial, hout ▸ h⟩

end

/-- **A restore commits whole verified files only.** At every point of a run, whatever failed
before, every name but those of the staging files holds what it held at the start, a new
directory, or the full content of an entry that belongs there; and no staging
file is left when the run returns, unless a removal failed. -/
theorem restore_whole_files (P : Primitives) (dec : Decryptor) (sizes : WriteSizes)
    (cfg : RestoreConfig) (keys : List Bytes) (files : List FileEntry) (tree : Tree)
    {faults : DirCall.Faults} {rest : RestoreProg (Except RunError RestoreResult)} {m : Machine}
    (h : Reaches (RestoreCall.Outcome faults) (restoreRun P dec sizes cfg keys files)
      (.start tree) rest m) :
    (∀ d name, (d, name) ∉ m.staged → HeldAfter P cfg files tree m d name) ∧
      ((∃ r, rest = ret r) → ¬ faults.unlink → m.staged = ∅) := by
  obtain ⟨g, hg, hguard⟩ := (restoreRun_guard P dec sizes cfg keys files).reaches
    (Kept P cfg files tree faults) h kept_start fun _ _ _ _ _ => Kept.keep
  refine ⟨hg.names, fun ⟨r, hr⟩ hunlink => Set.eq_empty_of_forall_notMem fun ⟨d, name⟩ hmem => ?_⟩
  subst hr
  obtain ⟨st, hst, -⟩ := hg.only hunlink hmem
  cases (hguard : g.staging = none).symm.trans hst

/-- A file with one letter in it. -/
def letterEntry : FileEntry :=
  ⟨ascii "a", samplePrimitives.contentHash (ascii "x"), 1, [], 0, [], []⟩

/-- Its blob. -/
def letterBlob : Bytes :=
  magicGB1 ++ sampleIV.1 ++ samplePrimitives.gcmSeal sampleKey sampleIV.1 (ascii "x")

/-- The nil UUID. -/
def nilUuid : Uuid := ⟨ascii "00000000-0000-0000-0000-000000000000", by decide⟩

/-- The file is restored to an empty target. -/
theorem restore_whole_files_letter : ∃ m,
    Reaches (RestoreCall.Outcome ⟨False, False⟩)
      (restoreRun samplePrimitives (newDecryptor sampleKey 0) wholeWrites sampleRestore []
        [letterEntry])
      (.start emptyDirTree) (ret (.ok ⟨1, 1, 0⟩)) m ∧
    m.tree.held 0 (ascii "a") = some (.file (ascii "x")) ∧ m.staged = ∅ := by
  have hrun : ∃ m, Reaches (RestoreCall.Outcome ⟨False, False⟩)
      (restoreRun samplePrimitives (newDecryptor sampleKey 0) wholeWrites sampleRestore []
        [letterEntry])
      (.start emptyDirTree) (ret (.ok ⟨1, 1, 0⟩)) m ∧
      m.tree.held 0 (ascii "a") = some (.file (ascii "x")) := by
    apply Exists.intro
    apply And.intro
    · apply Reaches.step (openRoot_emptyDirTree _ _)
      apply Reaches.step (c := RestoreCall.cancelled) (r := false) rfl
      apply Reaches.step (c := RestoreCall.dir (.stat 3 (ascii "a"))) (r := error .notExist)
        ⟨rfl, .inr ⟨0, rfl, rfl, rfl⟩⟩
      apply Reaches.step (c := RestoreCall.get letterEntry.contentHash)
        (r := ok letterBlob) rfl
      apply Reaches.step (c := RestoreCall.newUUID) (r := nilUuid) rfl
      apply Reaches.step (c := RestoreCall.dir (.create 3 _)) (r := ok 4)
        ⟨0, rfl, rfl, rfl, rfl, rfl⟩
      apply Reaches.step (c := RestoreCall.dir (.write 4 (ascii "x"))) (r := ok ())
        ⟨1, [], rfl, rfl, rfl⟩
      apply Reaches.step (c := RestoreCall.dir (.chmod 4 0)) (r := ok ()) rfl
      apply Reaches.step (c := RestoreCall.dir (.sync 4)) (r := ok ()) rfl
      apply Reaches.step (c := RestoreCall.dir (.close 4)) (r := ok ()) rfl
      apply Reaches.step (c := RestoreCall.dir (.rename 3 _ (ascii "a"))) (r := ok ())
        ⟨0, 1, rfl, rfl, rfl, by decide, by decide, rfl⟩
      apply Reaches.step (c := RestoreCall.dir (.sync 3)) (r := ok ()) rfl
      apply Reaches.step (c := RestoreCall.dir (.close 3)) (r := ok ()) rfl
      exact .refl _ _
    · rfl
  obtain ⟨m, hrun, hheld⟩ := hrun
  exact ⟨m, hrun, hheld, (restore_whole_files _ _ _ _ _ _ _ hrun).2 ⟨_, rfl⟩ id⟩

end GbfCore
