import GbfCore.Lib.FileCalls

/-!
# Directories and times

A `Disk` is a `FileSystem` with directories and the times of the last changes, so that
listing a directory and asking for the age of a file have one answer. `Disk.Outcome` is what
`FsCall.Outcome` says of the files, and on top of it what the calls do to the directories and
to the times, and which errors have a reason in the tree; with `Faults` other errors are
possible.

A path is its text, as programs make it with `filepath.Join`. Links between directories and
the listing of the root directory are left out.
-/

namespace GbfCore

open Function Option List FileSystem

open Prog (Logged)

variable {name path : Bytes} {log : List (Sigma FsCall.Answer)}

/-- A directory on the way to a path, or the path itself. -/
def OnPath (dir path : Bytes) : Prop := dir = path ∨ ∃ rest, path = dir ++ slash :: rest

theorem OnPath.refl (path : Bytes) : OnPath path path := .inl rfl

theorem onPath_append (dir rest : Bytes) : OnPath dir (dir ++ slash :: rest) := .inr ⟨rest, rfl⟩

theorem OnPath.trans {a b c : Bytes} (h : OnPath a b) (h' : OnPath b c) : OnPath a c := by
  rcases h with rfl | ⟨r, rfl⟩
  · exact h'
  · rcases h' with rfl | ⟨r', rfl⟩
    · exact .inr ⟨r, rfl⟩
    · exact .inr ⟨r ++ slash :: r', by simp⟩

/-- A path with one more name at its end leads through what the path leads through. -/
theorem onPath_of_append {a b c : Bytes} (hslash : slash ∉ name)
    (h : b ++ slash :: name = a ++ slash :: c) : OnPath a b := by
  rcases append_eq_append_iff.mp h with ⟨t, rfl, ht⟩ | ⟨t, rfl, ht⟩
  · rcases t with _ | ⟨x, t⟩
    · rw [append_nil]
      exact .refl b
    · refine absurd ?_ hslash
      rw [(cons.inj ht).2]
      simp
  · rcases t with _ | ⟨x, t⟩
    · rw [append_nil]
      exact .refl a
    · rw [← (cons.inj ht).1]
      exact onPath_append a t

/-- Files, directories and the times of the last changes. -/
@[ext]
structure Disk where
  fs : FileSystem
  /-- When a file was last written. -/
  modTime : Nat → Int
  isDir : Bytes → Prop
  /-- A path is not both. -/
  apart : ∀ {path}, isDir path → fs.inode path = none
  finite : {path | fs.inode path ≠ none ∨ isDir path}.Finite

namespace Disk

/-- Nothing at all. -/
def empty : Disk where
  fs := .empty
  modTime _ := 0
  isDir _ := False
  apart h := h.elim
  finite := by
    refine Set.Finite.subset Set.finite_empty ?_
    rintro path (h | h)
    · exact h rfl
    · exact h

variable (d : Disk)

/-- There is nothing at the path. -/
def Absent (path : Bytes) : Prop := d.fs.inode path = none ∧ ¬ d.isDir path

/-- The directory of the path is there. -/
def HasParent (path : Bytes) : Prop :=
  ∃ dir name, path = dir ++ slash :: name ∧ slash ∉ name ∧ d.isDir dir

/-- The entries of a directory, in any order. -/
structure Lists (dir : Bytes) (entries : List DirEntry) : Prop where
  isDir : ∀ e ∈ entries, e.isDir = true → d.isDir (dir ++ slash :: e.name)
  isFile : ∀ e ∈ entries, e.isDir = false → d.fs.inode (dir ++ slash :: e.name) ≠ none
  all : ∀ {name}, PathName name → slash ∉ name → ¬ d.Absent (dir ++ slash :: name) →
    ∃ e ∈ entries, e.name = name

/-- Which calls may fail without a reason in the tree. -/
structure Faults where
  unreadable : Bytes → Prop
  io : Prop

/-- No errors but those with a reason. -/
def Faults.none : Faults := ⟨fun _ => False, False⟩

/-- What an answer says about the tree. A rename may find that the two paths are on two
file systems at any time. -/
def Answers (faults : Faults) : (c : FsCall) → c.Answer → Prop
  | .readDir path, r =>
    match r with
    | .ok entries => d.isDir path ∧ d.Lists path entries
    | .error e => faults.io ∨ ¬ d.isDir path ∧ (e = .notExist ↔ d.fs.inode path = none)
  | .readFile _, _ => True
  | .stat path, r =>
    match r with
    | .ok t => ¬ d.Absent path ∧ ∀ x, d.fs.inode path = some x → t = d.modTime x
    | .error e => faults.io ∨ e = .notExist ∧ d.Absent path
  | .mkdirAll path, r =>
    match r with
    | .ok () => ∀ dir, OnPath dir path → d.fs.inode dir = none
    | .error e => faults.io ∨ e = .other ∧ ∃ dir, OnPath dir path ∧ d.fs.inode dir ≠ none
  | .create path, r =>
    match r with
    | .ok () => d.HasParent path ∧ ¬ d.isDir path
    | .error e => faults.io ∨ e = .notExist ∧ ¬ d.HasParent path ∨ e = .other ∧ d.isDir path
  | .openFile path, r =>
    match r with
    | .ok () => ¬ d.Absent path
    | .error e => faults.io ∨ e = .notExist ∧ d.Absent path
  | .rename source target, r =>
    match r with
    | .ok () => d.HasParent target ∧ ¬ d.isDir target
    | .error e => faults.io ∨ e = .crossDevice ∨
        e = .notExist ∧ (d.Absent source ∨ ¬ d.HasParent target) ∨
        e = .other ∧ (d.isDir source ∨ d.isDir target)
  | .link source target, r =>
    match r with
    | .ok () => d.HasParent target ∧ ¬ d.isDir target
    | .error e => faults.io ∨ e = .exist ∧ ¬ d.Absent target ∨
        e = .notExist ∧ (d.Absent source ∨ ¬ d.HasParent target) ∨ e = .other ∧ d.isDir source
  | .remove path, r =>
    match r with
    | .ok () => ¬ d.Absent path ∧
        -- a directory has to be empty
        (d.isDir path → ∀ name, PathName name → slash ∉ name → d.Absent (path ++ slash :: name))
    | .error e => faults.io ∨ e = .notExist ∧ d.Absent path ∨
        e = .other ∧ d.isDir path ∧
          ∃ name, PathName name ∧ slash ∉ name ∧ ¬ d.Absent (path ++ slash :: name)
  | .write _ _, r => r = .ok () ∨ faults.io
  | .sync _, r => r = .ok () ∨ faults.io
  | .close _, r => r = .ok () ∨ faults.io
  | .copy _ _, r => r = .ok () ∨ faults.io

/-- The directories behind a call. -/
def dirsAfter : (c : FsCall) → c.Answer → Bytes → Prop
  | .mkdirAll path, .ok (), dir => d.isDir dir ∨ OnPath dir path
  | .remove path, .ok (), dir => d.isDir dir ∧ dir ≠ path
  | _, _, dir => d.isDir dir

/-- The times, where the file at a path is written. -/
def touch (now : Int) (path : Bytes) : Nat → Int :=
  match d.fs.inode path with
  | some x => update d.modTime x now
  | none => d.modTime

/-- The times behind a call. A write that fails may have written something. -/
def Dates (now : Int) (modTime : Nat → Int) : (c : FsCall) → c.Answer → Prop
  | .create path, .ok () => modTime = update d.modTime (d.fs.opened path) now
  | .write path _, .ok () => modTime = d.touch now path
  | .write path _, .error _ => modTime = d.touch now path ∨ modTime = d.modTime
  | .copy _ target, .ok () => modTime = d.touch now target
  | .copy _ target, .error _ => modTime = d.touch now target ∨ modTime = d.modTime
  | _, _ => modTime = d.modTime

/-- What a call can answer and leave behind at a time. -/
structure Outcome (faults : Faults) (now : Int) (d : Disk) (c : FsCall) (r : c.Answer)
    (d' : Disk) : Prop where
  files : c.Outcome faults.unreadable d.fs r d'.fs
  answers : d.Answers faults c r
  dirs : d'.isDir = d.dirsAfter c r
  dates : d.Dates now d'.modTime c r

/-- What a call can answer and leave behind where any call can fail at any time. -/
def Faulty (d : Disk) (c : FsCall) (r : c.Answer) (d' : Disk) : Prop :=
  ∃ faults now, Outcome faults now d c r d'

/-! ## What the calls do -/

section
variable {d d' : Disk} {faults : Faults} {now : Int} {α β : Type} {p : FsProg α} {a : α}
  {f : Except FsError (List DirEntry) → FsProg β} {R : β → Disk → Prop}

/-- A run on a disk is a run on its files. -/
theorem exec_files (h : p.Exec (Outcome faults now) d a d') :
    p.Exec (FsCall.Outcome faults.unreadable) d.fs a d'.fs :=
  Prog.exec_map Disk.fs (fun hout => hout.files) h

theorem record_files (h : p.Record (Outcome faults now) d log a d') :
    p.Record (FsCall.Outcome faults.unreadable) d.fs log a d'.fs :=
  Prog.record_map Disk.fs (fun hout => hout.files) h

theorem logged_files {α : Type} {p q : FsProg α} (h : Logged Faulty p d log q d') :
    Logged FsCall.Faulty p d.fs log q d'.fs :=
  Prog.logged_map Disk.fs (fun ⟨faults, _, hout⟩ => ⟨faults.unreadable, hout.files⟩) h

theorem record_faulty (h : p.Record (Outcome faults now) d log a d') :
    p.Record Faulty d log a d' :=
  Prog.record_map id (fun hout => ⟨faults, now, hout⟩) h

theorem Outcome.readDir {r : Except FsError (List DirEntry)}
    (h : Outcome faults now d (.readDir path) r d') : d' = d :=
  Disk.ext h.files h.dates h.dirs

theorem Outcome.readFile {r : Except FsError Bytes} (h : Outcome faults now d (.readFile path) r d') :
    d' = d :=
  Disk.ext h.files.1 h.dates h.dirs

/-- A directory holds finitely many names. -/
theorem finite_children (d : Disk) (dir : Bytes) :
    {name | d.fs.inode (dir ++ slash :: name) ≠ none ∨ d.isDir (dir ++ slash :: name)}.Finite :=
  d.finite.preimage fun _ _ _ _ hab => (cons.inj (append_cancel_left hab)).2

/-- Every directory can be listed. -/
theorem exists_lists (d : Disk) (dir : Bytes) : ∃ entries, d.Lists dir entries := by
  classical
  have hfinite : {name | ¬ d.Absent (dir ++ slash :: name)}.Finite := by
    refine (d.finite_children dir).subset fun name hname => ?_
    by_contra hnone
    exact hname (not_or.mp hnone |>.imp_left not_not.mp)
  let entry (name : Bytes) : Option DirEntry :=
    if h : PathName name ∧ slash ∉ name then
      some ⟨name, decide (d.isDir (dir ++ slash :: name)), h.1, h.2⟩
    else none
  have hentry : ∀ {e}, e ∈ hfinite.toFinset.toList.filterMap entry ↔
      ¬ d.Absent (dir ++ slash :: e.name) ∧ e.isDir = decide (d.isDir (dir ++ slash :: e.name)) := by
    intro e
    rw [mem_filterMap]
    constructor
    · rintro ⟨name, hmem, he⟩
      rw [Finset.mem_toList, Set.Finite.mem_toFinset] at hmem
      obtain ⟨hname, he⟩ := dite_none_right_eq_some.mp he
      cases he
      exact ⟨hmem, rfl⟩
    · rintro ⟨habsent, hdir⟩
      refine ⟨e.name, ?_, ?_⟩
      · rw [Finset.mem_toList, Set.Finite.mem_toFinset]
        exact habsent
      · refine dite_none_right_eq_some.mpr ⟨⟨e.pathName, e.slash⟩, ?_⟩
        obtain ⟨name, isDir, hname, hslash⟩ := e
        exact congrArg some (DirEntry.mk.injEq .. |>.mpr ⟨rfl, hdir.symm⟩)
  refine ⟨hfinite.toFinset.toList.filterMap entry, ?_, ?_, ?_⟩
  · intro e he htrue
    exact of_decide_eq_true ((hentry.mp he).2.symm.trans htrue)
  · intro e he hfalse hnone
    obtain ⟨habsent, hdir⟩ := hentry.mp he
    exact habsent ⟨hnone, of_decide_eq_false (hdir.symm.trans hfalse)⟩
  · intro name hname hslash habsent
    exact ⟨⟨name, decide (d.isDir (dir ++ slash :: name)), hname, hslash⟩,
      hentry.mpr ⟨habsent, rfl⟩, rfl⟩

/-- Without faults the listing of a directory succeeds, and what comes after it goes on from
the same disk. -/
theorem runs_readDir (hdir : d.isDir path)
    (h : ∀ entries, d.Lists path entries → (f (.ok entries)).Runs (Outcome .none now) d R) :
    (Fs.readDir path >>= f).Runs (Outcome .none now) d R := by
  refine Prog.runs_ask ?_ ?_
  · obtain ⟨entries, hlists⟩ := d.exists_lists path
    exact ⟨.ok entries, d, rfl, ⟨hdir, hlists⟩, rfl, rfl⟩
  · intro r d' hout
    obtain rfl := hout.readDir
    rcases r with e | entries
    · rcases hout.answers with hio | ⟨hnot, -⟩
      · exact hio.elim
      · exact absurd hdir hnot
    · exact h entries hout.answers.2

/-- Without faults a listing fails where there is no directory, and there only. -/
theorem runs_readDir_or
    (hok : ∀ entries, d.Lists path entries → (f (.ok entries)).Runs (Outcome .none now) d R)
    (herror : ∀ e, (f (.error e)).Runs (Outcome .none now) d R) :
    (Fs.readDir path >>= f).Runs (Outcome .none now) d R := by
  classical
  by_cases hdir : d.isDir path
  · exact runs_readDir hdir hok
  refine Prog.runs_ask ?_ ?_
  · let e : FsError := if d.fs.inode path = none then .notExist else .other
    refine ⟨.error e, d, rfl, .inr ⟨hdir, ?_⟩, rfl, rfl⟩
    by_cases hnone : d.fs.inode path = none <;> simp [e, hnone]
  · intro r d' hout
    obtain rfl := hout.readDir
    rcases r with e | entries
    · exact herror e
    · exact absurd hout.answers.1 hdir

/-- Without faults a read finds what there is. -/
theorem runs_readFile {f : Except FsError Bytes → FsProg β} {content : Option Bytes}
    (hread : d.fs.read path = content)
    (h : (f (content.elim (.error .notExist) .ok)).Runs (Outcome .none now) d R) :
    (Fs.readFile path >>= f).Runs (Outcome .none now) d R := by
  have hanswer : ∀ r, (FsCall.readFile path).Outcome (fun _ => False) d.fs r d.fs ↔
      r = content.elim (.error .notExist) .ok := by
    intro r
    simp only [FsCall.Outcome, hread, not_false_eq_true, false_and, true_and, false_or]
    cases content <;> rfl
  refine Prog.runs_ask ⟨_, d, (hanswer _).mpr rfl, trivial, rfl, rfl⟩ ?_
  intro r d' hout
  obtain rfl := hout.readFile
  rw [(hanswer r).mp hout.files]
  exact h

/-! ## What is left empty -/

/-- There is nothing in the directory. -/
def Bare (d : Disk) (dir : Bytes) : Prop := ∀ rest, d.Absent (dir ++ slash :: rest)

theorem Bare.lists {dir : Bytes} (h : d.Bare dir) {entries : List DirEntry}
    (hlists : d.Lists dir entries) : entries = [] := by
  refine eq_nil_iff_forall_not_mem.mpr fun e he => ?_
  cases hdir : e.isDir with
  | true => exact (h e.name).2 (hlists.isDir e he hdir)
  | false => exact hlists.isFile e he hdir (h e.name).1

/-- A call that can put something under the name. -/
def Makes (name : Bytes) : FsCall → Prop
  | .mkdirAll path => OnPath name path
  | .create path => path = name
  | .rename _ target => target = name
  | .link _ target => target = name
  | _ => False

/-- A name stays free as long as no call makes it. -/
theorem inode_of_not_makes {unreadable : Bytes → Prop} {fs fs' : FileSystem} {c : FsCall}
    {r : c.Answer} (hc : ¬ Makes name c) (hout : c.Outcome unreadable fs r fs')
    (h : fs.inode name = none) : fs'.inode name = none := by
  cases c with
  | create path =>
    rcases r with e | ⟨⟩
    · exact hout ▸ h
    · cases hout
      exact (update_of_ne (Ne.symm hc) _ _).trans h
  | write path data =>
    obtain ⟨x, -, hwritten⟩ := hout
    rcases r with e | ⟨⟩
    · obtain ⟨n, rfl⟩ := hwritten
      exact h
    · cases hwritten
      exact h
  | copy source target =>
    obtain ⟨data, x, -, -, hwritten⟩ := hout
    rcases r with e | ⟨⟩
    · obtain ⟨n, rfl⟩ := hwritten
      exact h
    · cases hwritten
      exact h
  | rename source target =>
    rcases r with e | ⟨⟩
    · exact hout ▸ h
    · obtain ⟨x, hx, rfl⟩ := hout
      by_cases hsource : name = source
      · subst hsource
        exact update_self _ _ _
      · exact (update_of_ne hsource _ _).trans
          ((update_of_ne (Ne.symm hc) _ _).trans h)
  | link source target =>
    rcases r with e | ⟨⟩
    · exact hout ▸ h
    · obtain ⟨-, x, -, hinode, -⟩ := tryLink_done hout
      rw [hinode]
      exact (update_of_ne (Ne.symm hc) _ _).trans h
  | remove path =>
    rcases r with e | ⟨⟩
    · exact hout ▸ h
    · cases hout
      by_cases hpath : name = path
      · subst hpath
        exact update_self _ _ _
      · exact (update_of_ne hpath _ _).trans h
  | readFile path => exact hout.1 ▸ h
  | readDir _ => exact hout ▸ h
  | stat _ => exact hout ▸ h
  | mkdirAll _ => exact hout ▸ h
  | sync _ => exact hout ▸ h
  | close _ => exact hout ▸ h
  | openFile _ => exact hout ▸ h

theorem Absent.kept {c : FsCall} {r : c.Answer} (hc : ¬ Makes name c) (hout : Faulty d c r d')
    (h : d.Absent name) : d'.Absent name := by
  obtain ⟨faults, now, hfiles, -, hdirs, -⟩ := hout
  refine ⟨inode_of_not_makes hc hfiles h.1, ?_⟩
  rw [hdirs]
  cases c with
  | mkdirAll path =>
    rcases r with e | ⟨⟩
    · exact h.2
    · exact fun hmade => hmade.elim h.2 hc
  | remove path =>
    rcases r with e | ⟨⟩
    · exact h.2
    · exact fun hthere => h.2 hthere.1
  | _ => exact h.2

/-! ## Files with their times -/

/-- The content and the time of the file at a path. -/
def file (d : Disk) (path : Bytes) : Option (Bytes × Int) :=
  (d.fs.inode path).map fun x => (d.fs.content x, d.modTime x)

theorem file_eq_none : d.file path = none ↔ d.fs.inode path = none :=
  map_eq_none_iff

theorem file_eq_some {data : Bytes} {time : Int} :
    d.file path = some (data, time) ↔
      ∃ x, d.fs.inode path = some x ∧ d.fs.content x = data ∧ d.modTime x = time := by
  simp [file]

theorem read_eq_file (d : Disk) (path : Bytes) : d.fs.read path = (d.file path).map Prod.fst := by
  unfold file FileSystem.read
  cases d.fs.inode path <;> rfl

theorem file_congr (hinode : d'.fs.inode path = d.fs.inode path)
    (hsame : ∀ x, d.fs.inode path = some x →
      d'.fs.content x = d.fs.content x ∧ d'.modTime x = d.modTime x) :
    d'.file path = d.file path := by
  unfold file
  rw [hinode]
  cases hx : d.fs.inode path with
  | none => rfl
  | some x =>
    obtain ⟨hcontent, htime⟩ := hsame x hx
    exact congrArg some (Prod.ext hcontent htime)

/-- A new file is written under a free name. -/
theorem file_written {d₁ d₂ : Disk} {data : Bytes} (hfree : d.fs.inode path = none)
    (hcreate : Outcome faults now d (.create path) (.ok ()) d₁)
    (hwrite : Outcome faults now d₁ (.write path data) (.ok ()) d₂) :
    d₂.file path = some (data, now) ∧ ∀ g, g ≠ path → d₂.file g = d.file g := by
  have hfs₁ : d₁.fs = d.fs.create path := hcreate.files
  have hinode₁ : d₁.fs.inode path = some d.fs.fresh := by
    rw [hfs₁, inode_create_self, opened_of_absent _ hfree]
  obtain ⟨x, hx, hfs₂⟩ : ∃ x, d₁.fs.inode path = some x ∧ d₂.fs = d₁.fs.write x data := hwrite.files
  cases hx.symm.trans hinode₁
  have htime₁ : d₁.modTime = update d.modTime d.fs.fresh now := by
    have hdates : d₁.modTime = update d.modTime (d.fs.opened path) now := hcreate.dates
    rw [hdates, opened_of_absent _ hfree]
  have htime₂ : d₂.modTime = update d₁.modTime d.fs.fresh now := by
    have hdates : d₂.modTime = d₁.touch now path := hwrite.dates
    rw [hdates, touch, hinode₁]
  constructor
  · refine file_eq_some.mpr ⟨d.fs.fresh, by rw [hfs₂]; exact hinode₁, ?_, ?_⟩
    · rw [hfs₂]
      exact update_self _ _ _
    · rw [htime₂, update_self]
  · intro g hg
    have hinode : d₂.fs.inode g = d.fs.inode g := by
      rw [hfs₂, hfs₁]
      exact update_of_ne hg _ _
    refine file_congr hinode fun y hy => ?_
    -- no other name refers to the new inode
    have hne : y ≠ d.fs.fresh := Nat.ne_of_lt (d.fs.inode_lt hy)
    constructor
    · rw [hfs₂, hfs₁]
      refine (update_of_ne hne _ _).trans (update_of_ne ?_ _ _)
      rwa [opened_of_absent _ hfree]
    · rw [htime₂, update_of_ne hne, htime₁, update_of_ne hne]

theorem file_linked {source target : Bytes}
    (h : Outcome faults now d (.link source target) (.ok ()) d') :
    d.fs.inode target = none ∧ d'.file target = d.file source ∧
      ∀ g, g ≠ target → d'.file g = d.file g := by
  obtain ⟨hfree, x, hx, hinode, hcontent, -⟩ := tryLink_done h.files
  have htime : d'.modTime = d.modTime := h.dates
  refine ⟨hfree, ?_, fun g hg => ?_⟩
  · unfold file
    rw [hinode, update_self, hx, hcontent, htime]
  · refine file_congr ?_ fun y _ => ⟨by rw [hcontent], by rw [htime]⟩
    rw [hinode, update_of_ne hg]

theorem file_removed (h : Outcome faults now d (.remove path) (.ok ()) d') :
    d'.file path = none ∧ ∀ g, g ≠ path → d'.file g = d.file g := by
  have hfs : d'.fs = d.fs.unlink path := h.files
  have htime : d'.modTime = d.modTime := h.dates
  refine ⟨file_eq_none.mpr (by rw [hfs]; exact update_self _ _ _), fun g hg => ?_⟩
  refine file_congr ?_ fun y _ => ⟨by rw [hfs]; rfl, by rw [htime]⟩
  rw [hfs]
  exact update_of_ne hg _ _

/-- A call that leaves the files as they are. -/
theorem file_kept (hfs : d'.fs = d.fs) (htime : d'.modTime = d.modTime) : d'.file = d.file := by
  funext g
  unfold file
  rw [hfs, htime]

/-! ## Sorted listings -/

/-- `os.ReadDir` sorts the entries by their names. -/
def Sorted : (c : FsCall) → c.Answer → Prop
  | .readDir _, .ok entries => entries.Pairwise fun a b => a.name < b.name
  | _, _ => True

instance (c : FsCall) (r : c.Answer) : Decidable (Sorted c r) := by
  unfold Sorted
  split <;> infer_instance

/-- The outcomes without faults, with listings in order. -/
def SortedOutcome (now : Int) (d : Disk) (c : FsCall) (r : c.Answer) (d' : Disk) : Prop :=
  Outcome .none now d c r d' ∧ Sorted c r

end

end Disk

end GbfCore
