import GbfCore.Lib.DiskImage
import GbfCore.Lib.Inside
import GbfCore.Manifest.SaveFaults

/-!
# The manifests of a repository over time

Saves, trashings and cleanings of one repository, one after the other, each at a time. The
programs of `Operations` run on a `Disk` here, with directories and times of change; a
`RepoRun` is the history of the disk, with the calls that were made.

`CleanTrashManifests` is modelled here, for it takes no `cloudID`.
-/

namespace GbfCore

open List Prog Image

variable {P : Primitives} {r : Except OpError Unit} {events : List RepoEvent} {c : FsCall}
  {hkdf : KeyDerivation}

/-! ## Cleaning the whole trash -/

/-- The entries of one directory, in the walk of `CleanTrashManifests`. What cannot be looked
at is skipped. -/
def cleanEntries (now maxAge : Int) (walk : Bytes → FsProg Nat) (dir : Bytes) :
    List DirEntry → FsProg Nat
  | [] => return 0
  | e :: rest => do
    let path := pathJoin [dir, e.name]
    match ← Fs.stat path with
    | .error _ => cleanEntries now maxAge walk dir rest
    | .ok modTime =>
      if e.isDir then
        let n ← walk path
        let k ← cleanEntries now maxAge walk dir rest
        return n + k
      else if maxAge < timeSub now modTime then
        let r ← Fs.remove path
        let k ← cleanEntries now maxAge walk dir rest
        return if r.isOk then k + 1 else k
      else cleanEntries now maxAge walk dir rest

/-- `filepath.Walk` with the callback of `CleanTrashManifests`, down to a depth. -/
def cleanWalk (now maxAge : Int) : (depth : Nat) → (dir : Bytes) → FsProg Nat
  | 0, _ => return 0
  | depth + 1, dir => do
    match ← Fs.readDir dir with
    | .error _ => return 0
    | .ok entries => cleanEntries now maxAge (cleanWalk now maxAge depth) dir entries

/-- `CleanTrashManifests`; the callback never fails, so neither does the walk. The trash is
taken to be a directory if it is there. -/
def cleanTrashManifests (metaDir : Bytes) (now maxAge : Int) (depth : Nat) :
    FsProg (Except OpError Nat) := do
  let n ← cleanWalk now maxAge depth (pathJoin [metaDir, ascii "trash"])
  return .ok n

/-! ## Runs -/

/-- What is done to a repository. -/
inductive RepoOp where
  | save (m : Manifest) (key : Bytes) (env : SaveInputs)
  | trash (cloudID timestamp deviceID : Bytes)
  | trashAll (cloudID : Bytes)
  | clean (maxAge : Int) (depth : Nat)
  | cleanSource (cloudID : Bytes) (maxAge : Int)

/-- One of them, when it was done, what could fail meanwhile, the calls it made and whether
it succeeded. -/
structure RepoEvent where
  op : RepoOp
  now : Int
  faults : Disk.Faults
  log : List FsEvent
  ok : Bool

section
variable (P : Primitives) (hkdf : KeyDerivation) (hook : DecryptHook) (metaDir : Bytes)

/-- The program of an operation. -/
def RepoOp.prog (now : Int) : RepoOp → FsProg (Except OpError Unit)
  | save m key env => outcome (saveManifestWithKey P hkdf metaDir m key env)
  | trash cloudID timestamp deviceID => trashManifest P hook metaDir cloudID timestamp deviceID
  | trashAll cloudID => outcome (trashAllSourceManifests metaDir cloudID)
  | clean maxAge depth => outcome (cleanTrashManifests metaDir now maxAge depth)
  | cleanSource cloudID maxAge => outcome (cleanTrashManifestsForSource metaDir cloudID now maxAge)

/-- The event takes the disk from one state to another. -/
def RepoEvent.Takes (e : RepoEvent) (d d' : Disk) : Prop :=
  ∃ r, (e.op.prog P hkdf hook metaDir e.now).Record (Disk.Outcome e.faults e.now) d e.log r d' ∧
    e.ok = r.isOk

/-- The history of a disk, the latest event first. -/
inductive RepoRun (start : Disk) : List RepoEvent → Disk → Prop
  | start : RepoRun start [] start
  | step {events : List RepoEvent} {d d' : Disk} {e : RepoEvent} (h : RepoRun start events d)
      (htakes : e.Takes P hkdf hook metaDir d d') : RepoRun start (e :: events) d'

end

theorem takes_of_mem {hook : DecryptHook} {metaDir : Bytes} {start d : Disk}
    (h : RepoRun P hkdf hook metaDir start events d) {e : RepoEvent} (he : e ∈ events) :
    ∃ d₁ d₂, e.Takes P hkdf hook metaDir d₁ d₂ := by
  induction h with
  | start => exact absurd he not_mem_nil
  | step _ htakes ih =>
    rcases mem_cons.mp he with rfl | he
    · exact ⟨_, _, htakes⟩
    · exact ih he

/-- A result that was only asked for success. -/
theorem record_outcome {σ α : Type} {out : σ → (c : FsCall) → c.Answer → σ → Prop}
    {p : FsProg (Except OpError α)} {s s' : σ} {log : List FsEvent}
    (h : (outcome p).Record out s log r s') :
    ∃ r', p.Record out s log r' s' ∧ r = r'.map fun _ => () := by
  obtain ⟨r', s₁, log₁, log₂, rfl, hp, hret⟩ := record_bind h
  obtain ⟨rfl, rfl, rfl⟩ := hret
  rw [append_nil]
  exact ⟨r', hp, rfl⟩

/-! ## Histories that can be computed -/

section
variable (P : Primitives) (hkdf : KeyDerivation) (hook : DecryptHook) (metaDir : Bytes)

/-- Run operations on an image, each at its time, as long as they succeed. The events are put
in front of those before. -/
def Image.runOps : List (RepoOp × Int) → List RepoEvent → Image → Option (List RepoEvent × Image)
  | [], events, i => some (events, i)
  | (op, now) :: rest, events, i =>
    match run now (op.prog P hkdf hook metaDir now) i with
    | some (.ok (), log, i') =>
      if i'.Valid then runOps rest (⟨op, now, .none, log, true⟩ :: events) i' else none
    | _ => none

variable {P hkdf hook metaDir}

/-- An operation that was computed. -/
theorem takes_run {op : RepoOp} {now : Int} {i i' : Image} {log : List FsEvent} (h : i.Valid)
    (h' : i'.Valid) (hrun : run now (op.prog P hkdf hook metaDir now) i = some (r, log, i')) :
    (RepoEvent.mk op now .none log r.isOk).Takes P hkdf hook metaDir (i.disk h) (i'.disk h') :=
  ⟨r, record_run h h' hrun, rfl⟩

/-- Without faults, these operations and no others succeeded. -/
def Completed (ops : List (RepoOp × Int)) (events : List RepoEvent) : Prop :=
  (events.map fun e => (e.op, e.now)) = ops.reverse ∧
    ∀ e ∈ events, e.ok = true ∧ e.faults = .none

/-- What is computed is a history. -/
theorem repoRun_runOps {start : Disk} : ∀ {ops ops₀ : List (RepoOp × Int)} {i i' : Image}
    {events events' : List RepoEvent} (h : i.Valid) (h' : i'.Valid),
    RepoRun P hkdf hook metaDir start events (i.disk h) → Completed ops₀ events →
    runOps P hkdf hook metaDir ops events i = some (events', i') →
    RepoRun P hkdf hook metaDir start events' (i'.disk h') ∧ Completed (ops₀ ++ ops) events' := by
  intro ops
  induction ops with
  | nil =>
    rintro ops₀ i i' events events' h h' hrun hdone ⟨⟩
    rw [append_nil]
    exact ⟨hrun, hdone⟩
  | cons p rest ih =>
    obtain ⟨op, now⟩ := p
    intro ops₀ i i' events events' h h' hrun hdone hops
    unfold runOps at hops
    split at hops
    · rename_i log i₁ hstep
      obtain ⟨hvalid, hops⟩ := Option.ite_none_right_eq_some.mp hops
      have htakes := takes_run h hvalid hstep
      have hdone' : Completed (ops₀ ++ [(op, now)]) (⟨op, now, .none, log, true⟩ :: events) := by
        refine ⟨?_, forall_mem_cons.mpr ⟨⟨rfl, rfl⟩, hdone.2⟩⟩
        rw [map_cons, hdone.1, reverse_append]
        rfl
      have hrest := ih hvalid h' (hrun.step htakes) hdone' hops
      rw [append_assoc] at hrest
      exact hrest
    · cases hops

/-- The same, from an empty disk. -/
theorem repoRun_empty {ops : List (RepoOp × Int)} {i : Image} (h : i.Valid)
    (hops : runOps P hkdf hook metaDir ops [] .empty = some (events, i)) :
    RepoRun P hkdf hook metaDir .empty events (i.disk h) ∧ Completed ops events := by
  have hstart : RepoRun P hkdf hook metaDir .empty [] (empty.disk valid_empty) := by
    rw [disk_empty]
    exact .start
  have hdone : Completed [] [] := ⟨rfl, fun e he => absurd he not_mem_nil⟩
  exact repoRun_runOps valid_empty h hstart hdone hops

end

/-! ## The directories of a save -/

/-- Calls that change no directory, as long as this path is none. -/
def KeepsDirs (tmp : Bytes) : FsCall → Prop
  | .mkdirAll _ => False
  | .remove path => path = tmp
  | _ => True

section
variable {faults : Disk.Faults} {now : Int} {d d' : Disk} {tmp : Bytes}

theorem dirs_of_keepsDirs {r : c.Answer} (hc : KeepsDirs tmp c)
    (hout : Disk.Outcome faults now d c r d') (hnot : ¬ d.isDir tmp) : d'.isDir = d.isDir := by
  cases c with
  | mkdirAll path => exact hc.elim
  | remove path =>
    obtain rfl : path = tmp := hc
    rcases r with e | ⟨⟩
    · exact hout.dirs
    · rw [hout.dirs]
      funext dir
      refine propext ⟨fun h => h.1, fun h => ⟨h, ?_⟩⟩
      rintro rfl
      exact hnot h
  | _ => exact hout.dirs

theorem exec_keepsDirs {α : Type} {p : FsProg α} {a : α} (hp : p.Calls (KeepsDirs tmp))
    (h : p.Exec (Disk.Outcome faults now) d a d') (hnot : ¬ d.isDir tmp) : d'.isDir = d.isDir := by
  refine (exec_of_sat (fun s => s.isDir = d.isDir) hp ?_ h rfl).1
  intro c s r s' hc hout hs
  exact (dirs_of_keepsDirs hc hout (hs ▸ hnot)).trans hs

theorem keepsDirs_commitFileNoReplace (tmp target : Bytes) :
    (commitFileNoReplace tmp target).Calls (KeepsDirs tmp) := by
  refine calls_ok (sat_ask trivial) (fun _ => trivial) fun _ => ?_
  exact calls_ok (sat_ask rfl) (fun _ => trivial) fun _ => sync_calls trivial trivial trivial

/-- The file of a save is below the directory of its source, by way of directories if there
are slashes in its name. -/
theorem onPath_pathDir {dir b : Bytes} (h : CleanDir dir) (hb : PathNames b) :
    OnPath dir (pathDir (dir ++ slash :: b)) := by
  obtain ⟨front, last, hsplit⟩ : ∃ front last, splitSlash b = front ++ [last] :=
    ⟨_, _, (dropLast_append_getLast (splitSlash_ne_nil b)).symm⟩
  have hlast : slash ∉ last :=
    slash_notMem_of_mem_splitSlash (hsplit ▸ mem_append_right _ (mem_singleton_self _))
  have hjoin := joinSlash_splitSlash b
  rw [hsplit] at hjoin
  by_cases hfront : front = []
  · subst hfront
    obtain rfl : last = b := by simpa [joinSlash] using hjoin
    rw [h.pathDir hlast]
    exact .refl dir
  · have hb' : b = joinSlash front ++ slash :: last := by
      rw [← hjoin, joinSlash_append hfront (cons_ne_nil _ _)]
      simp [joinSlash]
    have hnames : PathNames (joinSlash front) := by
      rw [PathNames, splitSlash_joinSlash (fun seg hseg => slash_notMem_of_mem_splitSlash
        (hsplit ▸ mem_append_left _ hseg)) hfront]
      exact fun seg hseg => hb seg (hsplit ▸ mem_append_left _ hseg)
    rw [hb', ← cons_append, ← append_assoc, (h.below hnames).pathDir hlast]
    exact onPath_append dir _

/-- The directory of all manifests. -/
def manifestsRoot (metaDir : Bytes) : Bytes := pathJoin [metaDir, ascii "manifests"]

theorem names_manifests : PathNames (ascii "manifests") :=
  names_of_notMem ⟨by decide, by decide⟩ (by decide)

theorem cleanDir_manifestsRoot (metaDir : Bytes) : CleanDir (manifestsRoot metaDir) :=
  cleanDir_pathJoin metaDir names_manifests

theorem manifestDir_append (metaDir : Bytes) {cloudID : Bytes}
    (h : PathNames cloudID) :
    manifestDir metaDir cloudID = manifestsRoot metaDir ++ slash :: cloudID :=
  pathJoin_append metaDir names_manifests h

/-- The directory of all trashed manifests. -/
def trashRoot (metaDir : Bytes) : Bytes := pathJoin [metaDir, ascii "trash"]

theorem names_trash : PathNames (ascii "trash") :=
  names_of_notMem ⟨by decide, by decide⟩ (by decide)

theorem cleanDir_trashRoot (metaDir : Bytes) : CleanDir (trashRoot metaDir) :=
  cleanDir_pathJoin metaDir names_trash

theorem manifestTrashDir_append (metaDir : Bytes) {cloudID : Bytes}
    (h : PathNames cloudID) :
    manifestTrashDir metaDir cloudID = trashRoot metaDir ++ slash :: cloudID :=
  pathJoin_append metaDir names_trash h

/-- **A save makes the directories on the way to its source**, and keeps the others. -/
theorem dirs_saveManifestWithKey {metaDir : Bytes} {m : Manifest} {key : Bytes} {env : SaveInputs}
    {f : Bytes}
    (h : (saveManifestWithKey P hkdf metaDir m key env).Exec (Disk.Outcome faults now) d (.ok f) d') :
    validateCloudID m.saveCloudID = .ok () ∧ (∀ dir, d.isDir dir → d'.isDir dir) ∧
      ∀ dir, OnPath dir (manifestDir metaDir m.saveCloudID) → d'.isDir dir := by
  unfold saveManifestWithKey at h
  split at h
  · exact nomatch h.1
  rename_i job hprep
  obtain ⟨-, hcloud, hdevice, hjob⟩ := prepareSave_ok.mp hprep
  obtain ⟨made, d₁, hmkdir, h⟩ := exec_call h
  rcases made with e | ⟨⟩
  · exact nomatch h.1
  dsimp only at h
  split at h
  · exact nomatch h.1
  obtain ⟨staged, d₂, hstage, h⟩ := exec_bind.mp h
  rcases staged with e | ⟨⟩
  · exact nomatch h.1
  -- the staging file could be created, so it is no directory
  have hnot : ¬ d₁.isDir job.staging := by
    obtain ⟨created, d₃, hcreate, hrest⟩ := exec_call hstage
    rcases created with e | ⟨⟩
    · exact nomatch hrest.1
    · exact hcreate.answers.2
  have hdirs₂ := exec_keepsDirs (staging_calls trivial trivial trivial trivial rfl) hstage hnot
  have hloop : (commitAttempts job env.random 8 0).Calls (KeepsDirs job.staging) :=
    calls_commitAttempts (by exact rfl) (fun _ _ => keepsDirs_commitFileNoReplace _ _) 8 0
  have hdirs := exec_keepsDirs hloop h (hdirs₂ ▸ hnot)
  have hall : ∀ dir, d'.isDir dir ↔ d.isDir dir ∨ OnPath dir (pathDir job.path) := by
    intro dir
    rw [hdirs, hdirs₂, hmkdir.dirs]
    exact Iff.rfl
  refine ⟨hcloud, fun dir hdir => (hall dir).mpr (.inl hdir), fun dir hdir => ?_⟩
  refine (hall dir).mpr (.inr (hdir.trans ?_))
  have hcloud := (validateCloudID_ok hcloud).2
  have hdevice := (validateCloudID_ok hdevice).2
  have hpath : job.path = _ :=
    candidate_eq metaDir (m.saveUnix env.now) hcloud hdevice job (by rw [hjob]) 0 []
  have hclean : CleanDir (manifestDir metaDir m.saveCloudID) := by
    rw [manifestDir_append metaDir hcloud]
    exact (cleanDir_manifestsRoot metaDir).below hcloud
  rw [hpath]
  exact onPath_pathDir hclean (pathName_savedName _ hdevice _ (by simp [attemptSuffix]))

/-! ## Reading on a disk -/

/-- Calls that only look. -/
def IsLook : FsCall → Prop
  | .readDir _ => True
  | .readFile _ => True
  | .stat _ => True
  | _ => False

theorem exec_isLook {α : Type} {p : FsProg α} {a : α} (hp : p.Calls IsLook)
    (h : p.Exec (Disk.Outcome faults now) d a d') : d' = d := by
  refine (exec_of_sat (fun s => s = d) hp ?_ h rfl).1
  rintro c s r s' hc hout rfl
  cases c with
  | readDir path => exact hout.readDir
  | readFile path => exact Disk.ext hout.files.1 hout.dates hout.dirs
  | stat path => exact Disk.ext hout.files hout.dates hout.dirs
  | _ => exact hc.elim

/-- Every look has an answer. -/
theorem exists_look (faults : Disk.Faults) (now : Int) (d : Disk) (hc : IsLook c) :
    ∃ r d', Disk.Outcome faults now d c r d' := by
  classical
  cases c with
  | readDir path =>
    by_cases hdir : d.isDir path
    · obtain ⟨entries, hlists⟩ := d.exists_lists path
      exact ⟨.ok entries, d, rfl, ⟨hdir, hlists⟩, rfl, rfl⟩
    · by_cases hnone : d.fs.inode path = none
      · exact ⟨.error .notExist, d, rfl, .inr ⟨hdir, iff_of_true rfl hnone⟩, rfl, rfl⟩
      · exact ⟨.error .other, d, rfl, .inr ⟨hdir, iff_of_false (by rintro ⟨⟩) hnone⟩, rfl, rfl⟩
  | readFile path =>
    by_cases hunreadable : faults.unreadable path
    · exact ⟨.error .other, d, ⟨rfl, .inl ⟨hunreadable, rfl⟩⟩, trivial, rfl, rfl⟩
    · cases hread : d.fs.read path with
      | none =>
        exact ⟨.error .notExist, d, ⟨rfl, .inr ⟨hunreadable, by rw [hread]⟩⟩, trivial, rfl, rfl⟩
      | some data => exact ⟨.ok data, d, ⟨rfl, .inr ⟨hunreadable, by rw [hread]⟩⟩, trivial, rfl, rfl⟩
  | stat path =>
    cases hinode : d.fs.inode path with
    | some x =>
      refine ⟨.ok (d.modTime x), d, rfl, ⟨fun habsent => ?_, fun y hy => ?_⟩, rfl, rfl⟩
      · cases hinode.symm.trans habsent.1
      · rw [Option.some.inj (hinode.symm.trans hy)]
    | none =>
      by_cases hdir : d.isDir path
      · exact ⟨.ok 0, d, rfl, ⟨fun habsent => habsent.2 hdir, fun y hy => by
          cases hinode.symm.trans hy⟩, rfl, rfl⟩
      · exact ⟨.error .notExist, d, rfl, .inr ⟨rfl, hinode, hdir⟩, rfl, rfl⟩
  | _ => exact hc.elim

theorem isLook_loadManifestFile (P : Primitives) (hook : DecryptHook) (path : Bytes) :
    (loadManifestFile P hook path).Calls IsLook :=
  calls_loadManifestFile P hook trivial trivial

/-- A manifest is loaded from a disk. -/
theorem exec_loadManifest_disk {hook : DecryptHook} {path : Bytes} {r : Except LoadError Manifest}
    (h : (loadManifestFile P hook path).Exec (Disk.Outcome .none now) d r d') :
    r = loadManifest P hook d.fs path ∧ d' = d :=
  ⟨(exec_loadManifestFile (Disk.exec_files h)).1, exec_isLook (isLook_loadManifestFile P hook path) h⟩

/-- The manifests of a directory. -/
theorem exec_readManifestFiles {dir : Bytes} {r : Except FsError (List DirEntry)}
    (h : (readManifestFiles dir).Exec (Disk.Outcome faults now) d r d') :
    d' = d ∧ (∀ e, r = .error e → faults.io ∨ ¬ d.isDir dir) ∧
      ∀ entries, r = .ok entries → d.isDir dir ∧ ∀ e ∈ entries, isManifestFile e.name = true := by
  obtain ⟨listed, d₁, hread, hfilter⟩ := exec_bind.mp h
  obtain ⟨raw, d₂, hraw, hentries⟩ := exec_call hread
  obtain rfl := hraw.readDir
  obtain ⟨rfl, rfl⟩ := hentries
  obtain ⟨rfl, rfl⟩ := hfilter
  rcases raw with e | entries
  · exact ⟨rfl, fun _ _ => hraw.answers.imp_right And.left, fun _ hok => nomatch hok⟩
  · refine ⟨rfl, (fun _ herr => nomatch herr), ?_⟩
    rintro _ ⟨⟩
    exact ⟨hraw.answers.1, fun e he => (mem_filter.mp he).2⟩

end

end GbfCore
