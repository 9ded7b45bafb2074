import GbfCore.Lib.Threads
import GbfCore.Pipeline.Assembly
import GbfCore.Pipeline.Worker

/-!
# The worker pool (pipeline.go, progress.go)

`runUploadWorkers` without a cancellation: thread 0 sends the files into a buffered channel and
closes it, the other threads receive them. A worker runs `processFile` store call by store call,
records the outcome in the statistics and the manifest, which is one critical section, and
then reports it to the progress tracker, which is another. What a store call answers and leaves
behind is up to the step, and so is whether `isFileLockedError` holds of an error.

`processFile` always returns an entry or an error, so no file counts as skipped. Of the progress
the rate and the remaining time are left out.

The statistics and the tracker classify each file on their own. The tracker is told that a
changed file is new: it counts the new and the changed files as new (`Pool.progress_agrees`).
The manifest gets an entry for every file, whatever becomes of it (`Pool.recorded_once`).
-/

namespace GbfCore

open Function List Prog Threads Nat

variable {P : Primitives} {pl : Pipeline} {prevFiles : Bytes → Option FileEntry} {s s' : Shared}
  {pc pc' : Pc} {files : List ScanEntry} {workers i : Nat} {c : Config Shared Pc}

/-! ## Progress -/

/-- What a `ProgressTracker` counts. -/
structure Progress where
  processedFiles : Nat
  processedBytes : Int
  newFiles : Nat
  changedFiles : Nat
  unchangedFiles : Nat
  uploadedBytes : Int
  currentFile : Bytes

/-- The progress of `NewProgressTracker`. -/
def Progress.zero : Progress := ⟨0, 0, 0, 0, 0, 0, []⟩

/-- `FileProcessed`. -/
def Progress.fileProcessed (p : Progress) (file : Bytes) (size : Int) (isNew isChanged : Bool) :
    Progress :=
  let p := { p with
    processedFiles := p.processedFiles + 1
    processedBytes := wrap64 (p.processedBytes + size)
    currentFile := file }
  if isNew then
    { p with newFiles := p.newFiles + 1, uploadedBytes := wrap64 (p.uploadedBytes + size) }
  else if isChanged then
    { p with changedFiles := p.changedFiles + 1, uploadedBytes := wrap64 (p.uploadedBytes + size) }
  else { p with unchangedFiles := p.unchangedFiles + 1 }

namespace Pool

/-! ## The pool -/

/-- `uploadStats`. -/
structure UploadStats where
  uploadedBytes : Int
  newFiles : Nat
  changedFiles : Nat
  unchangedFiles : Nat
  skippedFiles : Nat
  failedFiles : Nat
  lockedFiles : Nat
  failedPaths : List Bytes
  lockedPaths : List Bytes
  failedErrors : List (Bytes × PipelineError)

/-- `uploadStats{}` -/
def UploadStats.zero : UploadStats := ⟨0, 0, 0, 0, 0, 0, 0, [], [], []⟩

/-- The counters for a file that was processed. -/
def UploadStats.processed (s : UploadStats) (r : Processed) : UploadStats :=
  let s := { s with uploadedBytes := wrap64 (s.uploadedBytes + r.uploaded) }
  if r.isNew then { s with newFiles := s.newFiles + 1 }
  else if r.isChanged then { s with changedFiles := s.changedFiles + 1 }
  else { s with unchangedFiles := s.unchangedFiles + 1 }

/-- The counters for a file that was not. -/
def UploadStats.failed (s : UploadStats) (relPath : Bytes) (e : PipelineError) (isLocked : Bool) :
    UploadStats :=
  if isLocked then
    { s with lockedFiles := s.lockedFiles + 1, lockedPaths := s.lockedPaths ++ [relPath] }
  else
    { s with
      failedFiles := s.failedFiles + 1
      failedPaths := s.failedPaths ++ [relPath]
      failedErrors := s.failedErrors ++ [(relPath, e)] }

/-- What the threads share. -/
structure Shared where
  /-- The files that have not been sent. -/
  pending : List ScanEntry
  queue : List ScanEntry
  closed : Bool
  stats : UploadStats
  manifest : Manifest
  progress : Progress
  blobs : Blobs
  /-- The files the workers took, with what surrounded the work on them. No step looks at it. -/
  taken : List (ScanEntry × Env)

/-- Where a thread is. -/
inductive Pc where
  | feeding
  | idle
  | running (fe : ScanEntry) (rest : StoreProg (Except PipelineError Processed))
  | recorded (fe : ScanEntry) (isNew isChanged : Bool)
  | exited

/-- What the surroundings choose. -/
inductive Event where
  | send
  | close
  | receive (env : Env)
  | exit
  | answer (answers : (c : StoreCall) → c.Answer) (blobs : Blobs)
  | record (isLocked : Bool)
  | report

/-- The critical section of a worker for the outcome of `processFile`. -/
def Shared.record (s : Shared) (fe : ScanEntry) (isLocked : Bool) :
    Except PipelineError Processed → Shared
  | .ok r => { s with manifest := s.manifest.addFile r.entry, stats := s.stats.processed r }
  | .error e =>
    { s with
      stats := s.stats.failed fe.relPath e isLocked
      manifest := s.manifest.addFile (failedEntry fe isLocked) }

/-- `isNew` of an outcome. -/
def isNew (res : Except PipelineError Processed) : Bool := res.toOption.any Processed.isNew

/-- `isChanged` of an outcome. -/
def isChanged (res : Except PipelineError Processed) : Bool := res.toOption.any Processed.isChanged

section
variable (P : Primitives) (pl : Pipeline) (prevFiles : Bytes → Option FileEntry) (workers : Nat)

/-- One step of a thread. -/
def next (s : Shared) : Pc → Event → Option (Shared × Pc)
  | .feeding, .send =>
    match s.pending with
    | [] => none
    | fe :: rest =>
      if s.queue.length < workers * 4 then
        some ({ s with pending := rest, queue := s.queue ++ [fe] }, .feeding)
      else none
  | .feeding, .close =>
    if s.pending = [] then some ({ s with closed := true }, .exited) else none
  | .idle, .receive env =>
    match s.queue with
    | [] => none
    | fe :: rest =>
      some ({ s with queue := rest, taken := (fe, env) :: s.taken },
        .running fe (Worker.processFile P pl env fe (prevFiles fe.relPath)))
  | .idle, .exit => if s.queue = [] ∧ s.closed = true then some (s, .exited) else none
  | .running fe (.call c rest), .answer answers blobs =>
    some ({ s with blobs := blobs }, .running fe (rest (answers c)))
  | .running fe (.ret res), .record isLocked =>
    some (s.record fe isLocked res, .recorded fe (isNew res) (isChanged res))
  | .recorded fe isNew isChanged, .report =>
    some ({ s with
      progress := s.progress.fileProcessed fe.relPath fe.size (isNew || isChanged) isChanged },
      .idle)
  | _, _ => none

/-- What a step does, one constructor for each kind of step. -/
inductive Effect (s : Shared) : Pc → Shared → Pc → Prop
  | send {fe : ScanEntry} {rest : List ScanEntry} (hpending : s.pending = fe :: rest) :
      Effect s .feeding { s with pending := rest, queue := s.queue ++ [fe] } .feeding
  | close (hpending : s.pending = []) : Effect s .feeding { s with closed := true } .exited
  | receive (env : Env) {fe : ScanEntry} {rest : List ScanEntry} (hqueue : s.queue = fe :: rest) :
      Effect s .idle { s with queue := rest, taken := (fe, env) :: s.taken }
        (.running fe (Worker.processFile P pl env fe (prevFiles fe.relPath)))
  | exit (hqueue : s.queue = []) (hclosed : s.closed = true) : Effect s .idle s .exited
  | answer {fe : ScanEntry} {c : StoreCall} (r : c.Answer) (blobs : Blobs)
      (rest : c.Answer → StoreProg (Except PipelineError Processed)) :
      Effect s (.running fe (.call c rest)) { s with blobs := blobs } (.running fe (rest r))
  | record (fe : ScanEntry) (isLocked : Bool) (res : Except PipelineError Processed) :
      Effect s (.running fe (.ret res)) (s.record fe isLocked res)
        (.recorded fe (isNew res) (isChanged res))
  | report (fe : ScanEntry) (isNew isChanged : Bool) :
      Effect s (.recorded fe isNew isChanged)
        { s with
          progress := s.progress.fileProcessed fe.relPath fe.size (isNew || isChanged) isChanged }
        .idle

variable {P pl prevFiles workers}

theorem next_cases {s s' : Shared} {pc pc' : Pc} {e : Event}
    (h : next P pl prevFiles workers s pc e = some (s', pc')) :
    Effect P pl prevFiles s pc s' pc' := by
  unfold next at h
  split at h
  · split at h
    · cases h
    · rename_i fe rest hpending
      split at h
      · cases h
        exact .send hpending
      · cases h
  · split at h
    · rename_i hpending
      cases h
      exact .close hpending
    · cases h
  · split at h
    · cases h
    · rename_i fe rest hqueue
      cases h
      exact .receive _ hqueue
  · split at h
    · rename_i hdone
      cases h
      exact .exit hdone.1 hdone.2
    · cases h
  · cases h
    exact .answer _ _ _
  · cases h
    exact .record _ _ _
  · cases h
    exact .report _ _ _
  · cases h

end

/-- The number of workers for a configured number. -/
def workerCount (configured : Int) (numCPU : Nat) : Nat :=
  if configured ≤ 0 then min (max numCPU 2) 8 else configured.toNat

theorem workerCount_pos (configured : Int) (numCPU : Nat) : 0 < workerCount configured numCPU := by
  unfold workerCount
  split
  · exact lt_min (lt_max_of_lt_right (by decide)) (by decide)
  · omega

/-- The pool before its first step. -/
def start (files : List ScanEntry) (manifest : Manifest) (blobs : Blobs) (workers : Nat) :
    Config Shared Pc where
  shared := ⟨files, [], false, .zero, manifest, .zero, blobs, []⟩
  thread i := if i = 0 then .feeding else if i ≤ workers then .idle else .exited

/-- The pool has finished: `wg.Wait` returns. -/
def Finished (c : Config Shared Pc) : Prop := ∀ i, c.thread i = .exited

/-! ## Every file is counted once -/

/-- A file is on its way through a worker. -/
def Pc.inFlight : Pc → Int
  | .running _ _ => 1
  | .recorded _ _ _ => 1
  | _ => 0

/-- A file was counted as new or changed, and not yet reported. -/
def Pc.owed : Pc → Int
  | .recorded _ isNew isChanged => if isNew || isChanged then 1 else 0
  | _ => 0

/-- The files that have not been reported, and the new and changed ones among those recorded. -/
structure Counts (files : List ScanEntry) (c : Config Shared Pc) : Prop where
  flight : TotalOver Pc.inFlight c.thread
    (files.length - c.shared.progress.processedFiles - c.shared.queue.length -
      c.shared.pending.length)
  owed : TotalOver Pc.owed c.thread
    (c.shared.stats.newFiles + c.shared.stats.changedFiles - c.shared.progress.newFiles)
  noChanged : c.shared.progress.changedFiles = 0

/-- The channel is closed when everything was sent, and the workers leave when it is empty. -/
structure Drains (workers : Nat) (c : Config Shared Pc) : Prop where
  closed : c.shared.closed = true → c.shared.pending = []
  feeding : ∀ i, c.thread i = .feeding → i = 0
  left : ∀ i, i ≤ workers → c.thread i = .exited →
    c.shared.closed = true ∧ (0 < i → c.shared.queue = [])

section

theorem newFiles_fileProcessed (p : Progress) (file : Bytes) (size : Int) (isNew isChanged : Bool) :
    (p.fileProcessed file size isNew isChanged).newFiles =
      p.newFiles + if isNew then 1 else 0 := by
  unfold Progress.fileProcessed
  cases isNew <;> cases isChanged <;> rfl

theorem changedFiles_fileProcessed (p : Progress) (file : Bytes) (size : Int)
    (isNew isChanged : Bool) :
    (p.fileProcessed file size (isNew || isChanged) isChanged).changedFiles = p.changedFiles := by
  unfold Progress.fileProcessed
  cases isNew <;> cases isChanged <;> rfl

theorem processedFiles_fileProcessed (p : Progress) (file : Bytes) (size : Int)
    (isNew isChanged : Bool) :
    (p.fileProcessed file size isNew isChanged).processedFiles = p.processedFiles + 1 := by
  unfold Progress.fileProcessed
  cases isNew <;> cases isChanged <;> rfl

/-- The statistics count a file as new or as changed. -/
theorem stats_record (s : Shared) (fe : ScanEntry) (isLocked : Bool)
    (res : Except PipelineError Processed) :
    (s.record fe isLocked res).stats.newFiles + (s.record fe isLocked res).stats.changedFiles =
      s.stats.newFiles + s.stats.changedFiles + if isNew res || isChanged res then 1 else 0 := by
  cases res with
  | error e => cases isLocked <;> rfl
  | ok r =>
    obtain ⟨entry, uploaded, changed, new⟩ := r
    show (s.stats.processed _).newFiles + (s.stats.processed _).changedFiles =
      _ + if new || changed then 1 else 0
    unfold UploadStats.processed
    cases new <;> cases changed <;> simp only [Bool.or_self, Bool.or_true, Bool.or_false,
      Bool.false_eq_true, if_true, if_false] <;> omega

/-- Nothing else is touched. -/
theorem record_frame (s : Shared) (fe : ScanEntry) (isLocked : Bool)
    (res : Except PipelineError Processed) :
    (s.record fe isLocked res).pending = s.pending ∧ (s.record fe isLocked res).queue = s.queue ∧
      (s.record fe isLocked res).closed = s.closed ∧
      (s.record fe isLocked res).progress = s.progress ∧
      (s.record fe isLocked res).taken = s.taken := by
  cases res <;> exact ⟨rfl, rfl, rfl, rfl, rfl⟩

/-- **A file is somewhere.** -/
theorem flight_step (h : Effect P pl prevFiles s pc s' pc') :
    (s'.progress.processedFiles + s'.queue.length + s'.pending.length : Int) + pc'.inFlight =
      s.progress.processedFiles + s.queue.length + s.pending.length + pc.inFlight := by
  cases h with
  | send hpending =>
    rw [hpending]
    simp only [length_append, length_cons, length_nil, Pc.inFlight]
    omega
  | close hpending => rfl
  | receive env hqueue =>
    rw [hqueue]
    simp only [length_cons, Pc.inFlight]
    omega
  | exit hqueue hclosed => rfl
  | answer r blobs rest => rfl
  | record fe isLocked res =>
    obtain ⟨hpending, hqueue, -, hprogress, -⟩ := record_frame s fe isLocked res
    rw [hpending, hqueue, hprogress]
    rfl
  | report fe isNew isChanged =>
    rw [processedFiles_fileProcessed]
    simp only [Pc.inFlight]
    omega

/-- **The tracker hears of what the statistics count as new or changed, as new.** -/
theorem owed_step (h : Effect P pl prevFiles s pc s' pc') :
    (s'.progress.newFiles : Int) + pc'.owed + (s.stats.newFiles + s.stats.changedFiles) =
      s.progress.newFiles + pc.owed + (s'.stats.newFiles + s'.stats.changedFiles) := by
  cases h with
  | record fe isLocked res =>
    have hstats := stats_record s fe isLocked res
    rw [(record_frame s fe isLocked res).2.2.2.1]
    simp only [Pc.owed]
    split at hstats
    · rename_i hcounted
      rw [if_pos hcounted]
      omega
    · rename_i hcounted
      rw [if_neg hcounted]
      omega
  | report fe isNew isChanged =>
    rw [newFiles_fileProcessed]
    simp only [Pc.owed]
    split <;> omega
  | _ => rfl

theorem noChanged_step (h : Effect P pl prevFiles s pc s' pc') :
    s'.progress.changedFiles = s.progress.changedFiles := by
  cases h with
  | record fe isLocked res => rw [(record_frame s fe isLocked res).2.2.2.1]
  | report fe isNew isChanged => exact changedFiles_fileProcessed ..
  | _ => rfl

section

theorem Counts.step (h : Counts files c)
    (heff : Effect P pl prevFiles c.shared (c.thread i) s' pc') :
    Counts files ⟨s', update c.thread i pc'⟩ := by
  refine ⟨?_, ?_, (noChanged_step heff).trans h.noChanged⟩
  · have hflight := flight_step heff
    have htotal := h.flight.update i pc'
    refine (congrArg (TotalOver Pc.inFlight _) ?_).mp htotal
    dsimp only
    omega
  · have howed := owed_step heff
    have htotal := h.owed.update i pc'
    refine (congrArg (TotalOver Pc.owed _) ?_).mp htotal
    dsimp only
    omega

theorem Drains.step (h : Drains workers c)
    (heff : Effect P pl prevFiles c.shared (c.thread i) s' pc') :
    Drains workers ⟨s', update c.thread i pc'⟩ := by
  generalize hpc : c.thread i = pc at heff
  -- the other threads stand still
  have hother : ∀ {j pc₀}, update c.thread i pc' j = pc₀ → pc' ≠ pc₀ →
      c.thread j = pc₀ := by
    intro j pc₀ hj hne
    by_cases hji : j = i
    · rw [hji, update_self] at hj
      exact absurd hj hne
    · rwa [update_of_ne hji] at hj
  cases heff with
  | send hpending =>
    have hopen : c.shared.closed ≠ true := fun hclosed => by
      cases hpending.symm.trans (h.closed hclosed)
    refine ⟨fun hclosed => absurd hclosed hopen, fun j hj => ?_, fun j hle hj => ?_⟩
    · by_cases hji : j = i
      · exact hji ▸ h.feeding i hpc
      · exact h.feeding j ((update_of_ne hji _ _).symm.trans hj)
    · exact absurd (h.left j hle (hother hj nofun)).1 hopen
  | close hpending =>
    refine ⟨fun _ => hpending, fun j hj => h.feeding j (hother hj nofun), fun j hle hj => ?_⟩
    refine ⟨rfl, fun hpos => ?_⟩
    have hji : j ≠ i := by
      rintro rfl
      exact absurd (h.feeding j hpc) (ne_of_gt hpos)
    exact (h.left j hle ((update_of_ne hji _ _).symm.trans hj)).2 hpos
  | receive env hqueue =>
    refine ⟨h.closed, fun j hj => h.feeding j (hother hj nofun), fun j hle hj => ?_⟩
    obtain ⟨hclosed, hempty⟩ := h.left j hle (hother hj nofun)
    refine ⟨hclosed, fun hpos => ?_⟩
    cases hqueue.symm.trans (hempty hpos)
  | exit hqueue hclosed =>
    exact ⟨h.closed, fun j hj => h.feeding j (hother hj nofun), fun _ _ _ =>
      ⟨hclosed, fun _ => hqueue⟩⟩
  | answer r blobs rest =>
    exact ⟨h.closed, fun j hj => h.feeding j (hother hj nofun), fun j hle hj =>
      h.left j hle (hother hj nofun)⟩
  | record fe isLocked res =>
    obtain ⟨hpending, hqueue, hclosed, -, -⟩ := record_frame c.shared fe isLocked res
    refine ⟨fun hcl => ?_, fun j hj => h.feeding j (hother hj nofun), fun j hle hj => ?_⟩
    · rw [hpending]
      exact h.closed (hclosed ▸ hcl)
    · rw [hclosed, hqueue]
      exact h.left j hle (hother hj nofun)
  | report fe isNew isChanged =>
    exact ⟨h.closed, fun j hj => h.feeding j (hother hj nofun), fun j hle hj =>
      h.left j hle (hother hj nofun)⟩

end

end

section
variable {manifest : Manifest} {blobs : Blobs}

theorem thread_start (i : Nat) :
    (start files manifest blobs workers).thread i = .feeding ∧ i = 0 ∨
      (start files manifest blobs workers).thread i = .idle ∨
      (start files manifest blobs workers).thread i = .exited ∧ workers < i := by
  unfold start
  dsimp only
  split
  · rename_i hi
    exact .inl ⟨rfl, hi⟩
  · split
    · exact .inr (.inl rfl)
    · rename_i hle
      exact .inr (.inr ⟨rfl, not_le.mp hle⟩)

theorem counts_start : Counts files (start files manifest blobs workers) := by
  have hzero : ∀ i, ((start files manifest blobs workers).thread i).inFlight = 0 ∧
      ((start files manifest blobs workers).thread i).owed = 0 := by
    intro i
    rcases thread_start i with ⟨hi, -⟩ | hi | ⟨hi, -⟩ <;> rw [hi] <;> exact ⟨rfl, rfl⟩
  refine ⟨?_, ?_, rfl⟩
  · have htotal := totalOver_zero fun i => (hzero i).1
    refine (congrArg (TotalOver Pc.inFlight _) ?_).mp htotal
    show (0 : Int) = files.length - (0 : Nat) - (0 : Nat) - files.length
    omega
  · exact totalOver_zero fun i => (hzero i).2

theorem drains_start : Drains workers (start files manifest blobs workers) := by
  refine ⟨nofun, fun i hi => ?_, fun i hle hi => ?_⟩
  · rcases thread_start i with ⟨-, h⟩ | h | ⟨h, -⟩
    · exact h
    · cases h.symm.trans hi
    · cases h.symm.trans hi
  · rcases thread_start i with ⟨h, -⟩ | h | ⟨-, hlt⟩
    · cases h.symm.trans hi
    · cases h.symm.trans hi
    · exact absurd hle (not_le.mpr hlt)

section
variable (h : Reach (next P pl prevFiles workers) (fun _ _ _ => True)
  (· = start files manifest blobs workers) c)
include h

theorem drains_reach : Drains workers c :=
  h.invariant _ (by rintro _ rfl; exact drains_start) fun hinv _ hstep =>
    hinv.step (next_cases hstep)

theorem first_reach : c.thread 0 = .feeding ∨ c.thread 0 = .exited := by
  refine h.invariant (fun c => c.thread 0 = .feeding ∨ c.thread 0 = .exited) ?_ ?_
  · rintro _ rfl
    exact .inl rfl
  · intro c i e s' pc' hinv _ hnext
    show update c.thread i pc' 0 = _ ∨ update c.thread i pc' 0 = _
    by_cases hi : 0 = i
    · subst hi
      rw [update_self]
      have heff := next_cases hnext
      rcases hinv with hpc | hpc <;> rw [hpc] at heff <;> cases heff
      · exact .inl rfl
      · exact .inr rfl
    · rwa [update_of_ne hi]

end

end

/-! ## Files that did not change -/

section
variable (P : Primitives) (pl : Pipeline) (prevFiles : Bytes → Option FileEntry)

/-- If the file has a previous entry, its content is the one of that entry. -/
def Steady (job : ScanEntry × Env) : Prop :=
  ∀ prev content, prevFiles job.1.relPath = some prev → HashContent P pl job.2 job.1 content →
    prev.contentHash = P.contentHash content

/-- As long as the files the workers take are steady, none counts as changed. -/
def Unchanging (c : Config Shared Pc) : Prop :=
  (∀ job ∈ c.shared.taken, Steady P pl prevFiles job) → c.shared.stats.changedFiles = 0 ∧
    ∀ i fe p, c.thread i = .running fe p → p.Sat (fun _ => True) fun res => isChanged res = false

variable {P pl prevFiles} {fe : ScanEntry} {env : Env} {prev : Option FileEntry}

theorem resolveFileStatus_steady {contentHash : Bytes}
    (hsame : prev.isSome = true → prevHash prev = contentHash) :
    (resolveFileStatus prev.isSome contentHash (prevHash prev)).2.2 = false := by
  show (prev.isSome && decide (contentHash ≠ prevHash prev)) = false
  cases hprev : prev.isSome with
  | false => rfl
  | true =>
    rw [hsame hprev]
    simp

/-- **A steady file is not found to have changed.** -/
theorem Steady.not_changed (h : Steady P pl prevFiles (fe, env)) :
    (Worker.processFile P pl env fe (prevFiles fe.relPath)).Sat (fun _ => True) fun res =>
      isChanged res = false := by
  have hprev : ∀ content, HashContent P pl env fe content →
      (prevFiles fe.relPath).isSome = true →
        prevHash (prevFiles fe.relPath) = P.contentHash content := by
    intro content hcontent hsome
    obtain ⟨prev, hprev⟩ := Option.isSome_iff_exists.mp hsome
    rw [hprev]
    exact h prev content hprev hcontent
  refine sat_processFile (fun _ _ => trivial) (fun _ => rfl) (fun _ => rfl)
    (fun hsmall contentHash ciphertext hhash => ⟨trivial, fun _ => resolveFileStatus_steady ?_⟩)
    (fun hlarge hashed hhash => ⟨sat_true _, fun _ => resolveFileStatus_steady ?_⟩)
  · obtain ⟨content, hread, rfl, -⟩ := hashAndEncryptFile_ok hhash
    refine hprev content ?_
    rw [HashContent, if_pos hsmall]
    exact hread
  · obtain ⟨ds, hds, hof⟩ := hashStreaming_ok hhash
    rw [hof.contentHash_eq]
    refine hprev _ ?_
    rw [HashContent, if_neg (not_lt.mpr hlarge)]
    exact ⟨ds, hds, rfl⟩

theorem Unchanging.step {s' : Shared} {pc' : Pc} {c : Config Shared Pc} {i : Nat}
    (h : Unchanging P pl prevFiles c)
    (heff : Effect P pl prevFiles c.shared (c.thread i) s' pc') :
    Unchanging P pl prevFiles ⟨s', update c.thread i pc'⟩ := by
  generalize hpc : c.thread i = pc at heff
  -- a program that the thread has come to, and those of the other threads
  have hthreads : ∀ {T : Prop}, (∀ i fe p, c.thread i = .running fe p →
      p.Sat (fun _ => True) fun res => isChanged res = false) →
      (∀ fe p, pc' = .running fe p → p.Sat (fun _ => True) fun res => isChanged res = false) →
      T → T ∧ ∀ j fe p, update c.thread i pc' j = .running fe p →
        p.Sat (fun _ => True) fun res => isChanged res = false := by
    intro T hold hnew hT
    refine ⟨hT, fun j fe p hj => ?_⟩
    by_cases hji : j = i
    · rw [hji, update_self] at hj
      exact hnew fe p hj
    · rw [update_of_ne hji] at hj
      exact hold j fe p hj
  intro hsteady
  cases heff with
  | receive env hqueue =>
    obtain ⟨hhead, hrest⟩ := forall_mem_cons.mp hsteady
    obtain ⟨hzero, hold⟩ := h hrest
    refine hthreads hold (fun fe p hp => ?_) hzero
    cases hp
    exact hhead.not_changed
  | answer r blobs rest =>
    obtain ⟨hzero, hold⟩ := h hsteady
    refine hthreads hold (fun fe p hp => ?_) hzero
    cases hp
    exact (hold i _ _ hpc).2 r
  | record fe isLocked res =>
    rw [(record_frame c.shared fe isLocked res).2.2.2.2] at hsteady
    obtain ⟨hzero, hold⟩ := h hsteady
    refine hthreads hold nofun ?_
    have hres : isChanged res = false := hold i fe _ hpc
    cases res with
    | error e => cases isLocked <;> exact hzero
    | ok r =>
      obtain ⟨entry, uploaded, changed, new⟩ := r
      obtain rfl : changed = false := hres
      cases new <;> exact hzero
  | send hpending =>
    obtain ⟨hzero, hold⟩ := h hsteady
    exact hthreads hold nofun hzero
  | close hpending =>
    obtain ⟨hzero, hold⟩ := h hsteady
    exact hthreads hold nofun hzero
  | exit hqueue hclosed =>
    obtain ⟨hzero, hold⟩ := h hsteady
    exact hthreads hold nofun hzero
  | report fe isNew isChanged =>
    obtain ⟨hzero, hold⟩ := h hsteady
    exact hthreads hold nofun hzero

end

/-! ## What the tracker shows in the end -/

/-- **The live progress and the statistics of a run.** Every file is reported once. The two agree
on the new and the changed files exactly if none has changed, and that is so if no file with a
previous entry has another content. -/
theorem progress_agrees {P : Primitives} {pl : Pipeline} {prevFiles : Bytes → Option FileEntry}
    {files : List ScanEntry} {manifest : Manifest} {blobs : Blobs} (configured : Int) (numCPU : Nat)
    {c : Config Shared Pc}
    (h : Reach (next P pl prevFiles (workerCount configured numCPU)) (fun _ _ _ => True)
      (· = start files manifest blobs (workerCount configured numCPU)) c) (hfinished : Finished c) :
    c.shared.progress.processedFiles = files.length ∧
    (c.shared.progress.newFiles = c.shared.stats.newFiles ∧
      c.shared.progress.changedFiles = c.shared.stats.changedFiles ↔
        c.shared.stats.changedFiles = 0) ∧
    ((∀ job ∈ c.shared.taken, Steady P pl prevFiles job) →
      c.shared.progress.newFiles = c.shared.stats.newFiles ∧
      c.shared.progress.changedFiles = c.shared.stats.changedFiles) := by
  have hcounts : Counts files c := h.invariant (Counts files)
    (by rintro _ rfl; exact counts_start) fun hinv _ hstep => hinv.step (next_cases hstep)
  have hdrains : Drains (workerCount configured numCPU) c := h.invariant _
    (by rintro _ rfl; exact drains_start) fun hinv _ hstep => hinv.step (next_cases hstep)
  have hunchanging : Unchanging P pl prevFiles c := by
    refine h.invariant _ ?_ fun hinv _ hstep => hinv.step (next_cases hstep)
    rintro _ rfl _
    refine ⟨rfl, fun i fe p hi => ?_⟩
    rcases thread_start i with ⟨hpc, -⟩ | hpc | ⟨hpc, -⟩ <;> cases hpc.symm.trans hi
  -- some worker has left, so the channel is closed and empty
  obtain ⟨hclosed, hempty⟩ := hdrains.left 1 (workerCount_pos configured numCPU) (hfinished 1)
  have hpending := hdrains.closed hclosed
  have hqueue := hempty one_pos
  have hflight := hcounts.flight.eq_zero fun i => by rw [hfinished i]; rfl
  have howed := hcounts.owed.eq_zero fun i => by rw [hfinished i]; rfl
  have hnone := hcounts.noChanged
  rw [hpending, hqueue, length_nil] at hflight
  have hagree : c.shared.progress.newFiles = c.shared.stats.newFiles ∧
      c.shared.progress.changedFiles = c.shared.stats.changedFiles ↔
        c.shared.stats.changedFiles = 0 := by omega
  exact ⟨by omega, hagree, fun hsteady => hagree.mpr (hunchanging hsteady).1⟩

/-! ## What the manifest holds in the end -/

/-- The files that the statistics count. -/
def UploadStats.recorded (s : UploadStats) : Nat :=
  s.newFiles + s.changedFiles + s.unchangedFiles + s.failedFiles + s.lockedFiles

/-- A file was recorded, and not yet reported. -/
def Pc.unreported : Pc → Int
  | .recorded _ _ _ => 1
  | _ => 0

/-- Every recorded file has an entry of its own, and is reported. -/
structure Recorded (before : Nat) (c : Config Shared Pc) : Prop where
  entries : c.shared.manifest.files.length = before + c.shared.stats.recorded
  unreported : TotalOver Pc.unreported c.thread
    (c.shared.stats.recorded - c.shared.progress.processedFiles)

section

/-- One critical section counts one file and enters it in the manifest. -/
theorem recorded_record (s : Shared) (fe : ScanEntry) (isLocked : Bool)
    (res : Except PipelineError Processed) :
    (s.record fe isLocked res).stats.recorded = s.stats.recorded + 1 ∧
      (s.record fe isLocked res).manifest.files.length = s.manifest.files.length + 1 := by
  have hfiles (f : FileEntry) :
      (s.manifest.addFile f).files.length = s.manifest.files.length + 1 :=
    (files_addFile s.manifest f).length_eq
  cases res with
  | error e => exact ⟨by cases isLocked <;> grind [Shared.record, UploadStats.failed,
      UploadStats.recorded], hfiles _⟩
  | ok r => exact ⟨by grind [Shared.record, UploadStats.processed, UploadStats.recorded], hfiles _⟩

theorem recorded_step (h : Effect P pl prevFiles s pc s' pc') :
    (s'.stats.recorded - s'.progress.processedFiles : Int) + pc.unreported =
        s.stats.recorded - s.progress.processedFiles + pc'.unreported ∧
      s'.manifest.files.length + s.stats.recorded =
        s.manifest.files.length + s'.stats.recorded := by
  cases h with
  | record fe isLocked res =>
    obtain ⟨hstats, hfiles⟩ := recorded_record s fe isLocked res
    rw [(record_frame s fe isLocked res).2.2.2.1, hstats, hfiles]
    simp only [Pc.unreported]
    exact ⟨by omega, by omega⟩
  | report fe isNew isChanged =>
    rw [processedFiles_fileProcessed]
    simp only [Pc.unreported]
    exact ⟨by omega, trivial⟩
  | _ => exact ⟨rfl, rfl⟩

theorem Recorded.step {before : Nat} {c : Config Shared Pc} {i : Nat} (h : Recorded before c)
    (heff : Effect P pl prevFiles c.shared (c.thread i) s' pc') :
    Recorded before ⟨s', update c.thread i pc'⟩ := by
  obtain ⟨hreported, hentries⟩ := recorded_step heff
  have hbefore := h.entries
  refine ⟨by dsimp only; omega, (congrArg (TotalOver Pc.unreported _) ?_).mp
    (h.unreported.update i pc')⟩
  dsimp only
  omega

end

/-- **The pool accounts for every file**, however the workers take turns and whatever the store
answers: in the end the statistics have counted as many files as were scanned, those that failed
or were locked among them, and the manifest has grown by as many entries. -/
theorem recorded_once {P : Primitives} {pl : Pipeline} {prevFiles : Bytes → Option FileEntry}
    {files : List ScanEntry} {manifest : Manifest} {blobs : Blobs} (configured : Int) (numCPU : Nat)
    {c : Config Shared Pc}
    (h : Reach (next P pl prevFiles (workerCount configured numCPU)) (fun _ _ _ => True)
      (· = start files manifest blobs (workerCount configured numCPU)) c) (hfinished : Finished c) :
    c.shared.stats.newFiles + c.shared.stats.changedFiles + c.shared.stats.unchangedFiles +
        c.shared.stats.failedFiles + c.shared.stats.lockedFiles = files.length ∧
      c.shared.manifest.files.length = manifest.files.length + files.length := by
  have hcounts : Counts files c := h.invariant _ (by rintro _ rfl; exact counts_start)
    fun hinv _ hstep => hinv.step (next_cases hstep)
  have hdrains := drains_reach h
  have hrecorded : Recorded manifest.files.length c := by
    refine h.invariant _ ?_ fun hinv _ hstep => hinv.step (next_cases hstep)
    rintro _ rfl
    refine ⟨rfl, totalOver_zero fun i => ?_⟩
    rcases thread_start i with ⟨hi, -⟩ | hi | ⟨hi, -⟩ <;> rw [hi] <;> rfl
  obtain ⟨hclosed, hempty⟩ := hdrains.left 1 (workerCount_pos configured numCPU) (hfinished 1)
  have hflight := hcounts.flight.eq_zero fun i => by rw [hfinished i]; rfl
  rw [hdrains.closed hclosed, hempty one_pos, length_nil] at hflight
  have hreported := hrecorded.unreported.eq_zero fun i => by rw [hfinished i]; rfl
  have hentries := hrecorded.entries
  unfold UploadStats.recorded at hreported hentries
  omega

/-! ## One file -/

/-- The thread has left. -/
def Pc.hasExited : Pc → Bool
  | .exited => true
  | _ => false

/-- A store that has nothing and takes everything. -/
def emptyAnswers : (c : StoreCall) → c.Answer
  | .query _ => .ok false
  | .existsBatch _ => .ok fun _ => false
  | .put _ _ => .ok ()

/-- One worker backs up one file. -/
def soloSteps (env : Env) : List (Nat × Event) :=
  [(0, .send), (0, .close), (1, .receive env), (1, .answer emptyAnswers .empty),
    (1, .answer emptyAnswers .empty), (1, .record false), (1, .report), (1, .exit)]

/-- The pool for an empty file. -/
def soloStart : Config Shared Pc := start [sampleScan 0] .zero .empty (workerCount 1 1)

/-- A run of these steps. -/
theorem solo_finished {prevFiles : Bytes → Option FileEntry} {Q : Shared → Prop}
    [DecidablePred Q]
    (h : ((run (next samplePrimitives samplePipeline prevFiles (workerCount 1 1)) soloStart
      (soloSteps emptyFileEnv)).any fun c =>
        (c.thread 0).hasExited && (c.thread 1).hasExited && decide (Q c.shared)) = true) :
    ∃ c, Reach (next samplePrimitives samplePipeline prevFiles (workerCount 1 1))
      (fun _ _ _ => True) (· = soloStart) c ∧ Finished c ∧ Q c.shared := by
  obtain ⟨c, hrun, hfacts⟩ := (Option.any_eq_true _ _).mp h
  simp only [Bool.and_eq_true, decide_eq_true_eq] at hfacts
  obtain ⟨⟨hzero, hone⟩, hQ⟩ := hfacts
  have hexited : ∀ {pc : Pc}, pc.hasExited = true → pc = .exited := by
    intro pc hpc
    cases pc with
    | exited => rfl
    | _ => cases hpc
  refine ⟨c, run_reach (.start rfl) hrun, fun i => ?_, hQ⟩
  rcases i with _ | _ | i
  · exact hexited hzero
  · exact hexited hone
  · exact (thread_run (fun p hp => by revert p; simp [soloSteps]) hrun).trans rfl

/-- A new file. -/
theorem progress_agrees_new : ∃ c, Reach
      (next samplePrimitives samplePipeline (fun _ => none) (workerCount 1 1)) (fun _ _ _ => True)
      (· = soloStart) c ∧ Finished c ∧ c.shared.stats.newFiles = 1 ∧
    c.shared.progress.processedFiles = 1 ∧
    c.shared.progress.newFiles = c.shared.stats.newFiles ∧
    c.shared.progress.changedFiles = c.shared.stats.changedFiles := by
  obtain ⟨c, hreach, hfinished, hnew⟩ :=
    @solo_finished (fun _ => none) (fun s => s.stats.newFiles = 1) _ (by decide +kernel)
  obtain ⟨hprocessed, -, hagree⟩ := progress_agrees 1 1 hreach hfinished
  exact ⟨c, hreach, hfinished, hnew, hprocessed,
    hagree fun job _ prev content hprev => nomatch hprev⟩

theorem recorded_once_new : ∃ c, Reach
      (next samplePrimitives samplePipeline (fun _ => none) (workerCount 1 1)) (fun _ _ _ => True)
      (· = soloStart) c ∧ Finished c ∧ c.shared.manifest.files.length = 1 := by
  obtain ⟨c, hreach, hfinished, -⟩ :=
    @solo_finished (fun _ => none) (fun s => s.stats.newFiles = 1) _ (by decide +kernel)
  exact ⟨c, hreach, hfinished, (recorded_once 1 1 hreach hfinished).2⟩

/-- The file had four bytes before. -/
def changedBefore : Bytes → Option FileEntry := fun _ =>
  some ⟨ascii "a", samplePrimitives.contentHash zstdMagic, 4, ascii "0", 0o644, fileStatusNew, []⟩

/-- **A changed file is reported as a new one.** -/
theorem progress_counts_changed_as_new : ∃ c, Reach
      (next samplePrimitives samplePipeline changedBefore (workerCount 1 1)) (fun _ _ _ => True)
      (· = soloStart) c ∧ Finished c ∧
    c.shared.stats.newFiles = 0 ∧ c.shared.stats.changedFiles = 1 ∧
    c.shared.progress.newFiles = 1 ∧ c.shared.progress.changedFiles = 0 :=
  solo_finished (Q := fun s => s.stats.newFiles = 0 ∧ s.stats.changedFiles = 1 ∧
    s.progress.newFiles = 1 ∧ s.progress.changedFiles = 0) (by decide +kernel)

/-! ## No deadlock -/

/-- A worker only waits for a file or the end of the channel, the feeding thread for room in it. -/
theorem exists_next (hleft : c.thread i ≠ .exited)
    (hidle : c.thread i = .idle → c.shared.queue ≠ [] ∨ c.shared.closed = true)
    (hfeeding : c.thread i = .feeding →
      c.shared.pending = [] ∨ c.shared.queue.length < workers * 4) :
    ∃ e, (next P pl prevFiles workers c.shared (c.thread i) e).isSome = true := by
  cases hpc : c.thread i with
  | exited => exact absurd hpc hleft
  | recorded fe isNew isChanged => exact ⟨.report, rfl⟩
  | running fe p =>
    cases p with
    | ret res => exact ⟨.record false, rfl⟩
    | call call rest => exact ⟨.answer emptyAnswers .empty, rfl⟩
  | idle =>
    cases hqueue : c.shared.queue with
    | nil =>
      have hclosed := (hidle hpc).resolve_left (absurd hqueue)
      exact ⟨.exit, by rw [next, if_pos ⟨hqueue, hclosed⟩]; rfl⟩
    | cons fe rest => exact ⟨.receive emptyFileEnv, by rw [next, hqueue]; rfl⟩
  | feeding =>
    cases hpending : c.shared.pending with
    | nil => exact ⟨.close, by rw [next, if_pos hpending]; rfl⟩
    | cons fe rest =>
      have hroom := (hfeeding hpc).resolve_left (by rw [hpending]; exact cons_ne_nil _ _)
      exact ⟨.send, by rw [next, hpending]; exact congrArg Option.isSome (if_pos hroom)⟩

/-- **The pool never gets stuck**: until it has finished some thread can take a step. -/
theorem never_stuck {manifest : Manifest} {blobs : Blobs} (configured : Int) (numCPU : Nat)
    (h : Reach (next P pl prevFiles (workerCount configured numCPU)) (fun _ _ _ => True)
      (· = start files manifest blobs (workerCount configured numCPU)) c) :
    Finished c ∨ ∃ i e, (next P pl prevFiles (workerCount configured numCPU) c.shared
      (c.thread i) e).isSome = true := by
  have hdrains := drains_reach h
  have hfirst := first_reach h
  by_cases hfinished : Finished c
  · exact .inl hfinished
  obtain ⟨i, hi⟩ := not_forall.mp hfinished
  refine .inr ?_
  by_cases hclosed : c.shared.closed = true
  · exact ⟨i, exists_next hi (fun _ => .inr hclosed) fun _ => .inl (hdrains.closed hclosed)⟩
  by_cases hroom : c.shared.pending = [] ∨
      c.shared.queue.length < workerCount configured numCPU * 4
  · have hfeeding := hfirst.resolve_right fun h0 => hclosed (hdrains.left 0 (zero_le _) h0).1
    exact ⟨0, exists_next (by rw [hfeeding]; nofun) (by rw [hfeeding]; nofun) fun _ => hroom⟩
  · -- the channel is full, and the first worker has not left
    have hpos := workerCount_pos configured numCPU
    refine ⟨1, exists_next (fun h1 => hclosed (hdrains.left 1 hpos h1).1) (fun _ => .inl ?_)
      fun h1 => absurd (hdrains.feeding 1 h1) one_ne_zero⟩
    intro hempty
    rw [hempty, length_nil] at hroom
    omega

/-- Six files for one worker, of which the channel takes four. -/
def sixStart : Config Shared Pc := start (replicate 6 (sampleScan 0)) .zero .empty (workerCount 1 1)

/-- The channel is full. -/
theorem never_stuck_full : ∃ c, Reach
      (next samplePrimitives samplePipeline (fun _ => none) (workerCount 1 1)) (fun _ _ _ => True)
      (· = sixStart) c ∧ c.shared.queue.length = 4 ∧ c.shared.pending.length = 2 ∧
    ∃ i e, (next samplePrimitives samplePipeline (fun _ => none) (workerCount 1 1) c.shared
      (c.thread i) e).isSome = true := by
  have hrun : ((run (next samplePrimitives samplePipeline (fun _ => none) (workerCount 1 1)) sixStart
      (replicate 4 (0, .send))).any fun c => decide (c.shared.queue.length = 4 ∧
        c.shared.pending.length = 2 ∧ (c.thread 0).hasExited = false)) = true := by
    decide +kernel
  obtain ⟨c, hrun, hfacts⟩ := (Option.any_eq_true _ _).mp hrun
  obtain ⟨hqueue, hpending, hfeeding⟩ := of_decide_eq_true hfacts
  refine ⟨c, run_reach (.start rfl) hrun, hqueue, hpending,
    (never_stuck 1 1 (run_reach (.start rfl) hrun)).resolve_left fun hfinished => ?_⟩
  rw [hfinished 0] at hfeeding
  cases hfeeding

end Pool

end GbfCore
