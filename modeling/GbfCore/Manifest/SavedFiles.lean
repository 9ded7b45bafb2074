import GbfCore.Manifest.Sources

/-!
# The files of saved manifests, with their times

A save that succeeds adds one file with the manifest and the time of the save, and leaves
every other file alone, its own staging file included (`files_saveManifestWithKey`). So the
directory of a source that only saves have written to holds files of saves (`savedDir_run`).
-/

namespace GbfCore

open List Prog Disk

variable {cloudID : Bytes} {events : List RepoEvent} {r : Except FsError Unit}

section
variable {d d' : Disk} {faults : Disk.Faults} {now : Int} {log : List FsEvent}

/-! ## One save -/

theorem files_syncParentDir {dir : Bytes}
    (h : (syncParentDir dir).Exec (Disk.Outcome faults now) d r d') : d'.file = d.file := by
  obtain ⟨opened, d₁, hopen, h⟩ := exec_call h
  have hfile₁ : d₁.file = d.file := file_kept hopen.files hopen.dates
  rcases opened with e | ⟨⟩
  · rw [h.2, hfile₁]
  obtain ⟨synced, d₂, hsync, h⟩ := exec_call h
  obtain ⟨closed, d₃, hclose, h⟩ := exec_call h
  rw [h.2, file_kept hclose.files hclose.dates, file_kept hsync.files hsync.dates, hfile₁]

/-- The staging file is written under a free name. -/
theorem files_writeStagingFile {tmp data : Bytes} (hfree : d.fs.inode tmp = none)
    (h : (writeStagingFile tmp data).Exec (Disk.Outcome faults now) d (.ok ()) d') :
    d'.file tmp = some (data, now) ∧ ∀ g, g ≠ tmp → d'.file g = d.file g := by
  obtain ⟨created, d₁, hcreate, h⟩ := exec_call h
  rcases created with e | ⟨⟩
  · exact nomatch h.1
  obtain ⟨written, d₂, hwrite, h⟩ := exec_call h
  rcases written with e | ⟨⟩
  · obtain ⟨_, _, _, h⟩ := exec_bind.mp h
    obtain ⟨_, _, _, h⟩ := exec_bind.mp h
    exact nomatch h.1
  obtain ⟨synced, d₃, hsync, h⟩ := exec_call h
  rcases synced with e | ⟨⟩
  · obtain ⟨_, _, _, h⟩ := exec_bind.mp h
    obtain ⟨_, _, _, h⟩ := exec_bind.mp h
    exact nomatch h.1
  obtain ⟨closed, d₄, hclose, h⟩ := exec_call h
  rcases closed with e | ⟨⟩
  · obtain ⟨_, _, _, h⟩ := exec_bind.mp h
    exact nomatch h.1
  obtain ⟨-, rfl⟩ := h
  rw [file_kept hclose.files hclose.dates, file_kept hsync.files hsync.dates]
  exact file_written hfree hcreate hwrite

/-- A file was moved to a free name, and nothing else was touched. -/
structure MovedTo (source target : Bytes) (d d' : Disk) : Prop where
  free : d.file target = none
  arrived : d'.file target = d.file source
  gone : d'.file source = none
  others : ∀ g, g ≠ source → g ≠ target → d'.file g = d.file g

/-- A commit that succeeds moves the staging file; one that finds the name taken does
nothing. -/
theorem files_commitFileNoReplace {source target : Bytes} (hne : target ≠ source)
    (hexist : ∀ ev ∈ log, ev.failure ≠ some .exist)
    (h : (commitFileNoReplace source target).Record (Disk.Outcome faults now) d log r d') :
    (r = .ok () → MovedTo source target d d') ∧ (r = .error .exist → d'.file = d.file) := by
  obtain ⟨linked, d₁, rest, hlink, rfl, hlinked⟩ := record_ask h
  rcases linked with e | ⟨⟩
  · obtain ⟨-, rfl, rfl⟩ := hlinked
    exact ⟨nofun, fun _ => file_kept hlink.files hlink.dates⟩
  obtain ⟨removed, d₂, behind, hremove, rfl, hremoved⟩ := record_ask hlinked
  rcases removed with e | ⟨⟩
  · obtain ⟨-, rfl, rfl⟩ := hremoved
    refine ⟨nofun, fun he => ?_⟩
    cases he
    exact absurd rfl (hexist _ (mem_cons_of_mem _ mem_cons_self))
  obtain ⟨hfree, harrived, hothers⟩ := file_linked hlink
  obtain ⟨hgone, hkept⟩ := file_removed hremove
  have hfile := files_syncParentDir (exec_of_record hremoved)
  constructor
  · rintro -
    refine ⟨file_eq_none.mpr hfree, ?_, ?_, fun g hg hg' => ?_⟩
    · rw [hfile, hkept target hne, harrived]
    · rw [hfile, hgone]
    · rw [hfile, hkept g hg, hothers g hg']
  · rintro rfl
    obtain ⟨-, herr, -⟩ := record_syncParentDir (record_files hremoved)
    obtain ⟨ev, hev, hfail⟩ := herr .exist rfl
    exact absurd hfail (hexist ev (mem_cons_of_mem _ (mem_cons_of_mem _ hev)))

/-- **The commit loop moves the staging file to one of its names.** -/
theorem files_commitAttempts {job : SaveJob} {random : Nat → Option Bytes} {f : Bytes}
    (left : Nat) : ∀ {d : Disk} {attempt : Nat} {log : List FsEvent},
    (∀ ev ∈ log, ev.failure ≠ some .exist) →
    (commitAttempts job random left attempt).Record (Disk.Outcome faults now) d log (.ok f) d' →
    (∃ n bytes, f = job.candidate n bytes) ∧ MovedTo job.staging f d d' := by
  have habandon : ∀ {d : Disk} {e : OpError} {log : List FsEvent},
      ¬ (abandonSave job e).Record (Disk.Outcome faults now) d log (.ok f) d' := by
    intro d e log h
    obtain ⟨_, _, _, _, _, hret⟩ := record_ask h
    exact nomatch hret.2.1
  induction left with
  | zero =>
    intro d attempt log _ h
    unfold commitAttempts at h
    split at h <;> exact absurd h habandon
  | succ left ih =>
    intro d attempt log hexist h
    unfold commitAttempts at h
    split at h
    · exact absurd h habandon
    rename_i bytes _
    obtain ⟨res, d₁, log₁, log₂, rfl, hcommit, hrest⟩ := record_bind h
    have hexist₁ := fun ev hev => hexist ev (mem_append_left log₂ hev)
    have hexist₂ := fun ev hev => hexist ev (mem_append_right log₁ hev)
    have hne : job.candidate attempt bytes ≠ job.staging :=
      ne_staging (getLast?_candidate job attempt bytes) job
    obtain ⟨hok, htaken⟩ := files_commitFileNoReplace hne hexist₁ hcommit
    rcases res with e | ⟨⟩
    · cases e with
      | exist =>
        obtain ⟨hname, hmoved⟩ := ih hexist₂ hrest
        have hsame := htaken rfl
        exact ⟨hname, by rw [← hsame]; exact hmoved.free, by rw [← hsame]; exact hmoved.arrived,
          hmoved.gone, by rw [← hsame]; exact hmoved.others⟩
      | _ => exact absurd hrest habandon
    · obtain ⟨-, hf, rfl⟩ := hrest
      cases hf
      exact ⟨⟨attempt, bytes, rfl⟩, hok rfl⟩

/-- **A save that succeeds adds one file**, and touches no other. -/
theorem files_saveManifestWithKey {P : Primitives} {hkdf : KeyDerivation} {metaDir : Bytes}
    {m : Manifest} {key : Bytes} {env : SaveInputs} {f : Bytes}
    (hfree : ∀ job, prepareSave P hkdf metaDir env.now key env.iv env.uuid m = .ok job →
      d.fs.inode job.staging = none)
    (hexist : ∀ ev ∈ log, ev.failure ≠ some .exist)
    (h : (saveManifestWithKey P hkdf metaDir m key env).Record (Disk.Outcome faults now) d log
      (.ok f) d') :
    ∃ job, prepareSave P hkdf metaDir env.now key env.iv env.uuid m = .ok job ∧
      (∃ n bytes, f = job.candidate n bytes) ∧ d.file f = none ∧
      d'.file f = some (job.envelope P, now) ∧ ∀ g, g ≠ f → d'.file g = d.file g := by
  unfold saveManifestWithKey at h
  split at h
  · exact nomatch h.2.1
  rename_i job hprep
  have hfree := hfree job hprep
  obtain ⟨made, d₁, rest, hmkdir, rfl, hmade⟩ := record_ask h
  have hfile₁ : d₁.file = d.file := file_kept hmkdir.files hmkdir.dates
  rcases made with e | ⟨⟩
  · exact nomatch hmade.2.1
  dsimp only at hmade
  split at hmade
  · exact nomatch hmade.2.1
  obtain ⟨staged, d₂, log₁, log₂, rfl, hstage, hloop⟩ := record_bind hmade
  rcases staged with e | ⟨⟩
  · exact nomatch hloop.2.1
  have hfs₁ : d₁.fs = d.fs := hmkdir.files
  obtain ⟨hwritten, hkept⟩ := files_writeStagingFile (by rw [hfs₁]; exact hfree)
    (exec_of_record hstage)
  obtain ⟨hname, hmoved⟩ := files_commitAttempts 8
    (fun ev hev => hexist ev (mem_cons_of_mem _ (mem_append_right _ hev))) hloop
  have hne : f ≠ job.staging := by
    obtain ⟨n, bytes, rfl⟩ := hname
    exact ne_staging (getLast?_candidate job n bytes) job
  refine ⟨job, hprep, hname, ?_, hmoved.arrived.trans hwritten, fun g hg => ?_⟩
  · rw [← hfile₁, ← hkept f hne]
    exact hmoved.free
  · by_cases hstaging : g = job.staging
    · rw [hstaging, hmoved.gone, file_eq_none.mpr hfree]
    · rw [hmoved.others g hstaging hg, hkept g hstaging, hfile₁]

end

/-! ## Runs of saves -/

/-- The timestamp is an instant in this second, of the UTC years 0000 to 9999. -/
def Manifest.Dated (m : Manifest) (unix : Int) : Prop :=
  (∃ nsec, parseRFC3339 m.timestamp = some (unix, nsec)) ∧
    0 ≤ (dateOfUnix unix).year ∧ (dateOfUnix unix).year ≤ 9999

/-- A save for a source that succeeded. No removal and no sync reports that something
exists. -/
def RepoEvent.SavesFor (cloudID : Bytes) (e : RepoEvent) : Prop :=
  ∃ m key env unix, e.op = .save m key env ∧ e.ok = true ∧ m.saveCloudID = cloudID ∧ m.Typed ∧
    m.Dated unix ∧ ∀ ev ∈ e.log, ev.failure ≠ some .exist

section
variable (P : Primitives) (hkdf : KeyDerivation) (hook : DecryptHook) (metaDir : Bytes)

/-- The name and the content of a file that a save wrote, in the second of its manifest. -/
def SavedAs (e : RepoEvent) (unix : Int) (name data : Bytes) : Prop :=
  ∃ m key env n bytes, e.op = .save m key env ∧ m.Typed ∧ m.Dated unix ∧
    name = savedName unix m.deviceID n bytes ∧
    data = gbrEnvelope P (savePayload P hkdf key env.iv m)

/-- Every file below the directory is that of a save. -/
def SavedDir (dir : Bytes) (events : List RepoEvent) (d : Disk) : Prop :=
  ∀ {name data time}, d.file (dir ++ slash :: name) = some (data, time) →
    ∃ e ∈ events, ∃ unix, SavedAs P hkdf e unix name data

variable {P hkdf hook metaDir}

theorem getLast?_savedName (unix : Int) (deviceID : Bytes) (n : Nat) (bytes : Bytes) :
    (savedName unix deviceID n bytes).getLast? = some 0x74 := by
  refine getLast?_of_suffix (t := jsonZst) ?_ (by decide)
  unfold savedName
  rw [← append_assoc, ← append_assoc]
  exact suffix_append _ _

theorem savedDir_step {d d' : Disk} {e : RepoEvent}
    (h : SavedDir P hkdf (manifestDir metaDir cloudID) events d) (hsaves : e.SavesFor cloudID)
    (htakes : e.Takes P hkdf hook metaDir d d') :
    SavedDir P hkdf (manifestDir metaDir cloudID) (e :: events) d' := by
  obtain ⟨m, key, env, unix, hop, hok, rfl, htyped, hdated, hexist⟩ := hsaves
  obtain ⟨r, hrecord, hr⟩ := htakes
  rw [hop] at hrecord
  obtain ⟨saved, hsave, rfl⟩ := record_outcome hrecord
  rcases saved with err | f
  · rw [hr] at hok
    cases hok
  have hunix : m.saveUnix env.now = unix := by
    obtain ⟨⟨nsec, hparse⟩, -⟩ := hdated
    rw [Manifest.saveUnix, hparse]
  have hpath : ∀ {job}, prepareSave P hkdf metaDir env.now key env.iv env.uuid m = .ok job →
      ∀ n bytes, job.candidate n bytes =
        manifestDir metaDir m.saveCloudID ++ slash :: savedName unix m.deviceID n bytes := by
    intro job hprep n bytes
    obtain ⟨-, hcloud, hdevice, hjob⟩ := prepareSave_ok.mp hprep
    rw [candidate_eq metaDir (m.saveUnix env.now) (validateCloudID_ok hcloud).2
      (validateCloudID_ok hdevice).2 job (by rw [hjob]) n bytes, hunix]
  have hfree : ∀ job, prepareSave P hkdf metaDir env.now key env.iv env.uuid m = .ok job →
      d.fs.inode job.staging = none := by
    intro job hprep
    by_contra hne
    have hstaging : job.staging = manifestDir metaDir m.saveCloudID ++
        slash :: (savedName unix m.deviceID 0 [] ++ ascii "." ++ job.uuid ++ ascii ".tmp") := by
      have hprimary : job.path = _ := hpath hprep 0 []
      unfold SaveJob.staging
      rw [hprimary]
      simp only [append_assoc, cons_append]
    obtain ⟨⟨data, time⟩, hfile⟩ : ∃ p, d.file job.staging = some p :=
      Option.ne_none_iff_exists'.mp fun hnone => hne (file_eq_none.mp hnone)
    rw [hstaging] at hfile
    obtain ⟨-, -, unix', m', -, -, n, bytes, -, -, -, hname, -⟩ := h hfile
    have hlast := getLast?_savedName unix' m'.deviceID n bytes
    rw [← hname] at hlast
    have htmp : (savedName unix m.deviceID 0 [] ++ ascii "." ++ job.uuid ++ ascii ".tmp").getLast? =
        some 0x70 := getLast?_of_suffix (suffix_append _ _) (by decide)
    rw [htmp] at hlast
    cases hlast
  obtain ⟨job, hprep, ⟨n, bytes, hf⟩, -, hnew, hothers⟩ :=
    files_saveManifestWithKey hfree hexist hsave
  rw [hpath hprep n bytes] at hf
  intro name data time hfile
  by_cases hname : name = savedName unix m.deviceID n bytes
  · rw [hname, ← hf, hnew] at hfile
    cases hfile
    refine ⟨e, mem_cons_self, unix, m, key, env, n, bytes, hop, htyped, hdated, hname, ?_⟩
    rw [SaveJob.envelope, (prepareSave_ok.mp hprep).2.2.2]
  · rw [hothers _ fun heq => hname (List.cons.inj (append_cancel_left (heq.trans hf))).2]
      at hfile
    obtain ⟨e', he', hwritten⟩ := h hfile
    exact ⟨e', mem_cons_of_mem _ he', hwritten⟩

/-- **A directory that only saves have written to** holds nothing else. -/
theorem savedDir_run {start d : Disk} (hrun : RepoRun P hkdf hook metaDir start events d)
    (hstart : ∀ name, start.file (manifestDir metaDir cloudID ++ slash :: name) = none)
    (hsaves : ∀ e ∈ events, e.SavesFor cloudID) :
    SavedDir P hkdf (manifestDir metaDir cloudID) events d := by
  induction hrun with
  | start =>
    intro name data time hfile
    rw [hstart] at hfile
    cases hfile
  | step hrun htakes ih =>
    obtain ⟨hsave, hsaves⟩ := forall_mem_cons.mp hsaves
    exact savedDir_step (ih hsaves) hsave htakes

/-- Saves succeed for valid identifiers only. -/
theorem validateCloudID_of_saves {start d : Disk}
    (hrun : RepoRun P hkdf hook metaDir start events d) (hsaves : ∀ e ∈ events, e.SavesFor cloudID)
    (hne : events ≠ []) :
    validateCloudID cloudID = .ok () := by
  cases hrun with
  | start => exact absurd rfl hne
  | step hrun htakes =>
    obtain ⟨m, key, env, unix, hop, hok, rfl, -⟩ := hsaves _ mem_cons_self
    obtain ⟨r, hrecord, hr⟩ := htakes
    rw [hop] at hrecord
    obtain ⟨saved, hsave, rfl⟩ := record_outcome hrecord
    rcases saved with err | f
    · rw [hr] at hok
      cases hok
    · exact (dirs_saveManifestWithKey (exec_of_record hsave)).1

end

end GbfCore
