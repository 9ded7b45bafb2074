import GbfCore.Lib.FileCalls

/-!
# Writing files (fileio.go, fileio_other.go, commit_noreplace_other.go)

The helpers of `fsutil` as programs over file-system calls. `exec_writeFileAtomic` says
what an atomic write leaves under the final name, whichever of its calls fail: the old
content or the new one.
-/

namespace GbfCore

open Function Prog List FileSystem

variable {data uuid : Bytes} {log : List (Sigma FsCall.Answer)}

/-- Close and remove a staging file on the way to an error. -/
def discardStaging (path : Bytes) (e : FsError) : FsProg (Except FsError Unit) := do
  let _ ← Fs.close path
  let _ ← Fs.remove path
  return .error e

/-- `WriteStagingFile`. A short write is an error like any other. -/
def writeStagingFile (path data : Bytes) : FsProg (Except FsError Unit) := do
  match ← Fs.create path with
  | .error e => return .error e
  | .ok () =>
    match ← Fs.write path data with
    | .error e => discardStaging path e
    | .ok () =>
      match ← Fs.sync path with
      | .error e => discardStaging path e
      | .ok () =>
        match ← Fs.close path with
        | .error e =>
          let _ ← Fs.remove path
          return .error e
        | .ok () => return .ok ()

/-- `syncParentDir`. -/
def syncParentDir (dir : Bytes) : FsProg (Except FsError Unit) := do
  match ← Fs.openFile dir with
  | .error e => return .error e
  | .ok () =>
    let r ← Fs.sync dir
    let _ ← Fs.close dir
    return r

/-- `CommitFileNoReplace`. -/
def commitFileNoReplace (source target : Bytes) : FsProg (Except FsError Unit) := do
  match ← Fs.link source target with
  | .error e => return .error e
  | .ok () =>
    match ← Fs.remove source with
    | .error e => return .error e
    | .ok () => syncParentDir (pathDir target)

/-- The staging file of an atomic write. -/
def tempPath (path uuid : Bytes) : Bytes := path ++ ascii "." ++ uuid ++ ascii ".tmp"

/-- `WriteFileAtomic`; `uuid` is what `uuid.NewString` returns. -/
def writeFileAtomic (uuid path data : Bytes) : FsProg (Except FsError Unit) := do
  let dir := pathDir path
  match ← Fs.mkdirAll dir with
  | .error e => return .error e
  | .ok () =>
    let tmp := tempPath path uuid
    match ← writeStagingFile tmp data with
    | .error e => return .error e
    | .ok () =>
      match ← Fs.rename tmp path with
      | .error e =>
        let _ ← Fs.remove tmp
        return .error e
      | .ok () => syncParentDir dir

/-! ## What is left under the final name -/

theorem tempPath_ne (path uuid : Bytes) : tempPath path uuid ≠ path := by
  intro heq
  have hlen := congrArg length heq
  simp only [tempPath, length_append] at hlen
  have : (ascii ".").length = 1 := rfl
  omega

/-- A call that leaves the names and the content of one file alone. -/
def Untouched (path : Bytes) (fs fs' : FileSystem) : Prop :=
  fs'.inode path = fs.inode path ∧ ∀ x, fs.inode path = some x → fs'.content x = fs.content x

theorem Untouched.refl (path : Bytes) (fs : FileSystem) : Untouched path fs fs :=
  ⟨rfl, fun _ _ => rfl⟩

theorem Untouched.trans {path : Bytes} {fs fs₁ fs₂ : FileSystem} (h : Untouched path fs fs₁)
    (h' : Untouched path fs₁ fs₂) : Untouched path fs fs₂ :=
  ⟨h'.1.trans h.1, fun x hx => (h'.2 x (h.1.trans hx)).trans (h.2 x hx)⟩

theorem Untouched.read {path : Bytes} {fs fs' : FileSystem} (h : Untouched path fs fs') :
    fs'.read path = fs.read path := by
  unfold FileSystem.read
  rw [h.1]
  cases hx : fs.inode path with
  | none => rfl
  | some x => exact congrArg some (h.2 x hx)

/-- The name of a file is not touched, and another name refers to another file. -/
structure Staged (path tmp : Bytes) (fs₀ fs : FileSystem) : Prop where
  untouched : Untouched path fs₀ fs
  apart : ∀ x, fs.inode tmp = some x → fs.inode path ≠ some x

/-- A call about the staging file. -/
def OnStaging (tmp : Bytes) : FsCall → Prop
  | .create p => p = tmp
  | .write p _ => p = tmp
  | .sync _ => True
  | .close _ => True
  | .remove p => p = tmp
  | _ => False

/-- A call that changes nothing. -/
def Quiet : FsCall → Prop
  | .openFile _ => True
  | .sync _ => True
  | .close _ => True
  | .mkdirAll _ => True
  | _ => False

section
variable {unreadable : Bytes → Prop} {path tmp : Bytes} {fs₀ fs fs' : FileSystem}

theorem Staged.create (h : Staged path tmp fs₀ fs) (hne : tmp ≠ path) :
    Staged path tmp fs₀ (fs.create tmp) := by
  have hinode : (fs.create tmp).inode path = fs.inode path := update_of_ne hne.symm _ _
  have hopened : fs.inode path ≠ some (fs.opened tmp) := by
    unfold opened
    cases htmp : fs.inode tmp with
    | none => exact fun hx => absurd (fs.inode_lt hx) (Nat.lt_irrefl _)
    | some x => exact h.apart x htmp
  constructor
  · refine h.untouched.trans ⟨hinode, ?_⟩
    intro x hx
    refine update_of_ne ?_ _ _
    rintro rfl
    exact hopened hx
  · intro x hx
    have hself : (fs.create tmp).inode tmp = some (fs.opened tmp) := update_self _ _ _
    rw [hself] at hx
    cases hx
    rw [hinode]
    exact hopened

theorem Staged.write (h : Staged path tmp fs₀ fs) {x : Nat} (hx : fs.inode tmp = some x)
    (data : Bytes) : Staged path tmp fs₀ (fs.write x data) := by
  refine ⟨h.untouched.trans ⟨rfl, ?_⟩, h.apart⟩
  intro y hy
  refine update_of_ne ?_ _ _
  rintro rfl
  exact h.apart y hx hy

theorem Staged.unlink (h : Staged path tmp fs₀ fs) (hne : tmp ≠ path) :
    Staged path tmp fs₀ (fs.unlink tmp) := by
  have hinode : (fs.unlink tmp).inode path = fs.inode path := update_of_ne hne.symm _ _
  refine ⟨h.untouched.trans ⟨hinode, fun _ _ => rfl⟩, ?_⟩
  intro x hx
  have hself : (fs.unlink tmp).inode tmp = none := update_self _ _ _
  rw [hself] at hx
  cases hx

/-- What a call about the staging file keeps. -/
theorem Staged.outcome (hne : tmp ≠ path) {c : FsCall} {r : c.Answer} (hc : OnStaging tmp c)
    (hout : c.Outcome unreadable fs r fs') (h : Staged path tmp fs₀ fs) :
    Staged path tmp fs₀ fs' := by
  cases c with
  | create p =>
    cases hc
    cases r with
    | ok _ => exact hout ▸ h.create hne
    | error _ => exact hout ▸ h
  | write p data =>
    cases hc
    obtain ⟨x, hx, hr⟩ := hout
    cases r with
    | ok _ => exact hr ▸ h.write hx data
    | error _ =>
      obtain ⟨n, rfl⟩ := hr
      exact h.write hx _
  | remove p =>
    cases hc
    cases r with
    | ok _ => exact hout ▸ h.unlink hne
    | error _ => exact hout ▸ h
  | sync _ => exact hout ▸ h
  | close _ => exact hout ▸ h
  | _ => exact hc.elim

/-- The calls of a staging file, whichever of them fails. -/
theorem staging_calls {Q : FsCall → Prop} (hcreate : Q (.create tmp)) (hwrite : Q (.write tmp data))
    (hsync : Q (.sync tmp)) (hclose : Q (.close tmp)) (hremove : Q (.remove tmp)) :
    (writeStagingFile tmp data).Calls Q := by
  have hunlink : ∀ e, (Fs.remove tmp >>= fun _ => return .error e :
      FsProg (Except FsError Unit)).Calls Q := fun _ =>
    calls_bind (sat_ask hremove) fun _ => sat_ret trivial
  have hdiscard : ∀ e, (discardStaging tmp e).Calls Q := fun e =>
    calls_bind (sat_ask hclose) fun _ => hunlink e
  refine calls_ok (sat_ask hcreate) (fun _ => trivial) fun _ => ?_
  refine calls_ok (sat_ask hwrite) hdiscard fun _ => ?_
  exact calls_ok (sat_ask hsync) hdiscard fun _ => calls_ok (sat_ask hclose) hunlink fun _ => trivial

theorem calls_writeStagingFile (tmp data : Bytes) :
    (writeStagingFile tmp data).Calls (OnStaging tmp) :=
  staging_calls rfl rfl trivial trivial rfl

theorem discardStaging_result (tmp : Bytes) (e : FsError) :
    (discardStaging tmp e).Sat (fun _ => True) fun r => r = .error e :=
  calls_bind (sat_ask trivial) fun _ => calls_bind (sat_ask trivial) fun _ => sat_ret rfl

/-- A staging file that was written holds the data. -/
theorem read_of_writeStagingFile
    (h : (writeStagingFile tmp data).Exec (FsCall.Outcome unreadable) fs (.ok ()) fs') :
    fs'.read tmp = some data := by
  unfold writeStagingFile at h
  obtain ⟨r, fs₁, -, h⟩ := exec_bind.mp h
  rcases r with e | ⟨⟩
  · exact nomatch h.1
  obtain ⟨r, fs₂, hwrite, h⟩ := exec_call h
  rcases r with e | ⟨⟩
  · exact absurd (exec_result (discardStaging_result tmp e) h) nofun
  obtain ⟨r, fs₃, hsync, h⟩ := exec_call h
  rcases r with e | ⟨⟩
  · exact absurd (exec_result (discardStaging_result tmp e) h) nofun
  obtain ⟨r, fs₄, hclose, h⟩ := exec_call h
  rcases r with e | ⟨⟩
  · obtain ⟨_, _, -, h⟩ := exec_bind.mp h
    exact nomatch h.1
  obtain ⟨-, rfl⟩ := h
  obtain ⟨x, hx, rfl⟩ := hwrite
  obtain rfl : fs₃ = fs₁.write x data := hsync
  obtain rfl : fs' = fs₁.write x data := hclose
  exact read_eq_some.mpr ⟨x, hx, update_self _ _ _⟩

theorem sync_calls {Q : FsCall → Prop} {dir : Bytes} (hopen : Q (.openFile dir))
    (hsync : Q (.sync dir)) (hclose : Q (.close dir)) : (syncParentDir dir).Calls Q := by
  refine calls_ok (sat_ask hopen) (fun _ => trivial) fun _ => ?_
  exact calls_bind (sat_ask hsync) fun _ => calls_bind (sat_ask hclose) fun _ => sat_ret trivial

theorem calls_syncParentDir (dir : Bytes) : (syncParentDir dir).Calls Quiet :=
  sync_calls trivial trivial trivial

theorem quiet_keeps {c : FsCall} {r : c.Answer} (hc : Quiet c)
    (hout : c.Outcome unreadable fs r fs') : fs' = fs := by
  cases c with
  | openFile _ => exact hout
  | sync _ => exact hout
  | close _ => exact hout
  | mkdirAll _ => exact hout
  | _ => exact hc.elim

theorem exec_quiet {α : Type} {p : FsProg α} {a : α} (hp : p.Calls Quiet)
    (h : p.Exec (FsCall.Outcome unreadable) fs a fs') : fs' = fs :=
  (exec_of_sat (fun s => s = fs) hp
    (fun _ _ _ _ hc hout hs => (quiet_keeps hc hout).trans hs) h rfl).1

/-! ## At every point -/

/-- A rename that puts a file under this name. -/
def renamesTo (path : Bytes) : Sigma FsCall.Answer → Bool
  | ⟨.rename _ target, .ok ()⟩ => decide (target = path)
  | _ => false

/-- How often a file was put under this name. -/
def renames (path : Bytes) (log : List (Sigma FsCall.Answer)) : Nat := log.countP (renamesTo path)

theorem renames_nil (path : Bytes) : renames path [] = 0 := rfl

theorem renames_append (path : Bytes) (log log' : List (Sigma FsCall.Answer)) :
    renames path (log ++ log') = renames path log + renames path log' :=
  countP_append

theorem renames_other {ev : Sigma FsCall.Answer} (h : renamesTo path ev = false)
    (log : List (Sigma FsCall.Answer)) : renames path (ev :: log) = renames path log :=
  countP_cons_of_neg (by simp [h])

theorem renames_eq_zero (h : ∀ source target r, ⟨.rename source target, r⟩ ∉ log) (path : Bytes) :
    renames path log = 0 := by
  refine countP_eq_zero.mpr fun ev hev htrue => ?_
  obtain ⟨c, r⟩ := ev
  cases c with
  | rename source target => exact h source target r hev
  | _ => exact nomatch htrue

theorem renames_onStaging (h : ∀ ev ∈ log, OnStaging tmp ev.1) : ∀ path, renames path log = 0 :=
  renames_eq_zero fun _ _ _ hev => h _ hev

theorem renames_quiet (h : ∀ ev ∈ log, Quiet ev.1) : ∀ path, renames path log = 0 :=
  renames_eq_zero fun _ _ _ hev => h _ hev

/-- What an atomic write has done, told by whether its rename was made. -/
structure Replaced (path tmp data : Bytes) (log : List (Sigma FsCall.Answer))
    (fs fs' : FileSystem) : Prop where
  old : renames path log = 0 → fs'.read path = fs.read path
  new : renames path log ≠ 0 → fs'.read path = some data ∧ fs'.read tmp = none
  once : renames path log ≤ 1
  elsewhere : ∀ g, g ≠ path → renames g log = 0
  others : ∀ g, g ≠ path → g ≠ tmp → fs'.read g = fs.read g

/-- Up to the rename nothing has changed but the staging file. -/
theorem replaced_staged (h : ∀ g, g ≠ tmp → Staged g tmp fs fs') (hne : tmp ≠ path)
    (hlog : ∀ g, renames g log = 0) : Replaced path tmp data log fs fs' :=
  ⟨fun _ => (h path hne.symm).untouched.read, fun hne => absurd (hlog path) hne,
    Nat.le_trans (Nat.le_of_eq (hlog path)) (Nat.zero_le 1), fun g _ => hlog g,
    fun g _ hg => (h g hg).untouched.read⟩

/-- The rename of a staging file that was written. -/
theorem replaced_renamed {x : Nat} (h : ∀ g, g ≠ tmp → Staged g tmp fs₀ fs) (hne : tmp ≠ path)
    (hx : fs.inode tmp = some x) (hdata : fs.read tmp = some data) (hlog : renames path log = 1)
    (hlog' : ∀ g, g ≠ path → renames g log = 0) :
    Replaced path tmp data log fs₀ (fs.rename x (fs.inode_lt hx) tmp path) := by
  refine ⟨fun hnot => absurd (hlog.symm.trans hnot) nofun, fun _ => ⟨?_, ?_⟩, Nat.le_of_eq hlog,
    hlog', fun g hg hg' => ?_⟩
  · obtain ⟨y, hy, hcontent⟩ := read_eq_some.mp hdata
    cases hx.symm.trans hy
    refine read_eq_some.mpr ⟨x, ?_, hcontent⟩
    exact (update_of_ne hne.symm _ _).trans (update_self _ _ _)
  · have hinode : (fs.rename x (fs.inode_lt hx) tmp path).inode tmp = none :=
      update_self _ _ _
    rw [FileSystem.read, hinode]
    rfl
  · rw [← (h g hg').untouched.read]
    have hinode : (fs.rename x (fs.inode_lt hx) tmp path).inode g = fs.inode g :=
      (update_of_ne hg' _ _).trans (update_of_ne hg _ _)
    unfold FileSystem.read
    rw [hinode]
    rfl

/-- The calls of an atomic write, whichever of them fails. -/
theorem atomic_calls {Q : FsCall → Prop} (hmkdir : Q (.mkdirAll (pathDir path)))
    (hstage : (writeStagingFile (tempPath path uuid) data).Calls Q)
    (hrename : Q (.rename (tempPath path uuid) path)) (hremove : Q (.remove (tempPath path uuid)))
    (hsync : (syncParentDir (pathDir path)).Calls Q) : (writeFileAtomic uuid path data).Calls Q := by
  refine calls_ok (sat_ask hmkdir) (fun _ => trivial) fun _ => ?_
  refine calls_ok hstage (fun _ => trivial) fun _ => ?_
  refine calls_ok (sat_ask hrename) (fun _ => ?_) fun _ => hsync
  exact calls_bind (sat_ask hremove) fun _ => sat_ret trivial

/-- An atomic write reads no file. -/
theorem calls_writeFileAtomic (uuid path data : Bytes) :
    (writeFileAtomic uuid path data).Calls fun c => ¬ c.ReadsFile :=
  atomic_calls id (staging_calls id id id id id) id id (sync_calls id id id)

/-- **At every point of an atomic write** the file has the old content, or the rename was made
and it has the new one. The staging name is free before. -/
theorem logged_writeFileAtomic {q : FsProg (Except FsError Unit)}
    (hfresh : fs.inode (tempPath path uuid) = none)
    (hlogged : Logged FsCall.Faulty (writeFileAtomic uuid path data) fs log q fs') :
    Replaced path (tempPath path uuid) data log fs fs' := by
  have h := logged_mono (calls_writeFileAtomic uuid path data)
    (fun hc hout => hout.outcome hc fun _ => False) hlogged
  have hne := tempPath_ne path uuid
  have hstart : ∀ g, g ≠ tempPath path uuid → Staged g (tempPath path uuid) fs fs :=
    fun g _ => ⟨.refl g fs, fun x hx => by rw [hfresh] at hx; cases hx⟩
  have hkeep : ∀ c s r s', OnStaging (tempPath path uuid) c →
      c.Outcome (fun _ => False) s r s' →
      (∀ g, g ≠ tempPath path uuid → Staged g (tempPath path uuid) fs s) →
      ∀ g, g ≠ tempPath path uuid → Staged g (tempPath path uuid) fs s' :=
    fun c s r s' hc hout hs g hg => (hs g hg).outcome hg.symm hc hout
  rcases logged_ask h with ⟨rfl, -, rfl⟩ | ⟨made, fs₁, rest, hout, rfl, hmade⟩
  · exact replaced_staged hstart hne renames_nil
  obtain rfl : fs₁ = fs := hout
  rcases made with e | ⟨⟩
  · obtain ⟨rfl, -, rfl⟩ := logged_ret hmade
    exact replaced_staged hstart hne fun _ => rfl
  rcases logged_bind hmade with ⟨c, next, hstage, -⟩ |
    ⟨staged, fs₂, log₁, log₂, rfl, hstage, hstaged⟩
  · -- cut off while the staging file is written
    obtain ⟨hinv, hlog⟩ := logged_of_calls _ (calls_writeStagingFile _ data) hkeep hstage hstart
    exact replaced_staged hinv hne fun g =>
      (renames_other rfl rest).trans (renames_onStaging hlog g)
  obtain ⟨hinv, hlog⟩ := logged_of_calls _ (calls_writeStagingFile _ data) hkeep
    (logged_of_record hstage) hstart
  have hcount : ∀ g log, renames g
      (⟨.mkdirAll (pathDir path), (.ok () : Except FsError Unit)⟩ :: (log₁ ++ log)) =
        renames g log := by
    intro g log
    rw [renames_other rfl, renames_append, renames_onStaging hlog, Nat.zero_add]
  rcases staged with e | ⟨⟩
  · obtain ⟨rfl, -, rfl⟩ := logged_ret hstaged
    exact replaced_staged hinv hne fun g => hcount g []
  rcases logged_ask hstaged with ⟨rfl, -, rfl⟩ | ⟨renamed, fs₃, rest, hout, rfl, hrenamed⟩
  · exact replaced_staged hinv hne fun g => hcount g []
  rcases renamed with e | ⟨⟩
  · -- the rename failed: the staging file goes
    obtain rfl : fs₃ = fs₂ := hout
    rcases logged_ask hrenamed with ⟨rfl, -, rfl⟩ | ⟨removed, fs₄, rest, hout, rfl, hremoved⟩
    · exact replaced_staged hinv hne fun g => (hcount g _).trans (renames_other rfl _)
    · obtain ⟨rfl, -, rfl⟩ := logged_ret hremoved
      exact replaced_staged (hkeep (.remove _) _ _ _ rfl hout hinv) hne fun g =>
        (hcount g _).trans ((renames_other rfl _).trans (renames_other rfl _))
  · obtain ⟨x, hx, rfl⟩ := hout
    obtain ⟨rfl, hsync⟩ := logged_of_calls (fun s => s = _) (calls_syncParentDir _)
      (fun c s r s' hc hout hs => (quiet_keeps hc hout).trans hs) hrenamed rfl
    refine replaced_renamed hinv hne hx (read_of_writeStagingFile (exec_of_record hstage)) ?_ ?_
    · rw [hcount, renames, countP_cons_of_pos (by simp [renamesTo])]
      exact congrArg (· + 1) (renames_quiet hsync path)
    · intro g hg
      rw [hcount, renames_other (by simp [renamesTo, hg.symm]), renames_quiet hsync]

/-- **An atomic write leaves the old content or the new one**, if its staging name is
free. -/
theorem exec_writeFileAtomic {r : Except FsError Unit}
    (hfresh : fs.inode (tempPath path uuid) = none)
    (h : (writeFileAtomic uuid path data).Exec (FsCall.Outcome unreadable) fs r fs') :
    fs'.read path = fs.read path ∨ fs'.read path = some data := by
  obtain ⟨log, hlog⟩ := exists_record h
  have hreplaced := logged_writeFileAtomic hfresh (Fs.logged_faulty hlog)
  by_cases hold : renames path log = 0
  · exact .inl (hreplaced.old hold)
  · exact .inr (hreplaced.new hold).1

/-- A write that succeeds has made its rename. -/
theorem renamed_of_ok {σ : Type} {out : σ → (c : FsCall) → c.Answer → σ → Prop} {s s' : σ}
    (h : (writeFileAtomic uuid path data).Record out s log (.ok ()) s') : renames path log ≠ 0 := by
  obtain ⟨made, s₁, rest, -, rfl, hmade⟩ := record_ask h
  rcases made with e | ⟨⟩
  · exact nomatch hmade.2.1
  obtain ⟨staged, s₂, log₁, log₂, rfl, -, hstaged⟩ := record_bind hmade
  rcases staged with e | ⟨⟩
  · exact nomatch hstaged.2.1
  obtain ⟨renamed, s₃, rest, -, rfl, hrenamed⟩ := record_ask hstaged
  rcases renamed with e | ⟨⟩
  · obtain ⟨removed, s₄, rest, -, rfl, hremoved⟩ := record_ask hrenamed
    exact nomatch hremoved.2.1
  · rw [renames_other rfl, renames_append, renames, renames,
      countP_cons_of_pos (by simp [renamesTo])]
    exact Nat.succ_ne_zero _

/-- Without errors the new content is written. -/
theorem exists_writeFileAtomic (unreadable : Bytes → Prop) (fs : FileSystem)
    (uuid path data : Bytes) :
    ∃ fs', (writeFileAtomic uuid path data).Exec (FsCall.Outcome unreadable) fs (.ok ()) fs' ∧
      fs'.read path = some data := by
  let tmp := tempPath path uuid
  let fs₁ := fs.create tmp
  have hx : fs₁.inode tmp = some (fs.opened tmp) := update_self _ _ _
  let fs₂ := fs₁.write (fs.opened tmp) data
  let fs₃ := fs₂.rename (fs.opened tmp) (fs₂.inode_lt hx) tmp path
  refine ⟨fs₃, ?_, ?_⟩
  · exact ⟨.ok (), fs, rfl, .ok (), fs₁, rfl, .ok (), fs₂, ⟨_, hx, rfl⟩, .ok (), fs₂, rfl,
      .ok (), fs₂, rfl, .ok (), fs₃, ⟨_, hx, rfl⟩, .ok (), fs₃, rfl, .ok (), fs₃, rfl,
      .ok (), fs₃, rfl, rfl, rfl⟩
  · refine read_eq_some.mpr ⟨fs.opened tmp, ?_, update_self _ _ _⟩
    refine (update_of_ne (tempPath_ne path uuid).symm _ _).trans ?_
    exact update_self _ _ _

end

end GbfCore
