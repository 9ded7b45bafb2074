import GbfCore.Manifest.Operations

/-!
# Saves that fail

`SaveManifestWithKey` with any pattern of success and failure of its file-system calls. Its
commit is the link of the staging file under a free name; what comes after that, the removal
of the staging name and the sync of the directory, can fail like every other call, and
the save then reports an error although the manifest is there
(`save_all_or_nothing_iff`).
-/

namespace GbfCore

open Function List Prog FileSystem

variable {envelope g name tmp : Bytes} {r : Except OpError Bytes} {attempt : Nat}
  {fs fs' : FileSystem} {job : SaveJob} {log : List FsEvent} {fs₁ : FileSystem}

/-- A call with its answer. -/
abbrev FsEvent := Sigma FsCall.Answer

namespace FsEvent

/-- A link that was asked for. -/
def isLink : FsEvent → Bool
  | ⟨.link _ _, _⟩ => true
  | _ => false

/-- A link that was made. -/
def isLinked : FsEvent → Bool
  | ⟨.link _ _, .ok _⟩ => true
  | _ => false

/-- What can fail behind the link: a removal, or the open or the sync of the directory. -/
def failure : FsEvent → Option FsError
  | ⟨.remove _, .error e⟩ => some e
  | ⟨.openFile _, .error e⟩ => some e
  | ⟨.sync _, .error e⟩ => some e
  | _ => none

end FsEvent

/-- The first link that was made: the number of links that were refused before, and
everything behind it. -/
def commitPoint : List FsEvent → Option (Nat × List FsEvent)
  | [] => none
  | ev :: rest =>
    if ev.isLinked then some (0, rest)
    else (commitPoint rest).map fun p => (if ev.isLink then p.1 + 1 else p.1, p.2)

/-- None of these calls failed. -/
def NoFailure (log : List FsEvent) : Prop := ∀ ev ∈ log, ev.failure = none

theorem commitPoint_append {log' : List FsEvent} (h : ∀ ev ∈ log, ev.isLink = false) :
    commitPoint (log ++ log') = commitPoint log' := by
  induction log with
  | nil => rfl
  | cons ev rest ih =>
    obtain ⟨hev, hrest⟩ := forall_mem_cons.mp h
    have hlinked : ev.isLinked = false := by
      obtain ⟨c, r⟩ := ev
      cases c with
      | link source target => cases hev
      | _ => rfl
    rw [cons_append, commitPoint, hlinked, if_neg (by decide), ih hrest, hev]
    exact Option.map_id' ..

theorem commitPoint_of_quiet (h : ∀ ev ∈ log, ev.isLink = false) :
    commitPoint log = none := by
  have happend : commitPoint (log ++ []) = commitPoint [] := commitPoint_append h
  rwa [append_nil] at happend

/-! ## The parts of a save -/

section
variable {unreadable : Bytes → Prop} {log : List FsEvent}

theorem not_isLink_of_onStaging {ev : FsEvent} (h : OnStaging tmp ev.1) :
    ev.isLink = false := by
  obtain ⟨c, r⟩ := ev
  cases c with
  | link source target => exact h.elim
  | _ => rfl

/-- The removal of the staging file on the way to an error. -/
theorem record_abandonSave {e : OpError}
    (h : (abandonSave job e).Record (FsCall.Outcome unreadable) fs log r fs') :
    r = .error e ∧ (∀ ev ∈ log, ev.isLink = false) ∧ (fs' = fs ∨ fs' = fs.unlink job.staging) := by
  obtain ⟨removed, fs₁, rest, hout, rfl, hret⟩ := record_ask h
  obtain ⟨rfl, rfl, rfl⟩ := hret
  refine ⟨rfl, forall_mem_singleton.mpr rfl, ?_⟩
  rcases removed with e | ⟨⟩
  · exact .inl hout
  · exact .inr hout

theorem record_syncParentDir {dir : Bytes} {r : Except FsError Unit}
    (h : (syncParentDir dir).Record (FsCall.Outcome unreadable) fs log r fs') :
    fs' = fs ∧ (∀ e, r = .error e → ∃ ev ∈ log, ev.failure = some e) ∧
      (r = .ok () → NoFailure log) := by
  obtain ⟨opened, fs₁, rest, hout, rfl, hopened⟩ := record_ask h
  obtain rfl : fs₁ = fs := hout
  rcases opened with e | ⟨⟩
  · obtain ⟨rfl, rfl, rfl⟩ := hopened
    refine ⟨rfl, fun e' he => ⟨_, mem_singleton_self _, ?_⟩, fun hok => nomatch hok⟩
    cases he
    rfl
  · obtain ⟨synced, fs₂, rest, hout, rfl, hsynced⟩ := record_ask hopened
    obtain rfl : fs₂ = fs₁ := hout
    obtain ⟨closed, fs₃, rest, hout, rfl, hclosed⟩ := record_ask hsynced
    obtain rfl : fs₃ = fs₂ := hout
    obtain ⟨rfl, rfl, rfl⟩ := hclosed
    refine ⟨rfl, fun e he => ⟨_, mem_cons_of_mem _ mem_cons_self, ?_⟩, fun hok => ?_⟩
    · subst he
      rfl
    · subst hok
      simp [NoFailure, FsEvent.failure]

/-- **One attempt to commit**: the link was refused; or it was made, and the attempt reports
the first failure behind it. -/
theorem record_commitFileNoReplace {source target : Bytes} {r : Except FsError Unit}
    (h : (commitFileNoReplace source target).Record (FsCall.Outcome unreadable) fs log r fs') :
    (∃ e, r = .error e ∧ log = [⟨.link source target, .error e⟩] ∧ fs' = fs) ∨
    ∃ fs₁ behind, fs.tryLink source target = .done fs₁ ∧
      log = ⟨.link source target, .ok ()⟩ :: behind ∧ (fs' = fs₁ ∨ fs' = fs₁.unlink source) ∧
      (∀ e, r = .error e → ∃ ev ∈ behind, ev.failure = some e) ∧ (r = .ok () → NoFailure behind) := by
  obtain ⟨linked, fs₁, rest, hout, rfl, hlinked⟩ := record_ask h
  rcases linked with e | ⟨⟩
  · obtain ⟨rfl, rfl, rfl⟩ := hlinked
    exact .inl ⟨e, rfl, rfl, hout⟩
  · refine .inr ⟨fs₁, rest, hout, rfl, ?_⟩
    obtain ⟨removed, fs₂, rest, hout, rfl, hremoved⟩ := record_ask hlinked
    rcases removed with e | ⟨⟩
    · obtain ⟨rfl, rfl, rfl⟩ := hremoved
      refine ⟨.inl hout, fun e' he => ⟨_, mem_singleton_self _, ?_⟩, fun hok => nomatch hok⟩
      cases he
      rfl
    · obtain ⟨rfl, herr, hok⟩ := record_syncParentDir hremoved
      refine ⟨.inr hout, fun e he => ?_, fun hr => ?_⟩
      · obtain ⟨ev, hev, hfail⟩ := herr e he
        exact ⟨ev, mem_cons_of_mem _ hev, hfail⟩
      · exact forall_mem_cons.mpr ⟨rfl, hok hr⟩

/-! ## The commit loop -/

/-- What the loop does to the names other than that of the staging file. -/
structure Committed (job : SaveJob) (envelope : Bytes) (fs fs' : FileSystem) (f : Bytes) : Prop where
  absent : fs.read f = none
  present : fs'.read f = some envelope
  others : ∀ g, g ≠ job.staging → g ≠ f → fs'.read g = fs.read g

/-- How a save ends: nothing was linked and it failed; or one of its names was taken, and it
failed exactly if a call behind the link did. -/
def Ended (job : SaveJob) (envelope : Bytes) (attempt : Nat) (fs fs' : FileSystem)
    (log : List FsEvent) (r : Except OpError Bytes) : Prop :=
  match commitPoint log with
  | none => r.isOk = false ∧ ∀ g, g ≠ job.staging → fs'.read g = fs.read g
  | some (refused, behind) =>
    ∃ bytes, Committed job envelope fs fs' (job.candidate (attempt + refused) bytes) ∧
      (r.isOk = true ↔ NoFailure behind)

theorem read_unlink_of_ne (h : g ≠ name) : (fs.unlink name).read g = fs.read g := by
  have hinode : (fs.unlink name).inode g = fs.inode g := update_of_ne h _ _
  unfold FileSystem.read
  rw [hinode]
  rfl

theorem read_abandoned (h : fs' = fs ∨ fs' = fs.unlink job.staging) (hg : g ≠ job.staging) :
    fs'.read g = fs.read g := by
  rcases h with rfl | rfl
  · rfl
  · exact read_unlink_of_ne hg

theorem ended_abandonSave {e : OpError}
    (h : (abandonSave job e).Record (FsCall.Outcome unreadable) fs log r fs') :
    Ended job envelope attempt fs fs' log r := by
  obtain ⟨rfl, hquiet, hfs⟩ := record_abandonSave h
  unfold Ended
  rw [commitPoint_of_quiet hquiet]
  exact ⟨rfl, fun g hg => read_abandoned hfs hg⟩

/-- A link of the staging file under a free name. -/
theorem committed_of_link {target : Bytes} (hstaged : fs.read job.staging = some envelope)
    (hne : target ≠ job.staging) (hlink : fs.tryLink job.staging target = .done fs₁)
    (hfs : ∀ g, g ≠ job.staging → fs'.read g = fs₁.read g) :
    Committed job envelope fs fs' target := by
  obtain ⟨hnone, x, hx, hinode, hcontent, -⟩ := tryLink_done hlink
  obtain ⟨y, hy, henvelope⟩ := read_eq_some.mp hstaged
  cases hx.symm.trans hy
  constructor
  · rw [FileSystem.read, hnone]
    rfl
  · rw [hfs target hne]
    refine read_eq_some.mpr ⟨x, ?_, hcontent ▸ henvelope⟩
    rw [hinode, update_self]
  · intro g hg hg'
    rw [hfs g hg, FileSystem.read, FileSystem.read, hinode, update_of_ne hg', hcontent]

/-- **The commit loop takes at most one name**, and reports an error behind the link as it does
one before it. -/
theorem ended_commitAttempts {random : Nat → Option Bytes}
    (hstaged : fs.read job.staging = some envelope) (left : Nat) : ∀ {attempt : Nat}
    {log : List FsEvent} {r : Except OpError Bytes},
    (∀ ev ∈ log, ev.failure ≠ some .exist) →
    (commitAttempts job random left attempt).Record (FsCall.Outcome unreadable) fs log r fs' →
    Ended job envelope attempt fs fs' log r := by
  induction left with
  | zero =>
    intro attempt log r _ h
    unfold commitAttempts at h
    split at h
    · exact ended_abandonSave h
    · exact ended_abandonSave h
  | succ left ih =>
    intro attempt log r hexist h
    unfold commitAttempts at h
    split at h
    · exact ended_abandonSave h
    · rename_i bytes hbytes
      obtain ⟨res, fs₁, log₁, log₂, rfl, hcommit, hrest⟩ := record_bind h
      rcases record_commitFileNoReplace hcommit with ⟨e, rfl, rfl, rfl⟩ |
        ⟨fs₂, behind, hlink, rfl, hfs, herr, hok⟩
      · -- the link was refused
        have hpoint : commitPoint ([⟨.link job.staging (job.candidate attempt bytes), .error e⟩] ++ log₂) =
            (commitPoint log₂).map fun p => (p.1 + 1, p.2) := rfl
        cases e with
        | exist =>
          have hended := ih (fun ev hev => hexist ev (mem_append_right _ hev)) hrest
          unfold Ended at hended ⊢
          rw [hpoint]
          cases hlog : commitPoint log₂ with
          | none =>
            rw [hlog] at hended
            exact hended
          | some p =>
            rw [hlog] at hended
            obtain ⟨bytes', hcommitted, hiff⟩ := hended
            rw [Nat.add_assoc, Nat.add_comm 1] at hcommitted
            exact ⟨bytes', hcommitted, hiff⟩
        | _ =>
          obtain ⟨rfl, hquiet, hfs⟩ := record_abandonSave hrest
          unfold Ended
          rw [hpoint, commitPoint_of_quiet hquiet]
          exact ⟨rfl, fun g hg => read_abandoned hfs hg⟩
      · have hne : job.candidate attempt bytes ≠ job.staging :=
          ne_staging (getLast?_candidate job attempt bytes) job
        have hfs₁ : ∀ g, g ≠ job.staging → fs₁.read g = fs₂.read g :=
          fun g hg => read_abandoned hfs hg
        have hpoint : commitPoint (⟨.link job.staging (job.candidate attempt bytes), .ok ()⟩ ::
            behind ++ log₂) = some (0, behind ++ log₂) := rfl
        unfold Ended
        rw [hpoint]
        refine ⟨bytes, ?_⟩
        cases res with
        | ok _ =>
          obtain ⟨rfl, rfl, rfl⟩ := hrest
          refine ⟨committed_of_link hstaged hne hlink hfs₁, iff_of_true rfl ?_⟩
          rw [append_nil]
          exact hok rfl
        | error e =>
          obtain ⟨ev, hev, hfail⟩ := herr e rfl
          have hmem : ev ∈ behind ++ log₂ := mem_append_left _ hev
          have hfailed : ¬ NoFailure (behind ++ log₂) := by
            intro hall
            rw [hall ev hmem] at hfail
            cases hfail
          have habandon : ∀ {e' : OpError}, (abandonSave job e').Record (FsCall.Outcome unreadable) fs₁
              log₂ r fs' → Committed job envelope fs fs' (job.candidate (attempt + 0) bytes) ∧
                (r.isOk = true ↔ NoFailure (behind ++ log₂)) := by
            intro e' hab
            obtain ⟨rfl, -, hfs'⟩ := record_abandonSave hab
            refine ⟨committed_of_link hstaged hne hlink fun g hg => ?_, iff_of_false nofun hfailed⟩
            exact (read_abandoned hfs' hg).trans (hfs₁ g hg)
          cases e with
          | exist => exact absurd hfail (hexist ev (mem_cons_of_mem _ hmem))
          | _ => exact habandon hrest

theorem Ended.of_read (h : Ended job envelope attempt fs₁ fs' log r)
    (hread : ∀ g, g ≠ job.staging → fs₁.read g = fs.read g) :
    Ended job envelope attempt fs fs' log r := by
  unfold Ended at h ⊢
  split
  · rename_i hnone
    rw [hnone] at h
    exact ⟨h.1, fun g hg => (h.2 g hg).trans (hread g hg)⟩
  · rename_i refused behind hsome
    rw [hsome] at h
    obtain ⟨bytes, hcommitted, hiff⟩ := h
    refine ⟨bytes, ⟨?_, hcommitted.present, fun g hg hg' => ?_⟩, hiff⟩
    · rw [← hread _ (ne_staging (getLast?_candidate job _ _) job)]
      exact hcommitted.absent
    · exact (hcommitted.others g hg hg').trans (hread g hg)

/-- The staging file is written under a name that was free: nothing else changes. -/
theorem read_of_staging {data : Bytes} {r : Except FsError Unit} (hfresh : fs.inode tmp = none)
    (h : (writeStagingFile tmp data).Exec (FsCall.Outcome unreadable) fs r fs') (g : Bytes)
    (hg : g ≠ tmp) : fs'.read g = fs.read g := by
  have hstart : Staged g tmp fs fs := ⟨.refl g fs, fun x hx => by rw [hfresh] at hx; cases hx⟩
  exact (exec_of_sat _ (calls_writeStagingFile tmp data)
    (fun _ _ _ _ hc hout hs => hs.outcome hg.symm hc hout) h hstart).1.untouched.read

/-- **A save takes at most one name.** -/
theorem ended_saveManifestWithKey {P : Primitives} {hkdf : KeyDerivation} {metaDir : Bytes}
    {m : Manifest} {key : Bytes} {env : SaveInputs}
    (hjob : prepareSave P hkdf metaDir env.now key env.iv env.uuid m = .ok job)
    (hfresh : fs.inode job.staging = none) (hexist : ∀ ev ∈ log, ev.failure ≠ some .exist)
    (h : (saveManifestWithKey P hkdf metaDir m key env).Record (FsCall.Outcome unreadable) fs log
      r fs') : Ended job (job.envelope P) 0 fs fs' log r := by
  unfold saveManifestWithKey at h
  rw [hjob] at h
  obtain ⟨made, fs₁, rest, hout, rfl, hmade⟩ := record_ask h
  obtain rfl : fs₁ = fs := hout
  rcases made with e | ⟨⟩
  · obtain ⟨rfl, rfl, rfl⟩ := hmade
    exact ⟨rfl, fun _ _ => rfl⟩
  dsimp only at hmade
  split at hmade
  · obtain ⟨rfl, rfl, rfl⟩ := hmade
    exact ⟨rfl, fun _ _ => rfl⟩
  obtain ⟨staged, fs₂, log₁, log₂, rfl, hstage, hloop⟩ := record_bind hmade
  have hread := read_of_staging hfresh (exec_of_record hstage)
  have hquiet : ∀ ev ∈ ⟨.mkdirAll (pathDir job.path), .ok ()⟩ :: log₁, FsEvent.isLink ev = false :=
    forall_mem_cons.mpr ⟨rfl, fun ev hev => not_isLink_of_onStaging
      (record_calls (calls_writeStagingFile _ _) hstage ev hev)⟩
  have hpoint : commitPoint (⟨.mkdirAll (pathDir job.path), .ok ()⟩ :: (log₁ ++ log₂)) =
      commitPoint log₂ := commitPoint_append hquiet
  rcases staged with e | ⟨⟩
  · obtain ⟨rfl, rfl, rfl⟩ := hloop
    unfold Ended
    rw [hpoint]
    exact ⟨rfl, hread⟩
  · have hended := ended_commitAttempts (read_of_writeStagingFile (exec_of_record hstage)) 8
      (fun ev hev => hexist ev (mem_cons_of_mem _ (mem_append_right _ hev))) hloop
    have hended := hended.of_read hread
    unfold Ended at hended ⊢
    rw [hpoint]
    exact hended

end

/-! ## The manifests of the source -/

/-- The files of a directory that pass `isManifestFile`, with their contents. -/
def manifestsIn (fs : FileSystem) (dir name : Bytes) : Option Bytes :=
  if slash ∉ name ∧ isManifestFile name then fs.read (dir ++ slash :: name) else none

/-- An error leaves the manifests of the directory as they were; a success adds one. -/
def AllOrNothing (dir : Bytes) (fs fs' : FileSystem) : Except OpError Bytes → Prop
  | .error _ => manifestsIn fs' dir = manifestsIn fs dir
  | .ok _ => ∃ name content, manifestsIn fs dir name = none ∧
      manifestsIn fs' dir = update (manifestsIn fs dir) name (some content)

/-- The name of a save of this device is a manifest name of the directory. With a suffix the
full stop behind the device is gone. -/
def NameListed (deviceID : Bytes) (attempt : Nat) : Prop :=
  slash ∉ deviceID ∧ ¬ aliveInfix <:+: deviceID ++ if attempt = 0 then [dot] else []

/-- A text without this byte does not span it. -/
theorem infix_of_append_cons {w s t : Bytes} {b : UInt8} (hb : b ∉ w) (h : w <:+: s ++ b :: t) :
    w <:+: s ∨ w <:+: t := by
  induction s with
  | nil =>
    rcases infix_cons_iff.mp h with hpre | h
    · cases w with
      | nil => exact .inl nil_infix
      | cons x w =>
        obtain ⟨rest, hrest⟩ := hpre
        exact absurd ((List.cons.inj hrest).1 ▸ mem_cons_self) hb
    · exact .inr h
  | cons x s ih =>
    rcases infix_cons_iff.mp h with hpre | h
    · rcases prefix_or_prefix_of_prefix hpre (prefix_append (x :: s) (b :: t)) with
        hin | ⟨rest, rfl⟩
      · exact .inl hin.isInfix
      · have hrest : rest <+: b :: t := (prefix_append_right_inj (x :: s)).mp hpre
        cases rest with
        | nil =>
          rw [append_nil]
          exact .inl infix_rfl
        | cons y rest =>
          obtain ⟨more, hmore⟩ := hrest
          refine absurd (mem_append_right _ ?_) hb
          exact (List.cons.inj hmore).1 ▸ mem_cons_self
    · exact (ih h).imp_left fun hs => hs.trans (suffix_cons x s).isInfix

theorem isManifestFile_suffixed {unix : Int} {deviceID : Bytes} {random : Bytes}
    (hattempt : attempt ≠ 0) :
    isManifestFile (savedName unix deviceID attempt random) = true ↔ ¬ aliveInfix <:+: deviceID := by
  have hname : savedName unix deviceID attempt random =
      namePrefix unix ++ (deviceID ++ underscore :: (hexEncode random ++ jsonZst)) := by
    rw [savedName, attemptSuffix, if_neg hattempt]
    rfl
  have hsuffix : jsonZst <:+ savedName unix deviceID attempt random :=
    ⟨namePrefix unix ++ (deviceID ++ underscore :: hexEncode random), by rw [hname]; simp⟩
  have hinfix : aliveInfix <:+: savedName unix deviceID attempt random ↔
      aliveInfix <:+: deviceID := by
    rw [hname]
    constructor
    · intro h
      have h := alive_infix_of_prefix (notMem_namePrefix (by decide) (by decide) (by decide)) h
      refine (infix_of_append_cons (by decide) h).resolve_right fun htail => ?_
      have hdot : dot ∉ hexEncode random := fun hmem =>
        absurd (mem_cons_of_mem underscore hmem)
          (notMem_attemptSuffix (by decide) (by decide) : dot ∉ attemptSuffix 1 random)
      have hend := alive_infix_of_prefix hdot htail
      exact absurd hend (by decide)
    · exact fun h => h.trans ⟨namePrefix unix, underscore :: (hexEncode random ++ jsonZst), by simp⟩
  rw [isManifestFile, show ascii ".alive." = aliveInfix from rfl, decide_eq_true hsuffix, ← hinfix]
  split
  · rename_i halive
    exact iff_of_false Bool.false_ne_true (not_not_intro halive)
  · rename_i halive
    exact iff_of_true rfl halive

theorem listed_savedName_iff {unix : Int} {deviceID : Bytes} {random : Bytes} :
    (slash ∉ savedName unix deviceID attempt random ∧
      isManifestFile (savedName unix deviceID attempt random) = true) ↔
    NameListed deviceID attempt := by
  refine and_congr (not_congr ?_) ?_
  · -- the rest of the name has no slash
    have hpre : slash ∉ namePrefix unix := notMem_namePrefix (by decide) (by decide) (by decide)
    have hsuffix : slash ∉ attemptSuffix attempt random :=
      notMem_attemptSuffix (by decide) (by decide)
    have hend : slash ∉ jsonZst := by decide
    simp [savedName, hpre, hsuffix, hend]
  · by_cases hattempt : attempt = 0
    · subst hattempt
      rw [if_pos rfl]
      refine ⟨fun h halive => ?_, isManifestFile_savedName⟩
      rw [isManifestFile_savedName_alive halive] at h
      cases h
    · rw [if_neg hattempt, append_nil]
      exact isManifestFile_suffixed hattempt

section
variable {dir : Bytes}

/-- A listed name is not that of a staging file. -/
theorem ne_staging_of_isManifestFile (h : isManifestFile name = true) :
    dir ++ slash :: name ≠ job.staging := by
  intro heq
  have hlast := getLast?_staging job
  rcases getLast?_below h dir with h | h <;> rw [heq, hlast] at h <;> cases h

theorem manifestsIn_congr
    (h : ∀ name, slash ∉ name → isManifestFile name = true →
      fs'.read (dir ++ slash :: name) = fs.read (dir ++ slash :: name)) :
    manifestsIn fs' dir = manifestsIn fs dir := by
  funext name
  unfold manifestsIn
  split
  · rename_i hlisted
    exact h name hlisted.1 hlisted.2
  · rfl

theorem manifestsIn_committed (h : Committed job envelope fs fs' (dir ++ slash :: name))
    (hlisted : slash ∉ name ∧ isManifestFile name = true) :
    manifestsIn fs dir name = none ∧
      manifestsIn fs' dir = update (manifestsIn fs dir) name (some envelope) := by
  constructor
  · rw [manifestsIn, if_pos hlisted]
    exact h.absent
  · funext g
    by_cases hg : g = name
    · subst hg
      rw [update_self, manifestsIn, if_pos hlisted]
      exact h.present
    · rw [update_of_ne hg]
      unfold manifestsIn
      split
      · rename_i hlisted'
        refine h.others _ (ne_staging_of_isManifestFile hlisted'.2) fun heq => hg ?_
        exact (List.cons.inj (append_cancel_left heq)).2
      · rfl

theorem manifestsIn_unlisted (h : Committed job envelope fs fs' (dir ++ slash :: name))
    (hlisted : ¬ (slash ∉ name ∧ isManifestFile name = true)) :
    manifestsIn fs' dir = manifestsIn fs dir := by
  refine manifestsIn_congr fun g hslash hg => ?_
  refine h.others _ (ne_staging_of_isManifestFile hg) fun heq => hlisted ?_
  rw [← (List.cons.inj (append_cancel_left heq)).2]
  exact ⟨hslash, hg⟩

/-- Once a name was taken, the save is all or nothing exactly if it reports success just for the
names that a listing shows. -/
theorem allOrNothing_committed (h : Committed job envelope fs fs' (dir ++ slash :: name)) :
    AllOrNothing dir fs fs' r ↔
      ((slash ∉ name ∧ isManifestFile name = true) ↔ r.isOk = true) := by
  by_cases hlisted : slash ∉ name ∧ isManifestFile name = true
  · obtain ⟨hnone, hupdate⟩ := manifestsIn_committed h hlisted
    rw [iff_true_left hlisted]
    cases r with
    | ok _ => exact iff_of_true ⟨name, envelope, hnone, hupdate⟩ rfl
    | error _ =>
      refine iff_of_false (fun heq => ?_) nofun
      have hname := congrFun (hupdate.symm.trans heq) name
      rw [update_self, hnone] at hname
      cases hname
  · have hsame := manifestsIn_unlisted h hlisted
    rw [iff_false_left hlisted]
    cases r with
    | ok _ =>
      refine iff_of_false ?_ (fun h => h rfl)
      rintro ⟨g, content, hnone, hupdate⟩
      have hg := congrFun (hupdate.symm.trans hsame) g
      rw [update_self, hnone] at hg
      cases hg
    | error _ => exact iff_of_true hsame nofun

end

/-- **A save is all or nothing exactly if** nothing fails behind the link and the name it
takes is a manifest name of the directory, or something fails and it is not. That the UUID is
fresh and that `unlink(2)`, opening a directory and `fsync(2)` do not report `EEXIST` is
assumed. -/
theorem save_all_or_nothing_iff {P : Primitives} {hkdf : KeyDerivation} {unreadable : Bytes → Prop}
    {metaDir : Bytes} {m : Manifest} {key : Bytes} {env : SaveInputs} {fs fs' : FileSystem}
    {log : List FsEvent} {r : Except OpError Bytes}
    (hfresh : ∀ path, fs.inode (tempPath path env.uuid) = none)
    (hexist : ∀ ev ∈ log, ev.failure ≠ some .exist)
    (h : (saveManifestWithKey P hkdf metaDir m key env).Record (FsCall.Outcome unreadable) fs log
      r fs') :
    AllOrNothing (manifestDir metaDir m.saveCloudID) fs fs' r ↔
      ∀ refused behind, commitPoint log = some (refused, behind) →
        (NameListed m.deviceID refused ↔ NoFailure behind) := by
  cases hprep : prepareSave P hkdf metaDir env.now key env.iv env.uuid m with
  | error e =>
    unfold saveManifestWithKey at h
    rw [hprep] at h
    obtain ⟨rfl, rfl, rfl⟩ := h
    exact iff_of_true rfl nofun
  | ok job =>
    obtain ⟨-, hcloud, hdevice, hjob⟩ := prepareSave_ok.mp hprep
    have hstaging : job.staging = tempPath job.path env.uuid := by
      rw [hjob]
      rfl
    have hended := ended_saveManifestWithKey hprep (by rw [hstaging]; exact hfresh _) hexist h
    unfold Ended at hended
    cases hpoint : commitPoint log with
    | none =>
      -- nothing got a final name
      rw [hpoint] at hended
      obtain ⟨herr, hread⟩ := hended
      refine iff_of_true ?_ nofun
      cases r with
      | ok _ => cases herr
      | error _ =>
        exact manifestsIn_congr fun name _ hname => hread _ (ne_staging_of_isManifestFile hname)
    | some p =>
      obtain ⟨refused, behind⟩ := p
      rw [hpoint] at hended
      obtain ⟨bytes, hcommitted, hiff⟩ := hended
      rw [candidate_eq metaDir (m.saveUnix env.now) (validateCloudID_ok hcloud).2
        (validateCloudID_ok hdevice).2 job (by rw [hjob]) (0 + refused) bytes, Nat.zero_add]
        at hcommitted
      rw [allOrNothing_committed hcommitted, listed_savedName_iff, hiff]
      constructor
      · rintro hcond refused' behind' ⟨⟩
        exact hcond
      · exact fun hcond => hcond refused behind rfl

/-! ## Two runs -/

/-- The inputs of a save of the sample. -/
def sampleInputs : SaveInputs := ⟨0, sampleIV, true, ascii "0", by decide, fun _ => none, nofun⟩

/-- The file system behind the write of a staging file. -/
def stagedSystem (fs : FileSystem) (tmp data : Bytes) : FileSystem :=
  (fs.create tmp).write (fs.opened tmp) data

theorem inode_stagedSystem (fs : FileSystem) (tmp data : Bytes) :
    (stagedSystem fs tmp data).inode tmp = some (fs.opened tmp) :=
  fs.inode_create_self tmp

theorem inode_stagedSystem_of_ne (fs : FileSystem) (data : Bytes) (h : g ≠ tmp) :
    (stagedSystem fs tmp data).inode g = fs.inode g :=
  update_of_ne h _ _

theorem read_stagedSystem (fs : FileSystem) (tmp data : Bytes) :
    (stagedSystem fs tmp data).read tmp = some data :=
  read_eq_some.mpr ⟨_, inode_stagedSystem fs tmp data, update_self _ _ _⟩

/-- The calls of a save up to its first link, where all of them succeed. -/
def stagingLog (job : SaveJob) (envelope : Bytes) : List FsEvent :=
  [⟨.mkdirAll (pathDir job.path), .ok ()⟩, ⟨.create job.staging, .ok ()⟩,
    ⟨.write job.staging envelope, .ok ()⟩, ⟨.sync job.staging, .ok ()⟩,
    ⟨.close job.staging, .ok ()⟩]

/-- A save of the sample into an empty directory, up to the link. -/
theorem record_sample {fs' : FileSystem}
    (h : (commitAttempts (sampleJob [ascii "a"]) sampleInputs.random 8 0).Record
      (FsCall.Outcome fun _ => False) (stagedSystem .empty (sampleJob [ascii "a"]).staging
        ((sampleJob [ascii "a"]).envelope manifestPrimitives)) log r fs') :
    (saveManifestWithKey manifestPrimitives sampleHkdf (ascii "m") (sampleManifest [ascii "a"]) []
      sampleInputs).Record (FsCall.Outcome fun _ => False) .empty
        (stagingLog (sampleJob [ascii "a"]) ((sampleJob [ascii "a"]).envelope manifestPrimitives) ++
          log) r fs' := by
  have hprep : prepareSave manifestPrimitives sampleHkdf (ascii "m") sampleInputs.now []
      sampleInputs.iv sampleInputs.uuid (sampleManifest [ascii "a"]) =
        .ok (sampleJob [ascii "a"]) := prepareSave_sample (by decide)
  unfold saveManifestWithKey
  rw [hprep]
  refine ⟨.ok (), _, _, rfl, rfl, ?_⟩
  refine ⟨.ok (), _, _, rfl, rfl, ?_⟩
  refine ⟨.ok (), _, _, ⟨_, inode_create_self _ _, rfl⟩, rfl, ?_⟩
  exact ⟨.ok (), _, _, rfl, rfl, .ok (), _, _, rfl, rfl, h⟩

/-- The link of the sample succeeds. -/
theorem exists_link_sample (envelope : Bytes) :
    ∃ fs', (stagedSystem .empty (sampleJob [ascii "a"]).staging envelope).tryLink
      (sampleJob [ascii "a"]).staging (sampleJob [ascii "a"]).path = .done fs' := by
  have hne := ne_staging (getLast?_candidate (sampleJob [ascii "a"]) 0 []) (sampleJob [ascii "a"])
  refine exists_tryLink_done ?_ (inode_stagedSystem _ _ _)
  exact inode_stagedSystem_of_ne .empty envelope hne

/-- Without a failure one manifest is added. -/
theorem save_all_or_nothing_sample :
    ∃ (log : List FsEvent) (fs' : FileSystem), (saveManifestWithKey manifestPrimitives sampleHkdf (ascii "m")
        (sampleManifest [ascii "a"]) [] sampleInputs).Record (FsCall.Outcome fun _ => False)
          .empty log (.ok (ascii "m/manifests/s/1704067200_d.json.zst")) fs' ∧
      (∀ ev ∈ log, ev.failure = none) ∧
      AllOrNothing (ascii "m/manifests/s") .empty fs'
        (.ok (ascii "m/manifests/s/1704067200_d.json.zst")) := by
  let job := sampleJob [ascii "a"]
  obtain ⟨fs₁, hlink⟩ := exists_link_sample (job.envelope manifestPrimitives)
  let log : List FsEvent := stagingLog job (job.envelope manifestPrimitives) ++
    [⟨.link job.staging job.path, .ok ()⟩, ⟨.remove job.staging, .ok ()⟩,
      ⟨.openFile (pathDir job.path), .ok ()⟩, ⟨.sync (pathDir job.path), .ok ()⟩,
      ⟨.close (pathDir job.path), .ok ()⟩]
  have hrecord : (saveManifestWithKey manifestPrimitives sampleHkdf (ascii "m")
      (sampleManifest [ascii "a"]) [] sampleInputs).Record (FsCall.Outcome fun _ => False) .empty
        log (.ok job.path) (fs₁.unlink job.staging) := by
    refine record_sample ⟨.ok (), _, _, hlink, rfl, .ok (), _, _, rfl, rfl, ?_⟩
    exact ⟨.ok (), _, _, rfl, rfl, .ok (), _, _, rfl, rfl, .ok (), _, _, rfl, rfl, rfl, rfl, rfl⟩
  have hfine : ∀ ev ∈ log, ev.failure = none := by
    simp [log, stagingLog, FsEvent.failure]
  have hdir : manifestDir (ascii "m") (sampleManifest [ascii "a"]).saveCloudID =
      ascii "m/manifests/s" := by decide
  refine ⟨log, fs₁.unlink job.staging, hrecord, hfine, ?_⟩
  rw [← hdir]
  refine (save_all_or_nothing_iff (fun _ => rfl) ?_ hrecord).mpr ?_
  · intro ev hev
    rw [hfine ev hev]
    nofun
  · rintro refused behind hpoint
    obtain ⟨rfl, rfl⟩ : 0 = refused ∧ _ = behind := Prod.mk.inj (Option.some.inj hpoint)
    exact iff_of_true ⟨by decide, by decide⟩ (by simp [NoFailure, FsEvent.failure])

/-- The staging file cannot be removed: the save reports an error, and the manifest is
committed. -/
theorem save_failed_committed :
    ∃ (log : List FsEvent) (fs' : FileSystem), (saveManifestWithKey manifestPrimitives sampleHkdf (ascii "m")
        (sampleManifest [ascii "a"]) [] sampleInputs).Record (FsCall.Outcome fun _ => False)
          .empty log (.error (.commit .other)) fs' ∧
      manifestsIn .empty (ascii "m/manifests/s") (ascii "1704067200_d.json.zst") = none ∧
      manifestsIn fs' (ascii "m/manifests/s") (ascii "1704067200_d.json.zst") =
        some ((sampleJob [ascii "a"]).envelope manifestPrimitives) := by
  let job := sampleJob [ascii "a"]
  obtain ⟨fs₁, hlink⟩ := exists_link_sample (job.envelope manifestPrimitives)
  refine ⟨stagingLog job (job.envelope manifestPrimitives) ++
    [⟨.link job.staging job.path, .ok ()⟩, ⟨.remove job.staging, .error .other⟩,
      ⟨.remove job.staging, .error .other⟩], fs₁, ?_, ?_, ?_⟩
  · apply record_sample
    refine ⟨.ok (), _, _, hlink, rfl, .error .other, _, _, rfl, rfl, ?_⟩
    exact ⟨.error .other, _, _, rfl, rfl, rfl, rfl, rfl⟩
  · rw [manifestsIn]
    split <;> rfl
  · have hcommitted : Committed job (job.envelope manifestPrimitives) _ fs₁ job.path :=
      committed_of_link (read_stagedSystem _ _ _) (ne_staging (getLast?_candidate job 0 []) job) hlink fun _ _ => rfl
    rw [manifestsIn, if_pos ⟨by decide, by decide⟩]
    exact hcommitted.present

end GbfCore
