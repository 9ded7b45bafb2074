import GbfCore.Manifest.Commit
import GbfCore.Blob.Sample

/-!
# Saves do not replace each other

The invariant of any number of concurrent saves (`SaveInv`): each has an inode of its
own, which no name refers to but its staging name and the name it was linked under;
as long as it is written to it has no other name than the staging name. Together with
`link(2)` refusing an existing target this gives, in every run with any crashes
(`saves_safe`):

* a file under a manifest name never changes or goes;
* two saves never return the same path, and the path holds the envelope of the save;
* what a crashed save leaves behind is no manifest file, unless it was linked, and
  then it is complete.
-/

namespace GbfCore

open Function List Threads Option FileSystem

variable {e : SaveEvent} {b f : Bytes} {c : Config FileSystem Save} {job : SaveJob}

/-! ## Names -/

theorem getLast?_staging (job : SaveJob) : job.staging.getLast? = some 0x70 :=
  getLast?_of_suffix (suffix_append _ (ascii ".tmp")) (by decide)

theorem getLast?_candidate (job : SaveJob) (attempt : Nat) (random : Bytes) :
    (job.candidate attempt random).getLast? = some 0x74 := by
  unfold SaveJob.candidate
  split
  · exact getLast?_of_suffix (suffix_append job.stem jsonZst) (by decide)
  · exact getLast?_of_suffix (suffix_append _ jsonZst) (by decide)

/-- A staging file is no manifest file. -/
theorem isManifestFile_staging (job : SaveJob) : isManifestFile (pathBase job.staging) = false := by
  cases h : isManifestFile (pathBase job.staging) with
  | false => rfl
  | true =>
    have hlast := getLast?_pathBase (getLast?_staging job) (by decide)
    rcases getLast?_of_isManifestFile h with h | h <;> rw [hlast] at h <;> cases h

/-! ## What a step can do -/

/-- The content of the inode of the save, as far as it is settled. -/
def SavePc.body (envelope : Bytes) : SavePc → Option Bytes
  | .mkdir => none
  | .create => none
  | .write _ n => some (envelope.take n)
  | .cleanup _ f => f.map fun _ => envelope
  | .failed _ f => f.map fun _ => envelope
  | .crashed _ f => f.map fun _ => envelope
  | _ => some envelope

/-- The effect of a step of a save. -/
inductive SaveEffect (job : SaveJob) (envelope : Bytes) (fs : FileSystem) (pc : SavePc)
    (fs' : FileSystem) (pc' : SavePc) : Prop
  /-- no file changes, or the staging name goes -/
  | keep (hfs : fs' = fs ∨ fs' = fs.unlink job.staging) (hinode : pc'.inode = pc.inode)
      (htarget : pc'.target = pc.target)
      (hbody : ∀ b, pc'.body envelope = some b → pc.body envelope = some b)
  | create (hfs : fs' = fs.create job.staging) (hinode : pc.inode = none)
      (htarget : pc.target = none) (hpc : pc' = .write (fs.opened job.staging) 0)
  | write (x : Nat) (b : Bytes) (hfs : fs' = fs.write x b) (hinode : pc.inode = some x)
      (hinode' : pc'.inode = some x) (htarget : pc.target = none) (htarget' : pc'.target = none)
      (hbody : pc'.body envelope = some b)
  | link (x : Nat) (f : Bytes) (hfs : fs.tryLink job.staging f = .done fs')
      (hname : f.getLast? = some 0x74) (hinode : pc.inode = some x) (htarget : pc.target = none)
      (hbody : pc.body envelope = some envelope) (hpc : pc' = .unlink x f)

section
variable {P : Primitives}

theorem SaveJob.next_effect {fs fs' : FileSystem} {pc pc' : SavePc}
    (hnext : job.next P fs pc e = some (fs', pc')) :
    SaveEffect job (job.envelope P) fs pc fs' pc' := by
  cases pc with
  | mkdir =>
    cases e <;> cases hnext <;> exact .keep (.inl rfl) rfl rfl nofun
  | create =>
    cases e <;> cases hnext
    · exact .create rfl rfl rfl rfl
    · exact .keep (.inl rfl) rfl rfl nofun
    · exact .keep (.inl rfl) rfl rfl nofun
  | write x n =>
    cases e with
    | wrote k =>
      cases hnext
      by_cases hall : ((job.envelope P).take (n + k)).length = (job.envelope P).length
      · rw [if_pos hall]
        refine .write x _ rfl rfl rfl rfl rfl ?_
        rw [length_take] at hall
        exact congrArg some (take_of_length_le (by omega)).symm
      · rw [if_neg hall]
        exact .write x _ rfl rfl rfl rfl rfl rfl
    | fail =>
      cases hnext
      exact .keep (.inl rfl) rfl rfl nofun
    | crash =>
      cases hnext
      exact .keep (.inl rfl) rfl rfl nofun
    | _ => cases hnext
  | sync x =>
    cases e <;> cases hnext
    · exact .keep (.inl rfl) rfl rfl fun _ h => h
    · exact .keep (.inl rfl) rfl rfl nofun
    · exact .keep (.inl rfl) rfl rfl nofun
  | close x =>
    cases e <;> cases hnext
    · exact .keep (.inl rfl) rfl rfl fun _ h => h
    · exact .keep (.inl rfl) rfl rfl nofun
    · exact .keep (.inl rfl) rfl rfl nofun
  | link x attempt =>
    cases e with
    | link random =>
      simp only [SaveJob.next] at hnext
      split at hnext
      · cases hnext
        exact .keep (.inl rfl) rfl rfl nofun
      · split at hnext
        · rename_i fs₁ hlink
          cases hnext
          exact .link x _ hlink (getLast?_candidate job attempt random) rfl rfl rfl rfl
        · cases hnext
          exact .keep (.inl rfl) rfl rfl fun _ h => h
        · cases hnext
          exact .keep (.inl rfl) rfl rfl nofun
    | fail =>
      cases hnext
      exact .keep (.inl rfl) rfl rfl nofun
    | crash =>
      cases hnext
      exact .keep (.inl rfl) rfl rfl nofun
    | _ => cases hnext
  | unlink x f =>
    cases e <;> cases hnext
    · exact .keep (.inr rfl) rfl rfl fun _ h => h
    · exact .keep (.inl rfl) rfl rfl fun _ h => h
    · exact .keep (.inl rfl) rfl rfl fun _ h => h
  | syncParent x f =>
    cases e <;> cases hnext <;> exact .keep (.inl rfl) rfl rfl fun _ h => h
  | cleanup x f =>
    cases e <;> cases hnext
    · exact .keep (.inr rfl) rfl rfl fun _ h => h
    · exact .keep (.inl rfl) rfl rfl fun _ h => h
    · exact .keep (.inl rfl) rfl rfl fun _ h => h
  | _ => cases e <;> cases hnext

/-! ## The invariant -/

variable (P) in
/-- The saves with these jobs, standing at these points over a file system. -/
structure SaveInv (fs : FileSystem) (job : Nat → SaveJob) (pc : Nat → SavePc) : Prop where
  staging_inj : ∀ {i j}, (job i).staging = (job j).staging → i = j
  staging_own : ∀ {i x}, fs.inode (job i).staging = some x → (pc i).inode = some x
  inode_lt : ∀ {i x}, (pc i).inode = some x → x < fs.fresh
  inode_inj : ∀ {i j x}, (pc i).inode = some x → (pc j).inode = some x → i = j
  owner : ∀ {i x f}, (pc i).inode = some x → fs.inode f = some x →
    f = (job i).staging ∨ (pc i).target = some f
  target_inode : ∀ {i f}, (pc i).target = some f → ∃ x, (pc i).inode = some x ∧ fs.inode f = some x
  target_name : ∀ {i f}, (pc i).target = some f → f.getLast? = some 0x74
  body : ∀ {i x b}, (pc i).inode = some x → (pc i).body ((job i).envelope P) = some b →
    fs.content x = b

/-- A name that ends like a manifest name is not the staging name of a save. -/
theorem ne_staging (hf : f.getLast? = some 0x74) (job : SaveJob) : f ≠ job.staging := by
  rintro rfl
  rw [getLast?_staging] at hf
  cases hf

section
variable {fs fs' : FileSystem} {job : Nat → SaveJob} {pc : Nat → SavePc} {i : Nat} {pc' : SavePc}

/-- What is known of a save after a step of save `i`. -/
theorem update_pc {α : Type} (g : SavePc → Option α) {j : Nat} {a : α}
    (h : g (update pc i pc' j) = some a) :
    j = i ∧ g pc' = some a ∨ j ≠ i ∧ g (pc j) = some a := by
  by_cases hji : j = i
  · subst hji
    rw [update_self] at h
    exact .inl ⟨rfl, h⟩
  · rw [update_of_ne hji] at h
    exact .inr ⟨hji, h⟩

/-- If the step of save `i` keeps a property of its point, all saves keep it. -/
theorem update_pc_same {α : Type} (g : SavePc → Option α) (hg : g pc' = g (pc i)) (j : Nat) :
    g (update pc i pc' j) = g (pc j) := by
  by_cases hji : j = i
  · subst hji
    rw [update_self, hg]
  · rw [update_of_ne hji]

variable (hinv : SaveInv P fs job pc)
include hinv

/-- A save without an inode has not created its staging file. -/
theorem SaveInv.staging_absent (hinode : (pc i).inode = none) :
    fs.inode (job i).staging = none := by
  cases h : fs.inode (job i).staging with
  | none => rfl
  | some x =>
    have := hinv.staging_own h
    rw [hinode] at this
    cases this

/-- A step that keeps the inode and the target of its save, takes away names at
most and leaves the targets alone. -/
theorem saveInv_same (hinode : pc'.inode = (pc i).inode) (htarget : pc'.target = (pc i).target)
    (hfresh : fs'.fresh = fs.fresh) (hsub : ∀ {f x}, fs'.inode f = some x → fs.inode f = some x)
    (hkept : ∀ {f}, f.getLast? = some 0x74 → fs'.inode f = fs.inode f)
    (hbody : ∀ {j x b}, (pc j).inode = some x →
      (update pc i pc' j).body ((job j).envelope P) = some b → fs'.content x = b) :
    SaveInv P fs' job (update pc i pc') := by
  have hin := update_pc_same SavePc.inode hinode
  have htg := update_pc_same SavePc.target htarget
  constructor
  · exact hinv.staging_inj
  · intro j x hj
    rw [hin]
    exact hinv.staging_own (hsub hj)
  · intro j x hj
    rw [hin] at hj
    rw [hfresh]
    exact hinv.inode_lt hj
  · intro j k x hj hk
    rw [hin] at hj hk
    exact hinv.inode_inj hj hk
  · intro j x f hj hf
    rw [hin] at hj
    rw [htg]
    exact hinv.owner hj (hsub hf)
  · intro j f hj
    rw [htg] at hj
    rw [hin, hkept (hinv.target_name hj)]
    exact hinv.target_inode hj
  · intro j f hj
    rw [htg] at hj
    exact hinv.target_name hj
  · intro j x b hj hb
    rw [hin] at hj
    exact hbody hj hb

theorem saveInv_keep (hfs : fs' = fs ∨ fs' = fs.unlink (job i).staging)
    (hinode : pc'.inode = (pc i).inode) (htarget : pc'.target = (pc i).target)
    (hbody : ∀ b, pc'.body ((job i).envelope P) = some b →
      (pc i).body ((job i).envelope P) = some b) :
    SaveInv P fs' job (update pc i pc') := by
  have hcontent : fs'.content = fs.content := by rcases hfs with rfl | rfl <;> rfl
  refine saveInv_same hinv hinode htarget ?_ ?_ ?_ ?_
  · rcases hfs with rfl | rfl <;> rfl
  · intro f x hf
    rcases hfs with rfl | rfl
    · exact hf
    · by_cases hst : f = (job i).staging
      · subst hst
        cases (update_self ..).symm.trans hf
      · exact (update_of_ne hst ..).symm.trans hf
  · intro f hf
    rcases hfs with rfl | rfl
    · rfl
    · exact update_of_ne (ne_staging hf _) _ _
  · intro j x b hj hb
    rw [hcontent]
    refine hinv.body hj ?_
    rcases update_pc _ hb with ⟨rfl, hmine⟩ | ⟨-, hother⟩
    · exact hbody b hmine
    · exact hother

theorem saveInv_create (hinode : (pc i).inode = none) (htarget : (pc i).target = none) :
    SaveInv P (fs.create (job i).staging) job
      (update pc i (.write (fs.opened (job i).staging) 0)) := by
  -- the staging name is not in use, so the inode is new
  have hopened : fs.opened (job i).staging = fs.fresh :=
    fs.opened_of_absent (hinv.staging_absent hinode)
  have hname : ∀ {f x}, (fs.create (job i).staging).inode f = some x →
      f = (job i).staging ∧ x = fs.fresh ∨ f ≠ (job i).staging ∧ fs.inode f = some x := by
    intro f x hf
    by_cases hst : f = (job i).staging
    · subst hst
      have := (update_self ..).symm.trans hf
      rw [hopened] at this
      exact .inl ⟨rfl, (some.inj this).symm⟩
    · exact .inr ⟨hst, (update_of_ne hst ..).symm.trans hf⟩
  rw [hopened]
  have hin : ∀ {j x}, (update pc i (.write fs.fresh 0) j).inode = some x →
      j = i ∧ x = fs.fresh ∨ j ≠ i ∧ (pc j).inode = some x ∧ x < fs.fresh := by
    intro j x hj
    rcases update_pc _ hj with ⟨hji, hmine⟩ | ⟨hji, hother⟩
    · exact .inl ⟨hji, (some.inj hmine).symm⟩
    · exact .inr ⟨hji, hother, hinv.inode_lt hother⟩
  have htg : ∀ {j f}, (update pc i (.write fs.fresh 0) j).target = some f →
      j ≠ i ∧ (pc j).target = some f := by
    intro j f hj
    rcases update_pc _ hj with ⟨-, hmine⟩ | hother
    · cases hmine
    · exact hother
  constructor
  · exact hinv.staging_inj
  · intro j x hj
    rcases hname hj with ⟨hst, rfl⟩ | ⟨hst, hold⟩
    · rw [hinv.staging_inj hst, update_self]
      rfl
    · have hji : j ≠ i := by
        rintro rfl
        exact hst rfl
      rw [update_of_ne hji]
      exact hinv.staging_own hold
  · intro j x hj
    show x < fs.fresh + 1
    rcases hin hj with ⟨-, rfl⟩ | ⟨-, -, hlt⟩ <;> omega
  · intro j k x hj hk
    rcases hin hj with ⟨hji, rfl⟩ | ⟨-, hj', hlt⟩
    · rcases hin hk with ⟨hki, -⟩ | ⟨-, -, hlt⟩
      · rw [hji, hki]
      · exact absurd hlt (Nat.lt_irrefl _)
    · rcases hin hk with ⟨-, rfl⟩ | ⟨-, hk', -⟩
      · exact absurd hlt (Nat.lt_irrefl _)
      · exact hinv.inode_inj hj' hk'
  · intro j x f hj hf
    rcases hin hj with ⟨rfl, rfl⟩ | ⟨hji, hj', hlt⟩
    · rcases hname hf with ⟨hst, -⟩ | ⟨-, hold⟩
      · exact .inl hst
      · exact absurd (fs.inode_lt hold) (Nat.lt_irrefl _)
    · rcases hname hf with ⟨-, rfl⟩ | ⟨-, hold⟩
      · exact absurd hlt (Nat.lt_irrefl _)
      · rw [update_of_ne hji]
        exact hinv.owner hj' hold
  · intro j f hj
    obtain ⟨hji, hj'⟩ := htg hj
    obtain ⟨x, hx, hf⟩ := hinv.target_inode hj'
    rw [update_of_ne hji]
    exact ⟨x, hx, (update_of_ne (ne_staging (hinv.target_name hj') _) _ _).trans hf⟩
  · intro j f hj
    exact hinv.target_name (htg hj).2
  · intro j x b hj hb
    show update fs.content (fs.opened (job i).staging) [] x = b
    rw [hopened]
    rcases hin hj with ⟨rfl, rfl⟩ | ⟨hji, hj', hlt⟩
    · rw [update_self] at hb ⊢
      exact some.inj hb
    · rw [update_of_ne hji] at hb
      rw [update_of_ne (Nat.ne_of_lt hlt)]
      exact hinv.body hj' hb

theorem saveInv_write {x : Nat} (hinode : (pc i).inode = some x) (hinode' : pc'.inode = some x)
    (htarget : (pc i).target = none) (htarget' : pc'.target = none)
    (hbody : pc'.body ((job i).envelope P) = some b) :
    SaveInv P (fs.write x b) job (update pc i pc') := by
  refine saveInv_same hinv (hinode'.trans hinode.symm) (htarget'.trans htarget.symm) rfl
    (fun h => h) (fun _ => rfl) ?_
  intro j y b' hj hb'
  show update fs.content x b y = b'
  rcases update_pc _ hb' with ⟨rfl, hmine⟩ | ⟨hji, hother⟩
  · have hxy : x = y := some.inj (hinode.symm.trans hj)
    rw [← hxy, update_self]
    exact some.inj (hbody.symm.trans hmine)
  · have hxy : y ≠ x := by
      rintro rfl
      exact hji (hinv.inode_inj hj hinode)
    rw [update_of_ne hxy]
    exact hinv.body hj hother

theorem saveInv_link {x : Nat} (hfs : fs.tryLink (job i).staging f = .done fs')
    (hname : f.getLast? = some 0x74) (hinode : (pc i).inode = some x)
    (htarget : (pc i).target = none)
    (hbody : (pc i).body ((job i).envelope P) = some ((job i).envelope P)) :
    SaveInv P fs' job (update pc i (.unlink x f)) := by
  obtain ⟨habsent, y, hy, hnames, hcontent, hfresh⟩ := tryLink_done hfs
  have hyx : y = x := some.inj ((hinv.staging_own hy).symm.trans hinode)
  subst hyx
  have hin : ∀ j, (update pc i (.unlink y f) j).inode = (pc j).inode :=
    update_pc_same SavePc.inode hinode.symm
  have htg : ∀ {j g}, (update pc i (.unlink y f) j).target = some g →
      j = i ∧ g = f ∨ j ≠ i ∧ (pc j).target = some g := by
    intro j g hj
    rcases update_pc _ hj with ⟨hji, hmine⟩ | hother
    · exact .inl ⟨hji, (some.inj hmine).symm⟩
    · exact .inr hother
  have hnew : fs'.inode f = some y := by rw [hnames, update_self]
  have hother : ∀ {g}, g ≠ f → fs'.inode g = fs.inode g := by
    intro g hg
    rw [hnames, update_of_ne hg]
  constructor
  · exact hinv.staging_inj
  · intro j x hj
    rw [hother (ne_staging hname (job j)).symm] at hj
    rw [hin]
    exact hinv.staging_own hj
  · intro j x hj
    rw [hin] at hj
    rw [hfresh]
    exact hinv.inode_lt hj
  · intro j k x hj hk
    rw [hin] at hj hk
    exact hinv.inode_inj hj hk
  · intro j x g hj hg
    rw [hin] at hj
    by_cases hgf : g = f
    · -- the new name has the inode of save i, which no other save has
      subst hgf
      have hxy : y = x := some.inj (hnew.symm.trans hg)
      subst hxy
      rw [hinv.inode_inj hj hinode, update_self]
      exact .inr rfl
    · rw [hother hgf] at hg
      rcases hinv.owner hj hg with hst | hold
      · exact .inl hst
      · have hji : j ≠ i := by
          rintro rfl
          rw [htarget] at hold
          cases hold
        rw [update_of_ne hji]
        exact .inr hold
  · intro j g hj
    rcases htg hj with ⟨rfl, rfl⟩ | ⟨hji, hold⟩
    · exact ⟨y, (hin j).trans hinode, hnew⟩
    · obtain ⟨x, hx, hg⟩ := hinv.target_inode hold
      have hgf : g ≠ f := by
        rintro rfl
        rw [habsent] at hg
        cases hg
      exact ⟨x, (hin j).trans hx, (hother hgf).trans hg⟩
  · intro j g hj
    rcases htg hj with ⟨-, rfl⟩ | ⟨-, hold⟩
    · exact hname
    · exact hinv.target_name hold
  · intro j x b hj hb
    rw [hin] at hj
    rw [hcontent]
    refine hinv.body hj ?_
    rcases update_pc _ hb with ⟨rfl, hmine⟩ | ⟨-, hold⟩
    · exact hbody.trans hmine
    · exact hold

/-- **Every step of a save keeps the invariant.** -/
theorem saveInv_step (hnext : (job i).next P fs (pc i) e = some (fs', pc')) :
    SaveInv P fs' job (update pc i pc') := by
  cases SaveJob.next_effect hnext with
  | keep hfs hinode htarget hbody => exact saveInv_keep hinv hfs hinode htarget hbody
  | create hfs hinode htarget hpc =>
    subst hfs hpc
    exact saveInv_create hinv hinode htarget
  | write x b hfs hinode hinode' htarget htarget' hbody =>
    subst hfs
    exact saveInv_write hinv hinode hinode' htarget htarget' hbody
  | link x f hfs hname hinode htarget hbody hpc =>
    subst hpc
    exact saveInv_link hinv hfs hname hinode htarget hbody

/-- No step changes or removes a file under a name that is not the staging name of
its save. -/
theorem read_step (hnext : (job i).next P fs (pc i) e = some (fs', pc')) (hf : f ≠ (job i).staging)
    (hread : fs.read f = some b) :
    fs'.read f = some b := by
  obtain ⟨y, hy, hb⟩ := read_eq_some.mp hread
  refine read_eq_some.mpr ⟨y, ?_⟩
  cases SaveJob.next_effect hnext with
  | keep hfs =>
    rcases hfs with rfl | rfl
    · exact ⟨hy, hb⟩
    · exact ⟨(update_of_ne hf ..).trans hy, hb⟩
  | create hfs hinode =>
    subst hfs
    have hne : y ≠ fs.opened (job i).staging := by
      rw [fs.opened_of_absent (hinv.staging_absent hinode)]
      exact Nat.ne_of_lt (fs.inode_lt hy)
    exact ⟨(update_of_ne hf ..).trans hy, (update_of_ne hne ..).trans hb⟩
  | write x b' hfs hinode _ htarget =>
    subst hfs
    have hne : y ≠ x := by
      rintro rfl
      rcases hinv.owner hinode hy with hst | htg
      · exact hf hst
      · rw [htarget] at htg
        cases htg
    exact ⟨hy, (update_of_ne hne ..).trans hb⟩
  | link x g hfs =>
    obtain ⟨habsent, z, -, hnames, hcontent, -⟩ := tryLink_done hfs
    have hne : f ≠ g := by
      rintro rfl
      rw [habsent] at hy
      cases hy
    rw [hnames, hcontent]
    exact ⟨(update_of_ne hne ..).trans hy, hb⟩

end

/-! ## Runs -/

/-- Saves that have not begun. Each has a staging UUID of its own, and no leftover
file has the name of its staging file. -/
structure SavesStart (c : Config FileSystem Save) : Prop where
  pc : ∀ i, (c.thread i).pc = .mkdir
  uuid_dot : ∀ i, dot ∉ (c.thread i).job.uuid
  uuid_inj : ∀ {i j}, (c.thread i).job.uuid = (c.thread j).job.uuid → i = j
  unused : ∀ i, c.shared.inode (c.thread i).job.staging = none

variable (P) in
/-- A configuration that some interleaving of the saves leads to, with any failures
and crashes. -/
def SaveRun (init : Config FileSystem Save → Prop) : Config FileSystem Save → Prop :=
  Reach (Save.next P) (fun _ _ _ => True) init

variable (P) in
/-- The invariant of a configuration. -/
def SavesInv (c : Config FileSystem Save) : Prop :=
  SaveInv P c.shared (Save.job ∘ c.thread) (Save.pc ∘ c.thread)

/-- The UUID is what follows the last dot but one of a staging name. -/
theorem uuid_of_staging {job' : SaveJob} (hdot : dot ∉ job.uuid) (hdot' : dot ∉ job'.uuid)
    (h : job.staging = job'.staging) : job.uuid = job'.uuid := by
  have hcut : job.path ++ dot :: job.uuid = job'.path ++ dot :: job'.uuid := by
    have := append_cancel_right h
    rw [append_assoc, append_assoc] at this
    exact this
  rcases append_eq_append_iff.mp hcut with ⟨mid, -, hmid⟩ | ⟨mid, -, hmid⟩
  · cases mid with
    | nil => exact (cons.inj hmid).2
    | cons b mid =>
      rw [(cons.inj hmid).2] at hdot
      exact absurd (by simp) hdot
  · cases mid with
    | nil => exact (cons.inj hmid).2.symm
    | cons b mid =>
      rw [(cons.inj hmid).2] at hdot'
      exact absurd (by simp) hdot'

theorem savesInv_start (h : SavesStart c) : SavesInv P c := by
  have hpc : Save.pc ∘ c.thread = fun _ => .mkdir := funext h.pc
  unfold SavesInv
  rw [hpc]
  constructor
  · intro i j hst
    exact h.uuid_inj (uuid_of_staging (h.uuid_dot i) (h.uuid_dot j) hst)
  · intro i x hst
    rw [comp_apply, h.unused] at hst
    cases hst
  all_goals nofun

/-- A step of a configuration as one of a job. -/
theorem Save.next_eq_some {fs fs' : FileSystem} {t t' : Save} (h : t.next P fs e = some (fs', t')) :
    t'.job = t.job ∧ t.job.next P fs t.pc e = some (fs', t'.pc) := by
  obtain ⟨⟨fs₁, pc₁⟩, hnext, heq⟩ := map_eq_some_iff.mp h
  cases heq
  exact ⟨rfl, hnext⟩

theorem savesInv_step {i : Nat} {fs' : FileSystem} {t' : Save} (hinv : SavesInv P c)
    (hnext : (c.thread i).next P c.shared e = some (fs', t')) :
    SavesInv P ⟨fs', update c.thread i t'⟩ := by
  obtain ⟨hjob, hnext⟩ := Save.next_eq_some hnext
  show SaveInv P fs' (Save.job ∘ update c.thread i t')
    (Save.pc ∘ update c.thread i t')
  have hjobs : Save.job ∘ update c.thread i t' = Save.job ∘ c.thread := by
    rw [comp_update, hjob]
    exact update_eq_self i (Save.job ∘ c.thread)
  rw [hjobs, comp_update]
  exact saveInv_step hinv hnext

theorem savesInv_run {init : Config FileSystem Save → Prop} (hinit : ∀ c, init c → SavesInv P c)
    (h : SaveRun P init c) :
    SavesInv P c :=
  Reach.invariant (SavesInv P) hinit (fun hinv _ hnext => savesInv_step hinv hnext) h

/-- A file under a manifest name stays as it is, whatever the saves do. -/
theorem read_run {c' : Config FileSystem Save} (hinv : SavesInv P c) (h : SaveRun P (· = c) c')
    (hf : isManifestFile (pathBase f) = true) (hread : c.shared.read f = some b) :
    c'.shared.read f = some b := by
  refine (Reach.invariant (fun c => SavesInv P c ∧ c.shared.read f = some b) ?_ ?_ h).2
  · rintro c₁ rfl
    exact ⟨hinv, hread⟩
  · rintro c₁ i e fs' t' ⟨hinv₁, hread₁⟩ - hnext
    refine ⟨savesInv_step hinv₁ hnext, ?_⟩
    refine read_step hinv₁ (Save.next_eq_some hnext).2 ?_ hread₁
    rintro rfl
    rw [comp_apply, isManifestFile_staging] at hf
    cases hf

/-- The file a save was linked under holds its envelope. -/
theorem SavesInv.read_target (hinv : SavesInv P c) {i : Nat}
    (htarget : (c.thread i).pc.target = some f)
    (hbody : (c.thread i).pc.body ((c.thread i).job.envelope P) =
      some ((c.thread i).job.envelope P)) :
    c.shared.read f = some ((c.thread i).job.envelope P) := by
  obtain ⟨x, hx, hf⟩ := hinv.target_inode htarget
  exact read_eq_some.mpr ⟨x, hf, hinv.body hx hbody⟩

/-- **Saves do not replace each other.** Any number of saves run into one directory,
in any interleaving and with any crashes. A file under a manifest name never changes
or goes; a returned path holds the envelope of its save; no two saves return the same
path; and a file that a crashed save leaves is no manifest file, or it is the one the
save has committed and is complete. -/
theorem saves_safe {c : Config FileSystem Save} (h : SaveRun P SavesStart c) :
    (∀ c' f b, SaveRun P (· = c) c' → isManifestFile (pathBase f) = true →
      c.shared.read f = some b → c'.shared.read f = some b) ∧
    (∀ i x f, (c.thread i).pc = .returned x f →
      c.shared.read f = some ((c.thread i).job.envelope P)) ∧
    (∀ i j x y f, (c.thread i).pc = .returned x f → (c.thread j).pc = .returned y f → i = j) ∧
    (∀ i x target f, (c.thread i).pc = .crashed (some x) target → c.shared.inode f = some x →
      isManifestFile (pathBase f) = false ∨
      target = some f ∧ c.shared.read f = some ((c.thread i).job.envelope P)) := by
  have hinv : SavesInv P c := savesInv_run (fun _ => savesInv_start) h
  refine ⟨fun c' f b hrun hf hread => read_run hinv hrun hf hread, ?_, ?_, ?_⟩
  · intro i x f hpc
    exact hinv.read_target (by rw [hpc]; rfl) (by rw [hpc]; rfl)
  · intro i j x y f hi hj
    obtain ⟨x', hx', hfx⟩ := hinv.target_inode (i := i) (f := f) (by rw [comp_apply, hi]; rfl)
    obtain ⟨y', hy', hfy⟩ := hinv.target_inode (i := j) (f := f) (by rw [comp_apply, hj]; rfl)
    have hxy : x' = y' := some.inj (hfx.symm.trans hfy)
    subst hxy
    exact hinv.inode_inj hx' hy'
  · intro i x target f hpc hf
    have hx : (c.thread i).pc.inode = some x := by rw [hpc]; rfl
    rcases hinv.owner hx hf with rfl | htarget
    · exact .inl (isManifestFile_staging _)
    · have htarget' : target = some f := by
        rw [comp_apply, hpc] at htarget
        exact htarget
      subst htarget'
      exact .inr ⟨rfl, hinv.read_target htarget (by rw [hpc]; rfl)⟩

/-! ## A save on its own -/

/-- One save and any number of others, into an empty directory. -/
def loneSave (job : SaveJob) : Config FileSystem Save where
  shared := .empty
  thread i := ⟨{ job with uuid := job.uuid ++ replicate i 0x30 }, .mkdir⟩

theorem loneSave_start (hdot : dot ∉ job.uuid) : SavesStart (loneSave job) where
  pc _ := rfl
  uuid_dot i h := by
    rcases mem_append.mp h with h | h
    · exact hdot h
    · exact absurd (eq_of_mem_replicate h) (by decide)
  uuid_inj := by
    intro i j h
    simpa using congrArg length (append_cancel_left h)
  unused _ := rfl

theorem path_ne_staging (job : SaveJob) : job.path ≠ job.staging := by
  intro h
  have := congrArg length h
  rw [SaveJob.staging, length_append, length_append, length_append] at this
  have : (ascii ".").length = 1 := rfl
  omega

/-- **A save that nothing disturbs returns its primary path.** -/
theorem lone_save_returns (P : Primitives) (job : SaveJob) (hdot : dot ∉ job.uuid) :
    ∃ c, SaveRun P SavesStart c ∧ c.thread 0 = ⟨job, .returned 0 job.path⟩ := by
  have hjob : (loneSave job).thread 0 = ⟨job, .mkdir⟩ := by
    show (⟨{ job with uuid := job.uuid ++ [] }, .mkdir⟩ : Save) = _
    rw [append_nil]
  -- the lone save goes from place to place
  have go {c : Config FileSystem Save} {pc pc' : SavePc} {fs' : FileSystem} (e : SaveEvent)
      (hreach : SaveRun P SavesStart c) (ht : c.thread 0 = ⟨job, pc⟩)
      (hnext : job.next P c.shared pc e = some (fs', pc')) :
      ∃ c', SaveRun P SavesStart c' ∧ c'.thread 0 = ⟨job, pc'⟩ ∧ c'.shared = fs' := by
    have hstep : (c.thread 0).next P c.shared e = some (fs', ⟨job, pc'⟩) := by
      rw [ht, Save.next, hnext]
      rfl
    refine ⟨⟨fs', update c.thread 0 ⟨job, pc'⟩⟩, ?_, ?_, rfl⟩
    · exact .next hreach trivial (step_eq_some.mpr ⟨fs', ⟨job, pc'⟩, hstep, rfl⟩)
    · exact update_self 0 _ c.thread
  have hstart : SaveRun P SavesStart (loneSave job) := .start (loneSave_start hdot)
  obtain ⟨c₁, h₁, ht₁, hs₁⟩ := go .ok hstart hjob rfl
  obtain ⟨c₂, h₂, ht₂, hs₂⟩ := go .ok h₁ ht₁ rfl
  rw [hs₁] at hs₂ ht₂
  have hwrite : job.next P c₂.shared (.write 0 0) (.wrote (job.envelope P).length) =
      some (c₂.shared.write 0 (job.envelope P), .sync 0) := by
    show some (c₂.shared.write 0 ((job.envelope P).take (0 + _)), if _ then _ else _) = _
    rw [Nat.zero_add, take_length, if_pos rfl]
  obtain ⟨c₃, h₃, ht₃, hs₃⟩ := go (.wrote (job.envelope P).length) h₂ ht₂ hwrite
  obtain ⟨c₄, h₄, ht₄, hs₄⟩ := go .ok h₃ ht₃ rfl
  obtain ⟨c₅, h₅, ht₅, hs₅⟩ := go .ok h₄ ht₄ rfl
  have hinode : c₅.shared.inode = update (fun _ => none) job.staging (some 0) := by
    rw [hs₅, hs₄, hs₃, hs₂]
    rfl
  obtain ⟨fs₆, hlink⟩ : ∃ fs', c₅.shared.tryLink job.staging job.path = .done fs' := by
    refine exists_tryLink_done (x := 0) ?_ ?_
    · rw [hinode, update_of_ne (path_ne_staging job)]
    · rw [hinode, update_self]
  have hnext : job.next P c₅.shared (.link 0 0) (.link []) = some (fs₆, .unlink 0 job.path) := by
    have hcandidate : job.candidate 0 [] = job.path := rfl
    rw [SaveJob.next, if_neg (by decide), hcandidate, hlink]
  obtain ⟨c₆, h₆, ht₆, -⟩ := go (.link []) h₅ ht₅ hnext
  obtain ⟨c₇, h₇, ht₇, -⟩ := go .ok h₆ ht₆ rfl
  obtain ⟨c₈, h₈, ht₈, -⟩ := go .ok h₇ ht₇ rfl
  exact ⟨c₈, h₈, ht₈⟩

/-! ## Samples -/

/-- Saves of one manifest name into an empty directory. -/
def sampleSaves : Config FileSystem Save where
  shared := .empty
  thread i := ⟨⟨ascii "m/manifests/s/1_d", zstdMagic, replicate (36 + i) 0x30⟩, .mkdir⟩

theorem sampleSaves_start : SavesStart sampleSaves where
  pc _ := rfl
  uuid_dot i h := absurd (eq_of_mem_replicate h) (by decide)
  uuid_inj := by
    intro i j h
    have := congrArg length h
    simpa [sampleSaves] using this
  unused _ := rfl

/-- Two saves in turns: both stage their envelope, then the second one finds the
name taken. -/
theorem saves_safe_twoSaves :
    ∃ c, SaveRun samplePrimitives SavesStart c ∧
      (c.thread 0).pc = .returned 0 (ascii "m/manifests/s/1_d.json.zst") ∧
      (c.thread 1).pc = .returned 1 (ascii "m/manifests/s/1_d_0a0b0c.json.zst") ∧
      c.shared.read (ascii "m/manifests/s/1_d.json.zst") =
        some ((c.thread 0).job.envelope samplePrimitives) ∧
      c.shared.read (ascii "m/manifests/s/1_d_0a0b0c.json.zst") =
        some ((c.thread 1).job.envelope samplePrimitives) := by
  have hrun : run (Save.next samplePrimitives) sampleSaves
      [(0, .ok), (1, .ok), (0, .ok), (1, .ok), (0, .wrote 40), (1, .wrote 40), (0, .ok), (1, .ok),
        (0, .ok), (1, .ok), (0, .link []), (1, .link []), (1, .link [10, 11, 12]), (0, .ok),
        (1, .ok), (0, .ok), (1, .ok)] = some _ := rfl
  have hreach := run_reach (.start sampleSaves_start) hrun
  have hsafe := (saves_safe hreach).2.1
  exact ⟨_, hreach, rfl, rfl, hsafe 0 0 _ rfl, hsafe 1 1 _ rfl⟩

/-- A save that crashes after its link leaves a manifest file. -/
theorem crashed_save_leaves_manifest :
    ∃ c, SaveRun samplePrimitives SavesStart c ∧
      (c.thread 0).pc = .crashed (some 0) (some (ascii "m/manifests/s/1_d.json.zst")) ∧
      c.shared.inode (ascii "m/manifests/s/1_d.json.zst") = some 0 ∧
      isManifestFile (pathBase (ascii "m/manifests/s/1_d.json.zst")) = true := by
  have hrun : run (Save.next samplePrimitives) sampleSaves
      [(0, .ok), (0, .ok), (0, .wrote 40), (0, .ok), (0, .ok), (0, .link []), (0, .crash)] =
        some _ := rfl
  exact ⟨_, run_reach (.start sampleSaves_start) hrun, rfl, rfl, by decide⟩

end

end GbfCore
