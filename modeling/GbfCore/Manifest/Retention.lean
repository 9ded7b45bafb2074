import GbfCore.Manifest.Sources

/-!
# How long the trash is kept (manifest.go)

The cleaners remove what was last written more than `maxAge` ago. What was moved to the trash
has the age of its save, unless the move was a copy between two file systems: a rename keeps
the time of the last change. `trash_retention` says when nothing is removed
within `maxAge` of its move, `trash_cleaned_early` shows a manifest that is.
-/

namespace GbfCore

open Prog Option

variable {dir : Bytes} {faults : Disk.Faults} {path : Bytes} {maxAge now w : Int} {x : Nat}

/-! ## What was moved when -/

/-- A move that succeeded, with or without a copy. -/
def FsEvent.arrivesAt (path : Bytes) : FsEvent → Bool
  | ⟨.rename _ target, .ok _⟩ => decide (target = path)
  | ⟨.copy _ target, .ok _⟩ => decide (target = path)
  | _ => false

/-- Moves manifests to the trash. -/
def RepoOp.isTrash : RepoOp → Bool
  | trash _ _ _ => true
  | trashAll _ => true
  | _ => false

/-- When the file at a path was last moved to the trash. -/
def trashedAt (path : Bytes) : List RepoEvent → Option Int
  | [] => none
  | e :: events =>
    if e.op.isTrash && e.log.any (FsEvent.arrivesAt path) then some e.now else trashedAt path events

/-- The age of a cleaning. -/
def RepoOp.maxAge? : RepoOp → Option Int
  | clean maxAge _ => some maxAge
  | cleanSource _ maxAge => some maxAge
  | _ => none

/-- The path is that of a manifest. -/
def IsManifestPath (path : Bytes) : Prop :=
  ∃ dir name, path = dir ++ slash :: name ∧ slash ∉ name ∧ isManifestFile name = true

/-- A manifest that was moved to the trash not longer ago than this. -/
def Recent (events : List RepoEvent) (now maxAge : Int) (path : Bytes) : Prop :=
  IsManifestPath path ∧ ∃ t, trashedAt path events = some t ∧ now ≤ t + maxAge

/-- The file that `cleanTrashSourceRegistry` removes. -/
def RepoOp.registry? (metaDir : Bytes) : RepoOp → Option Bytes
  | cleanSource cloudID _ =>
    some (pathJoin [pathJoin [metaDir, ascii "trash", ascii "_sources"], cloudID ++ jsonZst])
  | _ => none

/-- The paths that a cleaning looks at: those below the trash, or those of the files in the
trash of one source. -/
def RepoOp.Visits (metaDir path : Bytes) : RepoOp → Prop
  | clean _ _ => Inside (pathJoin [metaDir, ascii "trash"]) path
  | cleanSource cloudID _ => ∃ e : DirEntry, pathJoin [manifestTrashDir metaDir cloudID, e.name] = path
  | _ => False

/-! ## What a cleaning removes -/

section

/-- The file is there, last written at this time. -/
def Written (path : Bytes) (x : Nat) (w : Int) (d : Disk) : Prop :=
  d.fs.inode path = some x ∧ d.modTime x = w

/-- A call of a cleaning that leaves a file alone. -/
def Spares (path : Bytes) : FsCall → Prop
  | .readDir _ => True
  | .stat _ => True
  | .remove p => p ≠ path
  | _ => False

theorem Written.outcome {d d' : Disk} {c : FsCall} {r : c.Answer} (hc : Spares path c)
    (hout : Disk.Outcome faults now d c r d') (h : Written path x w d) : Written path x w d' := by
  cases c with
  | readDir p => exact hout.readDir ▸ h
  | stat p =>
    have hfiles : d'.fs = d.fs := hout.files
    have hdates : d'.modTime = d.modTime := hout.dates
    exact ⟨hfiles ▸ h.1, hdates ▸ h.2⟩
  | remove p =>
    have hdates : d'.modTime = d.modTime := by
      rcases r with e | ⟨⟩
      · exact hout.dates
      · exact hout.dates
    refine ⟨?_, hdates ▸ h.2⟩
    rcases r with e | ⟨⟩
    · have hfiles : d'.fs = d.fs := hout.files
      exact hfiles ▸ h.1
    · have hfiles : d'.fs = d.fs.unlink p := hout.files
      rw [hfiles]
      exact (Function.update_of_ne (Ne.symm hc) _ _).trans h.1
  | _ => exact hc.elim

theorem Written.exec {α : Type} {p : FsProg α} {a : α} {d d' : Disk} (hp : p.Calls (Spares path))
    (hexec : p.Exec (Disk.Outcome faults now) d a d') (h : Written path x w d) :
    Written path x w d' :=
  (exec_of_sat (Written path x w) hp (fun _ _ _ _ hc hout hs => hs.outcome hc hout) hexec h).1

/-- The age of a file that was written recently. -/
theorem timeSub_le (hage : -2 ^ 63 ≤ maxAge) (h : now ≤ w + maxAge) : ¬ maxAge < timeSub now w := by
  unfold timeSub
  omega

/-- What is looked at is only removed if it is old. -/
theorem Written.stat {d d' : Disk} {p : Bytes} {t : Int}
    (hout : Disk.Outcome faults now d (.stat p) (.ok t) d') (h : Written path x w d)
    (hyoung : p = path → ¬ maxAge < timeSub now w) (hold : maxAge < timeSub now t) :
    p ≠ path := by
  rintro rfl
  have ht : t = d.modTime x := hout.answers.2 x h.1
  rw [ht, h.2] at hold
  exact hyoung rfl hold

/-- A path that can be listed is not a file. -/
theorem Written.readDir {d d' : Disk} {p : Bytes} {entries : List DirEntry}
    (hout : Disk.Outcome faults now d (.readDir p) (.ok entries) d') (h : Written path x w d) :
    p ≠ path := by
  rintro rfl
  have hnone := d.apart hout.answers.1
  rw [h.1] at hnone
  cases hnone

theorem written_cleanEach
    (hyoung : ∀ e : DirEntry, pathJoin [dir, e.name] = path → ¬ maxAge < timeSub now w)
    (entries : List DirEntry) : ∀ {d d' : Disk} {n : Nat},
    (cleanEach dir now maxAge entries).Exec (Disk.Outcome faults now) d n d' →
    Written path x w d → Written path x w d' := by
  induction entries with
  | nil =>
    rintro d d' n ⟨-, rfl⟩ h
    exact h
  | cons e rest ih =>
    intro d d' n hexec h
    obtain ⟨r, d₁, hstat, hexec⟩ := exec_call hexec
    have h₁ := h.outcome (c := .stat _) trivial hstat
    rcases r with err | t
    · exact ih hexec h₁
    dsimp only at hexec
    split at hexec
    · rename_i hold
      obtain ⟨_, d₂, hremove, hexec⟩ := exec_call hexec
      obtain ⟨_, d₃, hrest, hret⟩ := exec_bind.mp hexec
      obtain ⟨-, rfl⟩ := hret
      exact ih hrest (h₁.outcome (c := .remove _) (h.stat hstat (hyoung e) hold) hremove)
    · exact ih hexec h₁

section
variable {root : Bytes} (hyoung : Inside root path → ¬ maxAge < timeSub now w)
include hyoung

theorem written_cleanEntries (hdir : Inside root dir) {walk : Bytes → FsProg Nat}
    (hwalk : ∀ {p : Bytes}, Inside root p → ∀ {d d' : Disk} {n : Nat},
      (walk p).Exec (Disk.Outcome faults now) d n d' → Written path x w d → Written path x w d')
    (entries : List DirEntry) : ∀ {d d' : Disk} {n : Nat},
    (cleanEntries now maxAge walk dir entries).Exec (Disk.Outcome faults now) d n d' →
    Written path x w d → Written path x w d' := by
  induction entries with
  | nil =>
    rintro d d' n ⟨-, rfl⟩ h
    exact h
  | cons e rest ih =>
    intro d d' n hexec h
    have hchild : Inside root (pathJoin [dir, e.name]) :=
      hdir.join (names_of_notMem e.pathName e.slash)
    obtain ⟨r, d₁, hstat, hexec⟩ := exec_call hexec
    have h₁ := h.outcome (c := .stat _) trivial hstat
    rcases r with err | t
    · exact ih hexec h₁
    dsimp only at hexec
    split at hexec
    · obtain ⟨_, d₂, hsub, hexec⟩ := exec_bind.mp hexec
      obtain ⟨_, d₃, hrest, hret⟩ := exec_bind.mp hexec
      obtain ⟨-, rfl⟩ := hret
      exact ih hrest (hwalk hchild hsub h₁)
    split at hexec
    · rename_i hold
      obtain ⟨_, d₂, hremove, hexec⟩ := exec_call hexec
      obtain ⟨_, d₃, hrest, hret⟩ := exec_bind.mp hexec
      obtain ⟨-, rfl⟩ := hret
      exact ih hrest (h₁.outcome (c := .remove _) (h.stat hstat (fun heq => hyoung (heq ▸ hchild))
        hold) hremove)
    · exact ih hexec h₁

theorem written_cleanWalk (depth : Nat) : ∀ {dir : Bytes}, Inside root dir →
    ∀ {d d' : Disk} {n : Nat}, (cleanWalk now maxAge depth dir).Exec (Disk.Outcome faults now) d n d' →
    Written path x w d → Written path x w d' := by
  induction depth with
  | zero =>
    rintro dir - d d' n ⟨-, rfl⟩ h
    exact h
  | succ depth ih =>
    intro dir hdir d d' n hexec h
    obtain ⟨r, d₁, hread, hexec⟩ := exec_call hexec
    have h₁ := h.outcome (c := .readDir _) trivial hread
    rcases r with err | entries
    · exact hexec.2 ▸ h₁
    · exact written_cleanEntries hyoung hdir ih entries hexec h₁

end

end

/-- The directory of the trashed registries is not a manifest. -/
theorem ne_trashSources {path : Bytes} (h : IsManifestPath path) (metaDir : Bytes) :
    pathJoin [metaDir, ascii "trash", ascii "_sources"] ≠ path := by
  obtain ⟨dir, name, rfl, hslash, hname⟩ := h
  have hsources : PathNames (ascii "_sources") :=
    names_of_notMem ⟨by decide, by decide⟩ (by decide)
  rw [pathJoin_append metaDir names_trash hsources]
  intro heq
  have hne : name ≠ [] := fun hnil => absurd (hnil ▸ hname) (by decide)
  have hbase := congrArg pathBase heq
  rw [pathBase_below (by decide) (by decide), pathBase_below hne hslash] at hbase
  rw [← hbase] at hname
  exact absurd hname (by decide)

section
variable {d d' : Disk} {metaDir cloudID : Bytes}

theorem written_cleanTrashSourceRegistry (hman : IsManifestPath path)
    (hreg : pathJoin [pathJoin [metaDir, ascii "trash", ascii "_sources"], cloudID ++ jsonZst] ≠ path)
    (hexec : (cleanTrashSourceRegistry metaDir cloudID).Exec (Disk.Outcome faults now) d () d')
    (h : Written path x w d) : Written path x w d' := by
  refine h.exec ?_ hexec
  unfold cleanTrashSourceRegistry
  refine calls_bind (sat_ask hreg) fun _ => calls_bind (sat_ask trivial) fun remaining => ?_
  split
  · exact calls_bind (sat_ask (ne_trashSources hman metaDir)) fun _ => sat_ret trivial
  · exact sat_ret trivial

theorem written_removeEmpty
    (hexec : (removeEmptyTrashFingerprintDir metaDir dir).Exec (Disk.Outcome faults now) d () d')
    (h : Written path x w d) : Written path x w d' := by
  unfold removeEmptyTrashFingerprintDir at hexec
  dsimp only at hexec
  split at hexec
  · obtain ⟨-, rfl⟩ := hexec
    exact h
  obtain ⟨r, d₁, hread, hexec⟩ := exec_call hexec
  have h₁ := h.outcome (c := .readDir _) trivial hread
  rcases r with err | siblings
  · exact hexec.2 ▸ h₁
  dsimp only at hexec
  split at hexec
  · obtain ⟨_, d₂, hremove, hret⟩ := exec_call hexec
    obtain ⟨-, rfl⟩ := hret
    exact h₁.outcome (c := .remove _) (h.readDir hread) hremove
  · exact hexec.2 ▸ h₁

/-- **The cleaning of a source leaves a file alone that was written recently**, unless it is
taken for the registry of the source. -/
theorem written_cleanSource (hyoung : ∀ e : DirEntry,
      pathJoin [manifestTrashDir metaDir cloudID, e.name] = path → ¬ maxAge < timeSub now w)
    (hman : IsManifestPath path)
    (hreg : pathJoin [pathJoin [metaDir, ascii "trash", ascii "_sources"], cloudID ++ jsonZst] ≠ path)
    {r : Except OpError Nat}
    (hexec : (cleanTrashManifestsForSource metaDir cloudID now maxAge).Exec
      (Disk.Outcome faults now) d r d')
    (h : Written path x w d) : Written path x w d' := by
  obtain ⟨listed, d₁, hlist, hexec⟩ := exec_bind.mp hexec
  obtain ⟨raw, d₂, hraw, hfilter⟩ := exec_call hlist
  obtain rfl := hraw.readDir
  obtain ⟨rfl, rfl⟩ := hfilter
  rcases raw with err | entries
  · cases err with
    | notExist => exact hexec.2 ▸ h
    | _ => exact hexec.2 ▸ h
  -- the directory was listed, so it is not the file
  have hdir := h.readDir hraw
  obtain ⟨cleaned, d₃, heach, hexec⟩ := exec_bind.mp hexec
  have h₃ := written_cleanEach hyoung _ heach h
  obtain ⟨remaining, d₄, hread, hexec⟩ := exec_call hexec
  have h₄ := h₃.outcome (c := .readDir _) trivial hread
  split at hexec
  · obtain ⟨_, d₅, hremove, hexec⟩ := exec_call hexec
    have h₅ := h₄.outcome (c := .remove _) hdir hremove
    obtain ⟨_, d₆, hregistry, hexec⟩ := exec_bind.mp hexec
    have h₆ := written_cleanTrashSourceRegistry hman hreg hregistry h₅
    obtain ⟨_, d₇, hparent, hret⟩ := exec_bind.mp hexec
    obtain ⟨-, rfl⟩ := hret
    exact written_removeEmpty hparent h₆
  · exact hexec.2 ▸ h₄

end

/-! ## Retention -/

/-- A cleaning takes no manifest away that was moved to the trash within its age. -/
def Retained (events : List RepoEvent) (e : RepoEvent) (d d' : Disk) : Prop :=
  ∀ maxAge, e.op.maxAge? = some maxAge → ∀ path, Recent events e.now maxAge path →
    ∀ x, d.fs.inode path = some x → d'.fs.inode path = some x

/-- Of what was moved to the trash within the age of a cleaning, the files that it looks at were
also last written within it, and none is where it looks for a registry. -/
def WrittenRecently (metaDir : Bytes) (events : List RepoEvent) (e : RepoEvent) (d : Disk) : Prop :=
  ∀ maxAge, e.op.maxAge? = some maxAge → ∀ path, Recent events e.now maxAge path →
    e.op.registry? metaDir ≠ some path ∧ (e.op.Visits metaDir path →
      ∀ x, d.fs.inode path = some x → e.now ≤ d.modTime x + maxAge)

/-- **A cleaning keeps what was moved to the trash within its age**, if what it looks at of that
was also written within it, whatever happened before. Any call may fail at any time. Durations
have 64 bits. -/
theorem trash_retention (P : Primitives) (hkdf : KeyDerivation) (hook : DecryptHook)
    (metaDir : Bytes) :
    ∀ events d e d', e.Takes P hkdf hook metaDir d d' →
      (∀ maxAge ∈ e.op.maxAge?, -2 ^ 63 ≤ maxAge) →
      WrittenRecently metaDir events e d → Retained events e d d' := by
  rintro events d e d' ⟨r, hrecord, -⟩ hage hwritten maxAge hmax path hrecent x hx
  obtain ⟨hreg, htime⟩ := hwritten maxAge hmax path hrecent
  have hyoung : e.op.Visits metaDir path → ¬ maxAge < timeSub e.now (d.modTime x) :=
    fun hvisits => timeSub_le (hage maxAge hmax) (htime hvisits x hx)
  have hfile : Written path x (d.modTime x) d := ⟨hx, rfl⟩
  obtain ⟨op, now, faults, log, ok⟩ := e
  cases op with
  | clean age depth =>
    cases hmax
    obtain ⟨r', hclean, -⟩ := record_outcome hrecord
    obtain ⟨n, d₁, hwalk, hret⟩ := exec_bind.mp (exec_of_record hclean)
    obtain ⟨-, rfl⟩ := hret
    exact (written_cleanWalk hyoung depth (.refl _) hwalk hfile).1
  | cleanSource cloudID age =>
    cases hmax
    obtain ⟨r', hclean, -⟩ := record_outcome hrecord
    refine (written_cleanSource (fun e he => hyoung ⟨e, he⟩) hrecent.1 ?_ (exec_of_record hclean)
      hfile).1
    exact fun heq => hreg (congrArg some heq)
  | _ => cases hmax

/-! ## Two histories -/

/-- The trashed manifest of the sample. -/
def trashedSample : Bytes := ascii "m/trash/s/1704067200_d.json.zst"

theorem isManifestPath_trashedSample : IsManifestPath trashedSample :=
  ⟨ascii "m/trash/s", ascii "1704067200_d.json.zst", by decide, by decide, by decide⟩

/-- A manifest is saved at one time and trashed at another. -/
def trashedHistory (saved trashed : Int) : Option (List RepoEvent × Image) :=
  Image.runOps manifestPrimitives sampleHkdf none (ascii "m")
    [(.save (sampleOf (ascii "s")) [] sampleInputs, saved), (.trashAll (ascii "s"), trashed)] []
    .empty

/-- A clean of the trash of the sample. -/
def cleanSample (now maxAge : Int) (i : Image) :
    Option (Except OpError Unit × List FsEvent × Image) :=
  Image.run now (RepoOp.prog manifestPrimitives sampleHkdf none (ascii "m") now (.clean maxAge 3)) i

/-- Saved at 0, trashed at 5 and still there after the clean at 7. -/
theorem trash_retention_sample :
    ∃ (events : List RepoEvent) (d : Disk) (e : RepoEvent) (d' : Disk),
      RepoRun manifestPrimitives sampleHkdf none (ascii "m") .empty events d ∧
      e.Takes manifestPrimitives sampleHkdf none (ascii "m") d d' ∧ e.op = .clean 10 3 ∧
      Recent events e.now 10 trashedSample ∧ d'.fs.inode trashedSample = some 0 := by
  have hcompute : ((trashedHistory 0 5).any fun p =>
      decide (p.2.Valid ∧ trashedAt trashedSample p.1 = some 5 ∧
        p.2.inode trashedSample = some 0 ∧ (∀ q ∈ p.2.inodes, 7 ≤ q.2 + 10) ∧
        (cleanSample 7 10 p.2).any fun q => decide q.2.2.Valid)) = true := by
    decide +kernel
  obtain ⟨⟨events, i⟩, hops, hfacts⟩ := (any_eq_true _ _).mp hcompute
  obtain ⟨hvalid, htrashed, hinode, htimes, hclean⟩ := of_decide_eq_true hfacts
  obtain ⟨⟨r, log, i'⟩, hclean, hvalid'⟩ := (any_eq_true _ _).mp hclean
  have hvalid' := of_decide_eq_true hvalid'
  have hrun := (repoRun_empty hvalid hops).1
  have htakes := takes_run hvalid hvalid' hclean
  have hrecent : Recent events 7 10 trashedSample :=
    ⟨isManifestPath_trashedSample, 5, htrashed, by decide⟩
  refine ⟨events, _, _, _, hrun, htakes, rfl, hrecent, ?_⟩
  refine trash_retention _ _ _ _ _ _ _ _ htakes ?_ ?_ 10 rfl _ hrecent 0 hinode
  · rintro maxAge ⟨⟩
    decide
  · rintro maxAge ⟨⟩ path -
    refine ⟨nofun, fun _ x hx => ?_⟩
    have hlt : x < i.inodes.length := (i.disk hvalid).fs.inode_lt hx
    have hmem : i.inodes.getD x ([], 0) ∈ i.inodes := by
      rw [List.getD_eq_getElem _ _ hlt]
      exact List.getElem_mem hlt
    exact htimes _ hmem

/-- Saved at 0 and trashed at 100, and removed in the same moment by a clean of what is older
than 10. -/
theorem trash_cleaned_early :
    ∃ (events : List RepoEvent) (d : Disk) (e : RepoEvent) (d' : Disk),
      RepoRun manifestPrimitives sampleHkdf none (ascii "m") .empty events d ∧
      e.Takes manifestPrimitives sampleHkdf none (ascii "m") d d' ∧ e.op = .clean 10 3 ∧
      e.now = 100 ∧ trashedAt trashedSample events = some 100 ∧
      d.fs.inode trashedSample = some 0 ∧ d'.fs.inode trashedSample = none := by
  have hcompute : ((trashedHistory 0 100).any fun p =>
      decide (p.2.Valid ∧ trashedAt trashedSample p.1 = some 100 ∧
        p.2.inode trashedSample = some 0 ∧
        (cleanSample 100 10 p.2).any fun q =>
          decide (q.2.2.Valid ∧ q.2.2.inode trashedSample = none))) = true := by
    decide +kernel
  obtain ⟨⟨events, i⟩, hops, hfacts⟩ := (any_eq_true _ _).mp hcompute
  obtain ⟨hvalid, htrashed, hinode, hclean⟩ := of_decide_eq_true hfacts
  obtain ⟨⟨r, log, i'⟩, hclean, hgone⟩ := (any_eq_true _ _).mp hclean
  obtain ⟨hvalid', hgone⟩ := of_decide_eq_true hgone
  exact ⟨events, _, _, _, (repoRun_empty hvalid hops).1, takes_run hvalid hvalid' hclean, rfl, rfl,
    htrashed, hinode, hgone⟩

end GbfCore
