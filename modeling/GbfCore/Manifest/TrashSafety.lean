import GbfCore.Lib.Values
import GbfCore.Manifest.Sources

/-!
# Nothing is lost in the trash

The live directory and the trash directory of a source together hold what was saved for it,
each manifest as often as it was saved, as long as nothing is trashed under a name that is
taken in the trash already (`trashing_loses_nothing`): the move into the trash replaces what is
there. `trashing_replaces` shows a snapshot that is lost.
-/

namespace GbfCore

open Function List Prog Option FileSystem Image

variable {data dir name : Bytes} {r : Except OpError Unit} {now : Int} {d d' : Disk}

/-! ## Moving a file -/

/-- A file was moved, and nothing else was touched. -/
structure Moved (source target data : Bytes) (fs fs' : FileSystem) : Prop where
  there : fs.read source = some data
  gone : fs'.read source = none
  arrived : fs'.read target = some data
  others : ∀ g, g ≠ source → g ≠ target → fs'.read g = fs.read g

section
variable {fs : FileSystem} {source target : Bytes}

theorem moved_rename {x : Nat} (hx : fs.inode source = some x) (hne : source ≠ target) :
    Moved source target (fs.content x) fs (fs.rename x (fs.inode_lt hx) source target) where
  there := read_eq_some.mpr ⟨x, hx, rfl⟩
  gone := read_eq_none.mpr (update_self _ _ _)
  arrived := by
    refine read_eq_some.mpr ⟨x, ?_, rfl⟩
    exact (update_of_ne hne.symm _ _).trans (update_self _ _ _)
  others g hg hg' := by
    have hinode : (fs.rename x (fs.inode_lt hx) source target).inode g = fs.inode g :=
      (update_of_ne hg _ _).trans (update_of_ne hg' _ _)
    unfold FileSystem.read
    rw [hinode]
    rfl

/-- A name that is free has its inode for itself. -/
theorem inode_ne_opened (hfree : fs.inode target = none) (g : Bytes) :
    fs.inode g ≠ some (fs.opened target) := by
  rw [fs.opened_of_absent hfree]
  exact fun h => Nat.lt_irrefl _ (fs.inode_lt h)

/-- Opening a file and writing to it changes no file with another inode. -/
theorem read_written_of_ne (data : Bytes) {g : Bytes} (hg : g ≠ target)
    (hother : fs.inode g ≠ some (fs.opened target)) :
    ((fs.create target).write (fs.opened target) data).read g = fs.read g := by
  have hinode : ((fs.create target).write (fs.opened target) data).inode g = fs.inode g :=
    update_of_ne hg _ _
  unfold FileSystem.read
  rw [hinode]
  cases hy : fs.inode g with
  | none => rfl
  | some y =>
    have hne : y ≠ fs.opened target := fun heq => hother (hy.trans (congrArg some heq))
    exact congrArg some ((update_of_ne hne _ _).trans (update_of_ne hne _ _))

theorem read_create_of_ne {g : Bytes} (hg : g ≠ target)
    (hother : fs.inode g ≠ some (fs.opened target)) : (fs.create target).read g = fs.read g := by
  have hsame : (fs.create target).write (fs.opened target) [] = fs.create target :=
    FileSystem.ext rfl (update_idem _ _ _) rfl
  rw [← hsame]
  exact read_written_of_ne [] hg hother

theorem read_written_self (data : Bytes) :
    ((fs.create target).write (fs.opened target) data).read target = some data :=
  read_eq_some.mpr ⟨_, fs.inode_create_self target, update_self _ _ _⟩

/-- A copy to a free name, of which the source is then removed. -/
theorem moved_copy (hread : (fs.create target).read source = some data) (hne : source ≠ target)
    (hfree : fs.inode target = none) :
    Moved source target data fs
      (((fs.create target).write (fs.opened target) data).unlink source) where
  there := (read_create_of_ne hne (inode_ne_opened hfree _)).symm.trans hread
  gone := read_eq_none.mpr (update_self _ _ _)
  arrived := (read_unlink_of_ne hne.symm).trans (read_written_self data)
  others g hg hg' :=
    (read_unlink_of_ne hg).trans (read_written_of_ne data hg' (inode_ne_opened hfree g))

end

section

/-- **A move without faults** moves the file, or it fails and leaves the files alone. -/
theorem moved_renameWithFallback {source target : Bytes} {r : Except FsError Unit}
    (h : (renameWithFallback source target).Exec (Disk.Outcome .none now) d r d')
    (hne : source ≠ target) (hfree : d.fs.inode source ≠ none → d.fs.inode target = none) :
    (r = .ok () ∧ ∃ data, Moved source target data d.fs d'.fs) ∨ r.isOk = false ∧ d'.fs = d.fs := by
  rcases (exec_renameWithFallback h).files with hsame | ⟨rfl, ⟨x, hx, hfs⟩ | ⟨data, hread, hfs⟩⟩
  · exact .inr hsame
  · exact .inl ⟨rfl, _, hfs ▸ moved_rename hx hne⟩
  · have hinode : (d.fs.create target).inode source = d.fs.inode source :=
      update_of_ne hne _ _
    obtain ⟨y, hy, -⟩ := read_eq_some.mp hread
    have hsome : d.fs.inode source ≠ none := fun hnone =>
      some_ne_none _ (hy.symm.trans (hinode.trans hnone))
    exact .inl ⟨rfl, data, hfs ▸ moved_copy hread hne (hfree hsome)⟩

/-! ## Moving a manifest with its checksum -/

/-- No checksum files: the manifests of this version have none. -/
def NoSidecars (fs : FileSystem) : Prop := ∀ p, ascii ".sha256" <:+ p → fs.read p = none

theorem NoSidecars.moved {fs fs' : FileSystem} {source target : Bytes} (h : NoSidecars fs)
    (hmoved : Moved source target data fs fs') (htarget : ¬ ascii ".sha256" <:+ target) :
    NoSidecars fs' := by
  intro p hp
  by_cases hsource : p = source
  · exact hsource ▸ hmoved.gone
  · rw [hmoved.others p hsource fun heq => htarget (heq ▸ hp)]
    exact h p hp

theorem exec_moveOne {source dstDir target : Bytes}
    (h : (moveOrDeleteOneManifest source (some dstDir)).Exec (Disk.Outcome .none now) d r d')
    (htarget : pathJoin [dstDir, pathBase source] = target) (hne : source ≠ target)
    (hfree : d.fs.inode source ≠ none → d.fs.inode target = none) (hside : NoSidecars d.fs)
    (hname : ¬ ascii ".sha256" <:+ target) :
    (∃ data, Moved source target data d.fs d'.fs) ∨ d'.fs = d.fs := by
  obtain ⟨moved, d₁, hmove, h⟩ := exec_bind.mp h
  rw [htarget] at hmove
  rcases moved_renameWithFallback hmove hne hfree with ⟨rfl, data, hmoved⟩ | ⟨herr, hfs⟩
  · -- there is no checksum to be moved
    left
    refine ⟨data, ?_⟩
    have hside₁ := hside.moved hmoved hname
    obtain ⟨found, d₂, hout, h⟩ := exec_call h
    have hfs₂ : d₂.fs = d₁.fs := hout.files
    rcases found with e | t
    · obtain ⟨-, rfl⟩ := h
      rw [hfs₂]
      exact hmoved
    · obtain ⟨_, d₃, hsidecar, h⟩ := exec_bind.mp h
      obtain ⟨-, rfl⟩ := h
      have hnone : d₂.fs.inode (manifestChecksumPath source) = none := by
        rw [hfs₂]
        exact read_eq_none.mp (hside₁ _ (suffix_append _ _))
      have hne' : manifestChecksumPath source ≠ manifestChecksumPath (pathJoin [dstDir, pathBase source]) := by
        rw [htarget]
        exact fun heq => hne (append_cancel_right heq)
      rcases moved_renameWithFallback hsidecar hne' fun hsome => absurd hnone hsome with
        ⟨-, data', hmoved'⟩ | ⟨-, hfs₃⟩
      · have hthere := hmoved'.there
        rw [read_eq_none.mpr hnone] at hthere
        cases hthere
      · rw [hfs₃, hfs₂]
        exact hmoved
  · rcases moved with e | ⟨⟩
    · obtain ⟨-, rfl⟩ := h
      exact .inr hfs
    · cases herr

end

/-! ## The manifests of two directories -/

/-- Two paths with a name at their end. -/
theorem below_inj {a b name' : Bytes} (hname : slash ∉ name) (hname' : slash ∉ name')
    (h : a ++ slash :: name = b ++ slash :: name') : a = b ∧ name = name' := by
  have hcut := congrArg (fun p => (p.reverse.dropWhile (· != slash)).reverse) h
  rw [dropWhile_reverse_append hname, dropWhile_reverse_append hname'] at hcut
  have hab := append_cancel_right hcut
  subst hab
  exact ⟨rfl, (List.cons.inj (append_cancel_left h)).2⟩

theorem not_sidecar_of_isManifestFile (h : isManifestFile name = true) :
    ¬ ascii ".sha256" <:+ dir ++ slash :: name := by
  intro hsuffix
  have hlast := getLast?_of_suffix hsuffix (by decide)
  rcases getLast?_below h dir with h | h <;> rw [hlast] at h <;> cases h

theorem finite_manifestsIn (d : Disk) (dir : Bytes) :
    {name | manifestsIn d.fs dir name ≠ none}.Finite := by
  refine (d.finite_children dir).subset fun name hname => .inl fun hnone => hname ?_
  rw [manifestsIn, read_eq_none.mpr hnone, ite_self]

/-- Manifests were moved from one directory to another, and no other was touched. -/
structure Shifted (src dst : Bytes) (d d' : Disk) : Prop where
  sidecars : NoSidecars d'.fs
  sum : values (manifestsIn d'.fs src) + values (manifestsIn d'.fs dst) =
    values (manifestsIn d.fs src) + values (manifestsIn d.fs dst)
  others : ∀ dir, dir ≠ src → dir ≠ dst → manifestsIn d'.fs dir = manifestsIn d.fs dir

section
variable {src dst : Bytes} {d'' : Disk}

theorem Shifted.of_fs (h : NoSidecars d.fs) (hfs : d'.fs = d.fs) : Shifted src dst d d' := by
  refine ⟨?_, ?_, fun dir _ _ => ?_⟩ <;> rw [hfs]
  exact h

theorem Shifted.trans (h : Shifted src dst d d') (h' : Shifted src dst d' d'') :
    Shifted src dst d d'' :=
  ⟨h'.sidecars, h'.sum.trans h.sum, fun dir hsrc hdst =>
    (h'.others dir hsrc hdst).trans (h.others dir hsrc hdst)⟩

/-- What a move does to the manifests of a directory. -/
theorem manifestsIn_moved {fs fs' : FileSystem}
    (h : Moved (src ++ slash :: name) (dst ++ slash :: name) data fs fs') (hslash : slash ∉ name)
    (hname : isManifestFile name = true) (hne : src ≠ dst) :
    manifestsIn fs' dir =
      if dir = src then update (manifestsIn fs dir) name none
      else if dir = dst then update (manifestsIn fs dir) name (some data)
      else manifestsIn fs dir := by
  have hother : ∀ {g}, slash ∉ g → (dir = src ∨ dir = dst → g ≠ name) →
      fs'.read (dir ++ slash :: g) = fs.read (dir ++ slash :: g) := by
    intro g hg hdiff
    refine h.others _ (fun heq => ?_) fun heq => ?_
    · obtain ⟨hdir, hgname⟩ := below_inj hg hslash heq
      exact hdiff (.inl hdir) hgname
    · obtain ⟨hdir, hgname⟩ := below_inj hg hslash heq
      exact hdiff (.inr hdir) hgname
  have hat : ∀ {v}, fs'.read (dir ++ slash :: name) = v →
      manifestsIn fs' dir = update (manifestsIn fs dir) name v := by
    intro v hv
    funext g
    by_cases hg : g = name
    · subst hg
      rw [update_self, manifestsIn, if_pos ⟨hslash, hname⟩, hv]
    · rw [update_of_ne hg]
      unfold manifestsIn
      split
      · rename_i hlisted
        exact hother hlisted.1 fun _ => hg
      · rfl
  split
  · rename_i hdir
    subst hdir
    exact hat h.gone
  split
  · rename_i hdir
    subst hdir
    exact hat h.arrived
  · rename_i hsrc hdst
    refine manifestsIn_congr fun g hg _ => hother hg ?_
    rintro (hdir | hdir)
    · exact absurd hdir hsrc
    · exact absurd hdir hdst

/-- **A move keeps the sum.** -/
theorem shifted_of_moved (hside : NoSidecars d.fs)
    (h : Moved (src ++ slash :: name) (dst ++ slash :: name) data d.fs d'.fs)
    (hslash : slash ∉ name) (hname : isManifestFile name = true) (hne : src ≠ dst)
    (hfree : manifestsIn d.fs dst name = none) : Shifted src dst d d' := by
  have hthere : manifestsIn d.fs src name = some data := by
    rw [manifestsIn, if_pos ⟨hslash, hname⟩, h.there]
  refine ⟨hside.moved h (not_sidecar_of_isManifestFile hname), ?_, fun dir hsrc hdst => ?_⟩
  · rw [manifestsIn_moved h hslash hname hne, manifestsIn_moved h hslash hname hne, if_pos rfl,
      if_neg hne.symm, if_pos rfl, values_add (finite_manifestsIn d dst) hfree,
      ← values_erase (finite_manifestsIn d src) hthere]
    exact (add_left_comm _ _ _).trans (add_assoc _ _ _).symm
  · rw [manifestsIn_moved h hslash hname hne, if_neg hsrc, if_neg hdst]

/-- No name is taken in both. -/
def NamesApart (src dst : Bytes) (d : Disk) : Prop :=
  ∀ name, manifestsIn d.fs src name ≠ none → manifestsIn d.fs dst name = none

theorem NamesApart.moved (h : NamesApart src dst d)
    (hmoved : Moved (src ++ slash :: name) (dst ++ slash :: name) data d.fs d'.fs)
    (hslash : slash ∉ name) (hname : isManifestFile name = true) (hne : src ≠ dst) :
    NamesApart src dst d' := by
  intro g hg
  rw [manifestsIn_moved hmoved hslash hname hne, if_pos rfl] at hg
  rw [manifestsIn_moved hmoved hslash hname hne, if_neg hne.symm, if_pos rfl]
  have hgne : g ≠ name := by
    rintro rfl
    exact hg (update_self _ _ _)
  rw [update_of_ne hgne] at hg ⊢
  exact h g hg

/-- One manifest of a source is trashed. -/
theorem shifted_moveOne {e : DirEntry} (hsrc : CleanDir src) (hdst : CleanDir dst) (hne : src ≠ dst)
    (hname : isManifestFile e.name = true) (hside : NoSidecars d.fs)
    (hfree : manifestsIn d.fs src e.name ≠ none → manifestsIn d.fs dst e.name = none)
    (h : (moveOrDeleteOneManifest (pathJoin [src, e.name]) (some dst)).Exec
      (Disk.Outcome .none now) d r d') :
    Shifted src dst d d' ∧ (NamesApart src dst d → NamesApart src dst d') := by
  have hnames := names_of_notMem e.pathName e.slash
  rw [hsrc.join hnames] at h
  have htarget : pathJoin [dst, pathBase (src ++ slash :: e.name)] = dst ++ slash :: e.name := by
    rw [pathBase_below e.pathName.ne_nil e.slash, hdst.join hnames]
  have hpaths : src ++ slash :: e.name ≠ dst ++ slash :: e.name :=
    fun heq => hne (append_cancel_right heq)
  have hread : ∀ dir, manifestsIn d.fs dir e.name = d.fs.read (dir ++ slash :: e.name) :=
    fun dir => if_pos ⟨e.slash, hname⟩
  have hinode : d.fs.inode (src ++ slash :: e.name) ≠ none →
      d.fs.inode (dst ++ slash :: e.name) = none := by
    intro hsome
    refine read_eq_none.mp ((hread dst).symm.trans (hfree ?_))
    rw [hread src]
    exact fun hnone => hsome (read_eq_none.mp hnone)
  rcases exec_moveOne h htarget hpaths hinode hside (not_sidecar_of_isManifestFile hname) with
    ⟨data, hmoved⟩ | hfs
  · have hthere : manifestsIn d.fs src e.name ≠ none := by
      rw [hread src, hmoved.there]
      nofun
    exact ⟨shifted_of_moved hside hmoved e.slash hname hne (hfree hthere),
      fun happart => happart.moved hmoved e.slash hname hne⟩
  · refine ⟨.of_fs hside hfs, fun happart => ?_⟩
    unfold NamesApart
    rw [hfs]
    exact happart

/-- **The loop of a trashing keeps the sum.** -/
theorem shifted_moveEach (hsrc : CleanDir src) (hdst : CleanDir dst) (hne : src ≠ dst)
    (entries : List DirEntry) : ∀ {d : Disk} {n : Nat},
    (∀ e ∈ entries, isManifestFile e.name = true) → NoSidecars d.fs → NamesApart src dst d →
    (moveOrDeleteEach src (some dst) entries).Exec (Disk.Outcome .none now) d n d' →
    Shifted src dst d d' := by
  induction entries with
  | nil =>
    rintro d n - hside - ⟨-, rfl⟩
    exact .of_fs hside rfl
  | cons e rest ih =>
    intro d n hnames hside happart h
    obtain ⟨hname, hrest⟩ := forall_mem_cons.mp hnames
    obtain ⟨_, d₁, hone, h⟩ := exec_bind.mp h
    obtain ⟨_, d₂, hloop, h⟩ := exec_bind.mp h
    obtain ⟨-, rfl⟩ := h
    obtain ⟨hshift, hapart⟩ := shifted_moveOne hsrc hdst hne hname hside (happart e.name) hone
    exact hshift.trans (ih hrest hshift.sidecars (hapart happart) hloop)

/-- The removal of a directory touches no file. -/
theorem unlink_of_none {fs : FileSystem} {path : Bytes} (h : fs.inode path = none) :
    fs.unlink path = fs := by
  refine FileSystem.ext ?_ rfl rfl
  show update fs.inode path none = fs.inode
  rw [← h, update_eq_self]

theorem shifted_moveAll (hsrc : CleanDir src) (hdst : CleanDir dst) (hne : src ≠ dst)
    {entries : List DirEntry} {n : Nat} (hnames : ∀ e ∈ entries, isManifestFile e.name = true)
    (hside : NoSidecars d.fs) (happart : NamesApart src dst d) (hdir : d.isDir src)
    (h : (moveOrDeleteAll src (some dst) entries).Exec (Disk.Outcome .none now) d n d') :
    Shifted src dst d d' := by
  obtain ⟨count, d₁, heach, h⟩ := exec_bind.mp h
  have hshift := shifted_moveEach hsrc hdst hne entries hnames hside happart heach
  have hdir₁ := grows_moveEach entries heach src hdir
  obtain ⟨remaining, d₂, hout, hrest⟩ := exec_call h
  obtain rfl := hout.readDir
  split at hrest
  · obtain ⟨removed, d₃, hremove, hret⟩ := exec_call hrest
    obtain ⟨-, rfl⟩ := hret
    refine hshift.trans (.of_fs hshift.sidecars ?_)
    have hfiles := hremove.files
    rcases removed with e | ⟨⟩
    · exact hfiles
    · exact Eq.trans hfiles (unlink_of_none (d₂.apart hdir₁))
  · obtain ⟨-, rfl⟩ := hrest
    exact hshift

end

/-! ## The operations -/

section
variable {P : Primitives} {hkdf : KeyDerivation} {hook : DecryptHook} {metaDir cloudID : Bytes}

theorem cleanDir_manifestDir (hcloud : PathNames cloudID) :
    CleanDir (manifestDir metaDir cloudID) := by
  rw [manifestDir_append metaDir hcloud]
  exact (cleanDir_manifestsRoot metaDir).below hcloud

theorem cleanDir_manifestTrashDir (hcloud : PathNames cloudID) :
    CleanDir (manifestTrashDir metaDir cloudID) := by
  rw [manifestTrashDir_append metaDir hcloud]
  exact (cleanDir_trashRoot metaDir).below hcloud

theorem shifted_trashAll {r : Except OpError Nat}
    (hcloud : PathNames cloudID) (hside : NoSidecars d.fs)
    (happart : NamesApart (manifestDir metaDir cloudID) (manifestTrashDir metaDir cloudID) d)
    (h : (trashAllSourceManifests metaDir cloudID).Exec (Disk.Outcome .none now) d r d') :
    Shifted (manifestDir metaDir cloudID) (manifestTrashDir metaDir cloudID) d d' := by
  obtain ⟨files, d₁, hlist, h⟩ := exec_bind.mp h
  obtain ⟨rfl, -, hentries⟩ := exec_readManifestFiles hlist
  rcases files with e | entries
  · have hsame : d' = d₁ := by
      cases e with
      | notExist => exact h.2
      | _ => exact h.2
    exact .of_fs hside (by rw [hsame])
  obtain ⟨hdir, hnames⟩ := hentries entries rfl
  obtain ⟨made, d₂, hmkdir, h⟩ := exec_call h
  have hfs : d₂.fs = d₁.fs := hmkdir.files
  rcases made with e | ⟨⟩
  · obtain ⟨-, rfl⟩ := h
    exact .of_fs hside hfs
  obtain ⟨_, d₃, hmove, h⟩ := exec_bind.mp h
  obtain ⟨-, rfl⟩ := h
  have hdir₂ : d₂.isDir (manifestDir metaDir cloudID) := by
    rw [hmkdir.dirs]
    exact .inl hdir
  have hshift := shifted_moveAll (cleanDir_manifestDir hcloud) (cleanDir_manifestTrashDir hcloud)
    (manifestTrashDir_ne hcloud hcloud).symm hnames (hfs ▸ hside)
    (by unfold NamesApart; rw [hfs]; exact happart) hdir₂ hmove
  exact Shifted.trans (.of_fs hside hfs) hshift

/-- The manifest that is found has been loaded. -/
theorem exec_forEachManifest {σ : Type} {fn : σ → Manifest → Bytes → σ × Bool} (Inv : σ → Prop)
    (entries : List DirEntry) :
    ∀ {s : σ} {d : Disk} {r : σ × List (Bytes × LoadError)},
    (∀ s m, ∀ e ∈ entries, loadManifest P hook d.fs (pathJoin [dir, e.name]) = .ok m → Inv s →
      Inv (fn s m e.name).1) →
    (forEachManifest P hook dir fn entries s).Exec (Disk.Outcome .none now) d r d' → Inv s →
    d' = d ∧ Inv r.1 := by
  induction entries with
  | nil =>
    rintro s d r - ⟨rfl, rfl⟩ hs
    exact ⟨rfl, hs⟩
  | cons e rest ih =>
    intro s d r hkeep h hs
    obtain ⟨hhead, hrest⟩ : _ ∧ ∀ s m, ∀ e ∈ rest, _ → Inv s → Inv (fn s m e.name).1 :=
      ⟨fun s m => hkeep s m e mem_cons_self,
        fun s m e he => hkeep s m e (mem_cons_of_mem _ he)⟩
    obtain ⟨loaded, d₁, hload, h⟩ := exec_bind.mp h
    obtain ⟨hres, rfl⟩ := exec_loadManifest_disk hload
    rcases loaded with err | m
    · obtain ⟨r', d₂, hloop, h⟩ := exec_bind.mp h
      obtain ⟨rfl, rfl⟩ := h
      exact ih (r := r') hrest hloop hs
    dsimp only at h
    have hnext := hhead s m hres.symm hs
    split at h
    · obtain ⟨rfl, rfl⟩ := h
      exact ⟨rfl, hnext⟩
    · exact ih hrest h hnext

/-- The snapshots that a call of `TrashManifest` may find have a free name in the trash. -/
def RoomFor (P : Primitives) (hook : DecryptHook) (metaDir cloudID timestamp deviceID : Bytes)
    (d : Disk) : Prop :=
  ∀ name m, manifestsIn d.fs (manifestDir metaDir cloudID) name ≠ none →
    loadManifest P hook d.fs (manifestDir metaDir cloudID ++ slash :: name) = .ok m →
    m.timestamp = timestamp → m.deviceID = deviceID →
    manifestsIn d.fs (manifestTrashDir metaDir cloudID) name = none

theorem shifted_trash {timestamp deviceID : Bytes}
    (hcloud : PathNames cloudID) (hside : NoSidecars d.fs)
    (hroom : RoomFor P hook metaDir cloudID timestamp deviceID d)
    (h : (trashManifest P hook metaDir cloudID timestamp deviceID).Exec (Disk.Outcome .none now) d
      r d') :
    Shifted (manifestDir metaDir cloudID) (manifestTrashDir metaDir cloudID) d d' := by
  obtain ⟨files, d₁, hlist, h⟩ := exec_bind.mp h
  obtain ⟨rfl, -, hentries⟩ := exec_readManifestFiles hlist
  rcases files with e | entries
  · exact .of_fs hside (by rw [h.2])
  obtain ⟨-, hnames⟩ := hentries entries rfl
  obtain ⟨found, d₂, hloop, hafter⟩ := exec_bind.mp h
  let Found (s : Option Bytes) : Prop := ∀ name, s = some name → ∃ e ∈ entries, e.name = name ∧
    ∃ m, loadManifest P hook d₁.fs (pathJoin [manifestDir metaDir cloudID, name]) = .ok m ∧
      m.timestamp = timestamp ∧ m.deviceID = deviceID
  obtain ⟨rfl, hfound⟩ := exec_forEachManifest Found entries (by
    intro s m e he hload hs
    split
    · rename_i hmatch
      rintro name ⟨⟩
      exact ⟨e, he, rfl, m, hload, hmatch.1, hmatch.2⟩
    · exact hs) hloop (fun _ hnone => absurd hnone.symm (some_ne_none _))
  split at hafter
  · exact .of_fs hside (by rw [hafter.2])
  rename_i name hname
  obtain ⟨e, he, rfl, m, hload, htime, hdevice⟩ := hfound name hname
  obtain ⟨made, d₃, hmkdir, hmove⟩ := exec_call hafter
  have hfs : d₃.fs = d₂.fs := hmkdir.files
  rcases made with err | ⟨⟩
  · obtain ⟨-, rfl⟩ := hmove
    exact .of_fs hside hfs
  have hclean : CleanDir (manifestDir metaDir cloudID) := cleanDir_manifestDir hcloud
  rw [hclean.join (names_of_notMem e.pathName e.slash)] at hload
  have hshift := (shifted_moveOne hclean (cleanDir_manifestTrashDir hcloud)
    (manifestTrashDir_ne hcloud hcloud).symm (hnames e he) (hfs ▸ hside)
    (by rw [hfs]; exact fun hlive => hroom e.name m hlive hload htime hdevice) hmove).1
  exact Shifted.trans (.of_fs hside hfs) hshift

/-- Without faults only a link reports that something exists. -/
theorem failure_ne_exist {c : FsCall} {r : c.Answer} (h : Disk.Outcome .none now d c r d') :
    FsEvent.failure ⟨c, r⟩ ≠ some .exist := by
  cases c with
  | remove path =>
    rcases r with e | ⟨⟩
    · rcases h.answers with hio | ⟨rfl, -⟩ | ⟨rfl, -⟩
      · exact hio.elim
      · nofun
      · nofun
    · nofun
  | openFile path =>
    rcases r with e | ⟨⟩
    · rcases h.answers with hio | ⟨rfl, -⟩
      · exact hio.elim
      · nofun
    · nofun
  | sync path =>
    rcases r with e | ⟨⟩
    · exact (h.answers.resolve_left nofun).elim
    · nofun
  | _ => nofun

/-- **A save adds one manifest to its source**, and touches no other. -/
theorem added_save {m : Manifest} {key : Bytes} {env : SaveInputs} {log : List FsEvent} {f : Bytes}
    (hside : NoSidecars d.fs) (hfresh : ∀ path, d.fs.inode (tempPath path env.uuid) = none)
    (hslash : slash ∉ m.deviceID) (halive : ¬ aliveInfix <:+: m.deviceID ++ [dot])
    (h : (saveManifestWithKey P hkdf metaDir m key env).Record (Disk.Outcome .none now) d log
      (.ok f) d') :
    ∃ job name, prepareSave P hkdf metaDir env.now key env.iv env.uuid m = .ok job ∧
      NoSidecars d'.fs ∧ manifestsIn d.fs (manifestDir metaDir m.saveCloudID) name = none ∧
      manifestsIn d'.fs (manifestDir metaDir m.saveCloudID) =
        update (manifestsIn d.fs (manifestDir metaDir m.saveCloudID)) name
          (some (job.envelope P)) ∧
      ∀ dir, dir ≠ manifestDir metaDir m.saveCloudID →
        manifestsIn d'.fs dir = manifestsIn d.fs dir := by
  cases hprep : prepareSave P hkdf metaDir env.now key env.iv env.uuid m with
  | error e =>
    unfold saveManifestWithKey at h
    rw [hprep] at h
    exact nomatch h.2.1
  | ok job =>
    obtain ⟨-, hcloud, hdevice, hjob⟩ := prepareSave_ok.mp hprep
    have hstaging : job.staging = tempPath job.path env.uuid := by
      rw [hjob]
      rfl
    have hended := ended_saveManifestWithKey hprep (by rw [hstaging]; exact hfresh _)
      (record_forall failure_ne_exist h) (Disk.record_files h)
    unfold Ended at hended
    split at hended
    · exact nomatch hended.1
    rename_i refused behind hpoint
    obtain ⟨bytes, hcommitted, -⟩ := hended
    have hlast := getLast?_candidate job (0 + refused) bytes
    have hside' : NoSidecars d'.fs := by
      intro p hp
      have hpLast := getLast?_of_suffix hp (by decide)
      rw [hcommitted.others p ?_ ?_]
      · exact hside p hp
      · rintro rfl
        rw [getLast?_staging] at hpLast
        cases hpLast
      · rintro rfl
        rw [hlast] at hpLast
        cases hpLast
    rw [candidate_eq metaDir (m.saveUnix env.now) (validateCloudID_ok hcloud).2
      (validateCloudID_ok hdevice).2 job (by rw [hjob]) (0 + refused) bytes] at hcommitted
    have hnamed : NameListed m.deviceID (0 + refused) := by
      refine ⟨hslash, fun hinfix => halive ?_⟩
      split at hinfix
      · exact hinfix
      · rw [append_nil] at hinfix
        exact hinfix.trans (prefix_append _ _).isInfix
    obtain ⟨hnone, hupdate⟩ := manifestsIn_committed hcommitted (listed_savedName_iff.mpr hnamed)
    refine ⟨job, _, rfl, hside', hnone, hupdate, fun dir hdir => ?_⟩
    refine manifestsIn_congr fun g hg hname => ?_
    refine hcommitted.others _ (ne_staging_of_isManifestFile hname) fun heq => hdir ?_
    exact (below_inj hg (listed_savedName_iff.mpr hnamed).1 heq).1

end

/-! ## Whole runs -/

section
variable (P : Primitives) (hkdf : KeyDerivation) (hook : DecryptHook) (metaDir : Bytes)

/-- What the live directory and the trash directory of a source hold together. -/
noncomputable def held (d : Disk) (cloudID : Bytes) : Multiset Bytes :=
  values (manifestsIn d.fs (manifestDir metaDir cloudID)) +
    values (manifestsIn d.fs (manifestTrashDir metaDir cloudID))

/-- What a save writes for a source. -/
def RepoEvent.saved (cloudID : Bytes) (e : RepoEvent) : Option Bytes :=
  match e.op with
  | .save m key env =>
    if m.saveCloudID = cloudID then
      (prepareSave P hkdf metaDir env.now key env.iv env.uuid m).toOption.map (SaveJob.envelope P)
    else none
  | _ => none

/-- The manifests that were saved for a source. -/
def savedFor (cloudID : Bytes) (events : List RepoEvent) : Multiset Bytes :=
  events.filterMap (RepoEvent.saved P hkdf metaDir cloudID)

/-- A save with a fresh UUID, or a trashing. -/
def RepoOp.SavesOrTrashes (d : Disk) : RepoOp → Prop
  | save _ _ env => ∀ path, d.fs.inode (tempPath path env.uuid) = none
  | trash cloudID _ _ => validateCloudID cloudID = .ok ()
  | trashAll cloudID => validateCloudID cloudID = .ok ()
  | clean _ _ => False
  | cleanSource _ _ => False

/-- The name of a save is a manifest name of the live directory; what is trashed has a free
name in the trash. -/
def RepoOp.HasRoom (d : Disk) : RepoOp → Prop
  | save m _ _ => slash ∉ m.deviceID ∧ ¬ aliveInfix <:+: m.deviceID ++ [dot]
  | trash cloudID timestamp deviceID => RoomFor P hook metaDir cloudID timestamp deviceID d
  | trashAll cloudID => NamesApart (manifestDir metaDir cloudID) (manifestTrashDir metaDir cloudID) d
  | _ => True

/-- A run of saves and trashings that succeed without I/O errors and have room. -/
inductive TrashRun (start : Disk) : List RepoEvent → Disk → Prop
  | start : TrashRun start [] start
  | step {events : List RepoEvent} {d d' : Disk} {e : RepoEvent} (h : TrashRun start events d)
      (htakes : e.Takes P hkdf hook metaDir d d') (hok : e.ok = true) (hfaults : e.faults = .none)
      (hop : e.op.SavesOrTrashes d) (hroom : e.op.HasRoom P hook metaDir d) :
      TrashRun start (e :: events) d'

variable {P hkdf hook metaDir}

theorem held_of_shifted {cloudID cloudID' : Bytes} {d d' : Disk}
    (hcloud : PathNames cloudID)
    (hcloud' : PathNames cloudID')
    (h : Shifted (manifestDir metaDir cloudID) (manifestTrashDir metaDir cloudID) d d') :
    held metaDir d' cloudID' = held metaDir d cloudID' := by
  by_cases hsame : cloudID' = cloudID
  · subst hsame
    exact h.sum
  · have hlive : manifestDir metaDir cloudID' ≠ manifestDir metaDir cloudID := by
      rw [manifestDir_append metaDir hcloud, manifestDir_append metaDir hcloud']
      exact fun heq => hsame (List.cons.inj (append_cancel_left heq)).2
    have htrash : manifestTrashDir metaDir cloudID' ≠ manifestTrashDir metaDir cloudID := by
      rw [manifestTrashDir_append metaDir hcloud, manifestTrashDir_append metaDir hcloud']
      exact fun heq => hsame (List.cons.inj (append_cancel_left heq)).2
    unfold held
    rw [h.others _ hlive (manifestTrashDir_ne hcloud hcloud').symm,
      h.others _ (manifestTrashDir_ne hcloud' hcloud) htrash]

/-- What one step keeps: no checksum files, and the manifests are those that were saved. -/
structure Conserved (P : Primitives) (hkdf : KeyDerivation) (metaDir : Bytes)
    (events : List RepoEvent) (d : Disk) : Prop where
  sidecars : NoSidecars d.fs
  held : ∀ cloudID, (∀ seg ∈ splitSlash cloudID, PathName seg) →
    held metaDir d cloudID = savedFor P hkdf metaDir cloudID events

theorem Conserved.shifted {events : List RepoEvent} {d d' : Disk} {e : RepoEvent} {cloudID : Bytes}
    (h : Conserved P hkdf metaDir events d) (hcloud : PathNames cloudID)
    (hshift : Shifted (manifestDir metaDir cloudID) (manifestTrashDir metaDir cloudID) d d')
    (hnone : ∀ c, e.saved P hkdf metaDir c = none) :
    Conserved P hkdf metaDir (e :: events) d' := by
  refine ⟨hshift.sidecars, fun c hc => ?_⟩
  rw [held_of_shifted hcloud hc hshift, h.held c hc, savedFor, savedFor,
    filterMap_cons_none (hnone c)]

/-- **Trashing loses no snapshot**: in a run in which every save and trashing has room, the
directories of each source together hold what was saved for it. -/
theorem trashing_loses_nothing {start d : Disk} {events : List RepoEvent}
    (hstart : ∀ path, start.fs.inode path = none)
    (hrun : TrashRun P hkdf hook metaDir start events d) :
    ∀ cloudID, validateCloudID cloudID = .ok () →
      held metaDir d cloudID = savedFor P hkdf metaDir cloudID events := by
  suffices hinv : Conserved P hkdf metaDir events d from
    fun cloudID hvalid => hinv.held cloudID (validateCloudID_ok hvalid).2
  induction hrun with
  | start =>
    have hempty : ∀ dir, manifestsIn start.fs dir = fun _ => none := by
      intro dir
      funext name
      rw [manifestsIn, read_eq_none.mpr (hstart _), ite_self]
    refine ⟨fun p _ => read_eq_none.mpr (hstart p), fun c _ => ?_⟩
    rw [held, hempty, hempty, values_none]
    rfl
  | step hrun htakes hok hfaults hop hroom ih =>
    rename_i events d d' e
    obtain ⟨op, now, faults, log, ok⟩ := e
    dsimp only at hok hfaults hop hroom
    subst hok hfaults
    obtain ⟨r, hrecord, hres⟩ := htakes
    cases op with
    | save m key env =>
      obtain ⟨r', hsave, rfl⟩ := record_outcome hrecord
      rcases r' with err | f
      · cases hres
      obtain ⟨job, name, hprep, hside, hnone, hupdate, hothers⟩ :=
        added_save ih.sidecars hop hroom.1 hroom.2 hsave
      have hcloud := (validateCloudID_ok (prepareSave_ok.mp hprep).2.1).2
      refine ⟨hside, fun c hc => ?_⟩
      have htrash : manifestsIn d'.fs (manifestTrashDir metaDir c) =
          manifestsIn d.fs (manifestTrashDir metaDir c) :=
        hothers _ (manifestTrashDir_ne hc hcloud)
      by_cases hsame : m.saveCloudID = c
      · -- both sides gain the envelope of this save
        subst hsame
        have hsaved : RepoEvent.saved P hkdf metaDir m.saveCloudID
            ⟨.save m key env, now, .none, log, true⟩ = some (job.envelope P) := by
          rw [RepoEvent.saved]
          dsimp only
          rw [if_pos rfl, hprep]
          rfl
        rw [held, htrash, hupdate, values_add (finite_manifestsIn d _) hnone, add_assoc, savedFor,
          filterMap_cons_some hsaved, ← Multiset.cons_coe, ← Multiset.singleton_add]
        exact congrArg _ (ih.held _ hc)
      · have hsaved : RepoEvent.saved P hkdf metaDir c
            ⟨.save m key env, now, .none, log, true⟩ = none := if_neg hsame
        have hlive : manifestDir metaDir c ≠ manifestDir metaDir m.saveCloudID := by
          rw [manifestDir_append metaDir hcloud, manifestDir_append metaDir hc]
          exact fun heq => hsame (List.cons.inj (append_cancel_left heq)).2.symm
        rw [held, htrash, hothers _ hlive, savedFor, filterMap_cons_none hsaved]
        exact ih.held c hc
    | trash cloudID timestamp deviceID =>
      have hcloud := (validateCloudID_ok hop).2
      exact ih.shifted hcloud (shifted_trash hcloud ih.sidecars hroom (exec_of_record hrecord))
        fun _ => rfl
    | trashAll cloudID =>
      have hcloud := (validateCloudID_ok hop).2
      obtain ⟨r', htrash, -⟩ := record_outcome hrecord
      exact ih.shifted hcloud (shifted_trashAll hcloud ih.sidecars hroom (exec_of_record htrash))
        fun _ => rfl
    | clean maxAge depth => exact hop.elim
    | cleanSource cloudID maxAge => exact hop.elim

end

/-! ## Two histories -/

theorem namesApart_image {src dst : Bytes} {i : Image} (h : i.Valid)
    (hdst : ∀ p ∈ i.names, ¬ dst ++ [slash] <+: p.1) : NamesApart src dst (i.disk h) := by
  intro name _
  unfold manifestsIn
  split
  · refine read_eq_none.mpr ?_
    by_contra hne
    obtain ⟨x, hx⟩ := ne_none_iff_exists'.mp hne
    refine hdst _ (mem_of_inode hx) ⟨name, ?_⟩
    rw [append_assoc]
    rfl
  · rfl

/-- The operations of the sample, as programs. -/
def sampleProg (op : RepoOp) : FsProg (Except OpError Unit) :=
  op.prog manifestPrimitives sampleHkdf none (ascii "m") 0

/-- A manifest of the sample source with one file is saved. -/
def saveSample (file uuid : Bytes) (huuid : slash ∉ uuid) : RepoOp :=
  .save (sampleManifest [file]) [] { sampleInputs with uuid := uuid, uuid_slash := huuid }

/-- A manifest is saved and trashed. -/
theorem trashing_loses_nothing_sample :
    ∃ (events : List RepoEvent) (d : Disk),
      TrashRun manifestPrimitives sampleHkdf none (ascii "m") .empty events d ∧
      events.map RepoEvent.op =
        [.trashAll (ascii "s"), saveSample (ascii "a") (ascii "0") (by decide)] ∧
      held (ascii "m") d (ascii "s") =
        savedFor manifestPrimitives sampleHkdf (ascii "m") (ascii "s") events := by
  have hcompute : ((run 0 (sampleProg (saveSample (ascii "a") (ascii "0") (by decide)))
      .empty).any fun p => decide (p.1.isOk = true ∧ p.2.2.Valid ∧
        (∀ q ∈ p.2.2.names, ¬ manifestTrashDir (ascii "m") (ascii "s") ++ [slash] <+: q.1) ∧
        (run 0 (sampleProg (.trashAll (ascii "s"))) p.2.2).any fun q =>
          decide (q.1.isOk = true ∧ q.2.2.Valid))) = true := by
    decide +kernel
  obtain ⟨⟨r, log, i⟩, hsave, hfacts⟩ := (any_eq_true _ _).mp hcompute
  obtain ⟨hok, hvalid, hnames, htrash⟩ := of_decide_eq_true hfacts
  obtain ⟨⟨r', log', i'⟩, htrash, hfacts'⟩ := (any_eq_true _ _).mp htrash
  obtain ⟨hok', hvalid'⟩ := of_decide_eq_true hfacts'
  have hfirst := takes_run valid_empty hvalid hsave
  rw [disk_empty] at hfirst
  have hstart : TrashRun manifestPrimitives sampleHkdf none (ascii "m") .empty [] .empty := .start
  have hsaved := hstart.step hfirst hok rfl (fun _ => rfl) ⟨by decide, by decide⟩
  have hrun := hsaved.step (takes_run hvalid hvalid' htrash) hok' rfl
    (show validateCloudID (ascii "s") = .ok () by decide) (namesApart_image hvalid hnames)
  exact ⟨_, _, hrun, rfl, trashing_loses_nothing (fun _ => rfl) hrun _ (by decide)⟩

/-- An image with one file. -/
theorem manifestsIn_solo {i : Image} (h : i.Valid) {x : Nat}
    (hnames : i.names = [(dir ++ slash :: name, x)]) (hslash : slash ∉ name)
    (hname : isManifestFile name = true) (dir' : Bytes) :
    manifestsIn (i.disk h).fs dir' =
      if dir' = dir then update (fun _ => none) name (some (i.inodes.getD x ([], 0)).1)
      else fun _ => none := by
  have hinode : ∀ path, (i.disk h).fs.inode path =
      if path = dir ++ slash :: name then some x else none := by
    intro path
    change i.names.lookup path = _
    rw [hnames, lookup_cons, lookup_nil]
    by_cases heq : path = dir ++ slash :: name
    · rw [if_pos heq, heq, beq_self_eq_true]
    · rw [if_neg heq, beq_eq_false_iff_ne.mpr heq]
  funext g
  unfold manifestsIn FileSystem.read
  rw [hinode]
  by_cases hg : slash ∉ g ∧ isManifestFile g = true
  · rw [if_pos hg]
    by_cases hpath : dir' ++ slash :: g = dir ++ slash :: name
    · obtain ⟨rfl, rfl⟩ := below_inj hg.1 hslash hpath
      rw [if_pos rfl, if_pos rfl, update_self]
      rfl
    · rw [if_neg hpath]
      split
      · rename_i hdir
        rw [update_of_ne]
        · rfl
        · rintro rfl
          exact hpath (by rw [hdir])
      · rfl
  · rw [if_neg hg]
    split
    · rw [update_of_ne]
      rintro rfl
      exact hg ⟨hslash, hname⟩
    · rfl

/-- The primitives, on a second manifest of the sample device and on one of another device too. -/
def trashPrimitives : Primitives :=
  manifestPrimitives.withDigests [(rawFrame (sampleManifest [ascii "b"]).marshal,
    0x6f56159353d5563f383271f0e8cec629638ef952dd05f274a624f086446ae2d1),
    (rawFrame { sampleManifest [ascii "b"] with deviceID := ascii "c" }.marshal,
      0x50040a8858c67cf8c5bb5675e76f857de2908006d0b9e0182a831d18d5c83060)]

/-- Two snapshots of one device and one second: the second one replaces the first in the
trash. -/
theorem trashing_replaces :
    ∃ (events : List RepoEvent) (d : Disk),
      RepoRun trashPrimitives sampleHkdf none (ascii "m") .empty events d ∧
      Completed [(saveSample (ascii "a") (ascii "0") (by decide), 0), (.trashAll (ascii "s"), 0),
        (saveSample (ascii "b") (ascii "1") (by decide), 0), (.trashAll (ascii "s"), 0)] events ∧
      (savedFor trashPrimitives sampleHkdf (ascii "m") (ascii "s") events).card = 2 ∧
      (held (ascii "m") d (ascii "s")).card = 1 := by
  have hcompute : ((runOps trashPrimitives sampleHkdf none (ascii "m")
      [(saveSample (ascii "a") (ascii "0") (by decide), 0), (.trashAll (ascii "s"), 0),
        (saveSample (ascii "b") (ascii "1") (by decide), 0), (.trashAll (ascii "s"), 0)] []
      .empty).any fun p => decide (p.2.Valid ∧
        p.2.names = [(manifestTrashDir (ascii "m") (ascii "s") ++
          slash :: ascii "1704067200_d.json.zst", 1)] ∧
        (p.1.filterMap (RepoEvent.saved trashPrimitives sampleHkdf (ascii "m")
          (ascii "s"))).length = 2)) = true := by
    decide +kernel
  obtain ⟨⟨events, i⟩, hops, hfacts⟩ := (any_eq_true _ _).mp hcompute
  obtain ⟨hvalid, hnames, hsaved⟩ := of_decide_eq_true hfacts
  obtain ⟨hrun, hdone⟩ := repoRun_empty hvalid hops
  refine ⟨events, _, hrun, hdone, hsaved, ?_⟩
  have hsolo := manifestsIn_solo hvalid hnames (by decide) (by decide)
  rw [held, hsolo, if_neg (by decide), values_none, zero_add, hsolo, if_pos rfl,
    values_add (by simp) rfl,
    values_none, add_zero, Multiset.card_singleton]

end GbfCore
