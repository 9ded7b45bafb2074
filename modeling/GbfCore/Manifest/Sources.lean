import GbfCore.Manifest.Repository

/-!
# Enumerating the sources (manifest.go)

`ListSourceCloudIDs` and `ListTrashCloudIDs` find the sources of a repository from its
directories, two levels deep. `SaveManifestWithKey` accepts identifiers with any number of
segments; `sources_enumerated_iff` says for which of them the two agree.
-/

namespace GbfCore

open List Prog

variable {base : Bytes} {cloudID : Bytes} {d : Disk} {events : List RepoEvent}

/-! ## The two lists -/

/-- The loop of both: the directories of the directories, but for `_sources`. `add` puts a key
behind those that were found before. -/
def collectKeys (add : List Bytes → Bytes → List Bytes) (base : Bytes) :
    List DirEntry → List Bytes → FsProg (List Bytes)
  | [], result => return result
  | e :: rest, result =>
    if e.isDir = false ∨ e.name = ascii "_sources" then collectKeys add base rest result
    else do
      match ← Fs.readDir (pathJoin [base, e.name]) with
      | .error _ => collectKeys add base rest result
      | .ok subEntries =>
        let keys := (subEntries.filter DirEntry.isDir).map fun se => manifestPathKey e.name se.name
        collectKeys add base rest (keys.foldl add result)

/-- What both do with the root. -/
def listKeys (add : List Bytes → Bytes → List Bytes) (base : Bytes) :
    FsProg (Except OpError (List Bytes)) := do
  match ← Fs.readDir base with
  | .error .notExist => return .ok []
  | .error e => return .error (.readDir e)
  | .ok entries =>
    let result ← collectKeys add base entries []
    return .ok result

/-- `ListTrashCloudIDs`. -/
def listTrashCloudIDs (metaDir : Bytes) : FsProg (Except OpError (List Bytes)) :=
  listKeys (fun l key => l ++ [key]) (pathJoin [metaDir, ascii "trash"])

/-- `ListSourceCloudIDs`; `seen` has the keys of the result. -/
def listSourceCloudIDs (manifestsDir : Bytes) : FsProg (Except OpError (List Bytes)) :=
  listKeys (fun l key => if key ∈ l then l else l ++ [key]) manifestsDir

/-- A key that is made of two directories below the root. -/
def Keyed (d : Disk) (base key : Bytes) : Prop :=
  ∃ a b, key = manifestPathKey a b ∧ PathName a ∧ slash ∉ a ∧ PathName b ∧ slash ∉ b ∧
    a ≠ ascii "_sources" ∧ d.isDir (base ++ slash :: a) ∧ d.isDir (base ++ slash :: a ++ slash :: b)

section
variable {add : List Bytes → Bytes → List Bytes}
  (hadd : ∀ l key c, c ∈ add l key ↔ c ∈ l ∨ c = key)

include hadd

theorem mem_foldl_add (keys result : List Bytes) (c : Bytes) :
    c ∈ keys.foldl add result ↔ c ∈ result ∨ c ∈ keys := by
  induction keys generalizing result with
  | nil => simp
  | cons key keys ih => rw [foldl_cons, ih, hadd, mem_cons, or_assoc]

/-- The loop finds the keys of the entries it is given. -/
theorem runs_collectKeys {now : Int} (hbase : CleanDir base) (entries : List DirEntry) :
    ∀ {result : List Bytes},
    (∀ e ∈ entries, e.isDir = true → d.isDir (base ++ slash :: e.name)) →
    (collectKeys add base entries result).Runs (Disk.Outcome .none now) d fun l _ =>
      ∀ c, c ∈ l ↔ c ∈ result ∨ ∃ e ∈ entries, e.isDir = true ∧ e.name ≠ ascii "_sources" ∧
        ∃ b, PathName b ∧ slash ∉ b ∧ d.isDir (base ++ slash :: e.name ++ slash :: b) ∧
          c = manifestPathKey e.name b := by
  induction entries with
  | nil =>
    intro result _
    exact runs_ret fun c => by simp
  | cons e rest ih =>
    intro result hdirs
    obtain ⟨hdir, hrest⟩ := forall_mem_cons.mp hdirs
    unfold collectKeys
    split
    · rename_i hskip
      refine (ih hrest).mono fun l _ hl c => ?_
      rw [hl, exists_mem_cons_iff]
      refine or_congr_right ⟨.inr, fun h => h.resolve_left ?_⟩
      rintro ⟨htrue, hname, -⟩
      rcases hskip with hfalse | hsources
      · rw [hfalse] at htrue
        cases htrue
      · exact absurd hsources hname
    · rename_i hkeep
      obtain ⟨htrue, hname⟩ := not_or.mp hkeep
      have htrue : e.isDir = true := Bool.of_not_eq_false htrue
      have hjoin := hbase.join (names_of_notMem e.pathName e.slash)
      rw [hjoin]
      refine Disk.runs_readDir (hdir htrue) fun subEntries hlists => ?_
      refine (ih hrest).mono fun l _ hl c => ?_
      rw [hl, mem_foldl_add hadd, or_assoc, exists_mem_cons_iff]
      refine or_congr_right (or_congr_left ?_)
      rw [mem_map]
      constructor
      · rintro ⟨se, hse, rfl⟩
        obtain ⟨hmem, hsub⟩ := mem_filter.mp hse
        exact ⟨htrue, hname, se.name, se.pathName, se.slash, hlists.isDir se hmem hsub, rfl⟩
      · rintro ⟨-, -, b, hb, hslash, hsub, rfl⟩
        obtain ⟨se, hse, rfl⟩ := hlists.all hb hslash fun habsent => habsent.2 hsub
        refine ⟨se, mem_filter.mpr ⟨hse, ?_⟩, rfl⟩
        by_contra hfile
        exact hlists.isFile se hse (Bool.of_not_eq_true hfile) (d.apart hsub)

/-- **The list has exactly the keys of two levels.** -/
theorem runs_listKeys {now : Int} (hbase : CleanDir base) (hdir : d.isDir base) :
    (listKeys add base).Runs (Disk.Outcome .none now) d fun r _ =>
      ∃ l, r = .ok l ∧ ∀ c, c ∈ l ↔ Keyed d base c := by
  refine Disk.runs_readDir hdir fun entries hlists => ?_
  refine runs_bind (runs_collectKeys hadd hbase entries hlists.isDir) fun l _ hl => ?_
  refine runs_ret ⟨l, rfl, fun c => ?_⟩
  rw [hl c, mem_nil_iff, false_or]
  constructor
  · rintro ⟨e, he, htrue, hname, b, hb, hslash, hsub, rfl⟩
    exact ⟨e.name, b, rfl, e.pathName, e.slash, hb, hslash, hname, hlists.isDir e he htrue, hsub⟩
  · rintro ⟨a, b, rfl, ha, haslash, hb, hslash, hname, hadir, hsub⟩
    obtain ⟨e, he, rfl⟩ := hlists.all ha haslash fun habsent => habsent.2 hadir
    refine ⟨e, he, ?_, hname, b, hb, hslash, hsub, rfl⟩
    by_contra hfile
    exact hlists.isFile e he (Bool.of_not_eq_true hfile) (d.apart hadir)

end

/-! ## The directories of a trashing -/

section
variable {d d' : Disk} {now : Int}

/-- What a move leaves that meets no fault: it takes no directory away, and the file stays, is
renamed, or is copied and removed. -/
structure RanRename (source target : Bytes) (d : Disk) (r : Except FsError Unit) (d' : Disk) :
    Prop where
  grows : ∀ dir, d.isDir dir → d'.isDir dir
  files : (r.isOk = false ∧ d'.fs = d.fs) ∨ r = .ok () ∧
    ((∃ x, ∃ hx : d.fs.inode source = some x,
        d'.fs = d.fs.rename x (d.fs.inode_lt hx) source target) ∨
      ∃ data, (d.fs.create target).read source = some data ∧
        d'.fs = ((d.fs.create target).write (d.fs.opened target) data).unlink source)

theorem exec_renameWithFallback {source target : Bytes} {r : Except FsError Unit}
    (h : (renameWithFallback source target).Exec (Disk.Outcome .none now) d r d') :
    RanRename source target d r d' := by
  unfold renameWithFallback at h
  obtain ⟨renamed, d₁, hout, h⟩ := exec_call h
  have hdirs₁ : d₁.isDir = d.isDir := hout.dirs
  rcases renamed with e | ⟨⟩
  swap
  · obtain ⟨rfl, rfl⟩ := h
    exact ⟨fun _ hdir => hdirs₁ ▸ hdir, .inr ⟨rfl, .inl hout.files⟩⟩
  have hfs₁ : d₁.fs = d.fs := hout.files
  have hquit : ∀ {e : FsError} {d₂ : Disk}, d₂.fs = d.fs → (∀ dir, d.isDir dir → d₂.isDir dir) →
      (pure (.error e) : FsProg _).Exec (Disk.Outcome .none now) d₂ r d' →
      RanRename source target d r d' := by
    rintro e d₂ hfs hgrows ⟨rfl, rfl⟩
    exact ⟨hgrows, .inl ⟨rfl, hfs⟩⟩
  cases e with
  | crossDevice =>
    obtain ⟨opened, d₂, hout, h⟩ := exec_call h
    have hfs₂ : d₂.fs = d.fs := Eq.trans hout.files hfs₁
    have hdirs₂ : d₂.isDir = d.isDir := hout.dirs.trans hdirs₁
    rcases opened with e | ⟨⟩
    · exact hquit hfs₂ (fun _ hdir => hdirs₂ ▸ hdir) h
    obtain ⟨made, d₃, hout, h⟩ := exec_call h
    have hfs₃ : d₃.fs = d.fs := Eq.trans hout.files hfs₂
    have hgrows : ∀ dir, d.isDir dir → d₃.isDir dir := by
      intro dir hdir
      have hdir₂ : d₂.isDir dir := hdirs₂ ▸ hdir
      rw [hout.dirs]
      rcases made with e | ⟨⟩
      · exact hdir₂
      · exact .inl hdir₂
    rcases made with e | ⟨⟩
    · exact hquit hfs₃ hgrows h
    obtain ⟨created, d₄, hout, h⟩ := exec_call h
    have hdirs₄ : d₄.isDir = d₃.isDir := hout.dirs
    rcases created with e | ⟨⟩
    · exact hquit (Eq.trans hout.files hfs₃) (fun dir hdir => hdirs₄ ▸ hgrows dir hdir) h
    have hfs₄ : d₄.fs = d.fs.create target := hfs₃ ▸ hout.files
    obtain ⟨copied, d₅, hcopy, h⟩ := exec_call h
    rcases copied with e | ⟨⟩
    · exact (hcopy.answers.resolve_left nofun).elim
    have hdirs₅ : d₅.isDir = d₃.isDir := hcopy.dirs.trans hdirs₄
    obtain ⟨data, x, hread, hx, hfs₅⟩ := hcopy.files
    rw [hfs₄] at hread hx hfs₅
    obtain rfl : d.fs.opened target = x :=
      Option.some.inj ((d.fs.inode_create_self target).symm.trans hx)
    -- the source is a file, so it can be removed
    have hthere : d₅.fs.inode source ≠ none := by
      obtain ⟨y, hy, -⟩ := FileSystem.read_eq_some.mp hread
      rw [hfs₅]
      exact fun hnone => nomatch hy.symm.trans hnone
    obtain ⟨removed, d₆, hremove, h⟩ := exec_call h
    rcases removed with e | ⟨⟩
    · rcases hremove.answers with hio | ⟨-, habsent⟩ | ⟨-, hdir, -⟩
      · exact hio.elim
      · exact absurd habsent.1 hthere
      · exact absurd (d₅.apart hdir) hthere
    have hkeep : KeepsDirs source (.remove source) := rfl
    have hdirs₆ : d₆.isDir = d₅.isDir :=
      dirs_of_keepsDirs hkeep hremove fun hdir => hthere (d₅.apart hdir)
    have hfs₆ : d₆.fs = d₅.fs.unlink source := hremove.files
    obtain ⟨rfl, rfl⟩ := h
    refine ⟨fun dir hdir => ?_, .inr ⟨rfl, .inr ⟨data, hread, hfs₅ ▸ hfs₆⟩⟩⟩
    rw [hdirs₆, hdirs₅]
    exact hgrows dir hdir
  | _ => exact hquit hfs₁ (fun _ hdir => hdirs₁ ▸ hdir) h

theorem grows_moveOne {source dstDir : Bytes} {r : Except OpError Unit}
    (h : (moveOrDeleteOneManifest source (some dstDir)).Exec (Disk.Outcome .none now) d r d')
    (dir : Bytes) (hdir : d.isDir dir) : d'.isDir dir := by
  obtain ⟨moved, d₁, hmove, h⟩ := exec_bind.mp h
  have hdir₁ := (exec_renameWithFallback hmove).grows dir hdir
  rcases moved with e | ⟨⟩
  · exact h.2 ▸ hdir₁
  obtain ⟨found, d₂, hout, h⟩ := exec_call h
  have hdirs₂ : d₂.isDir = d₁.isDir := hout.dirs
  rcases found with e | t
  · obtain ⟨-, rfl⟩ := h
    exact hdirs₂ ▸ hdir₁
  · obtain ⟨_, d₃, hsidecar, h⟩ := exec_bind.mp h
    obtain ⟨-, rfl⟩ := h
    exact (exec_renameWithFallback hsidecar).grows dir (hdirs₂ ▸ hdir₁)

theorem grows_moveEach {srcDir dstDir : Bytes} (entries : List DirEntry) : ∀ {d : Disk} {n : Nat},
    (moveOrDeleteEach srcDir (some dstDir) entries).Exec (Disk.Outcome .none now) d n d' →
    ∀ dir, d.isDir dir → d'.isDir dir := by
  induction entries with
  | nil =>
    rintro d n ⟨-, rfl⟩ dir hdir
    exact hdir
  | cons e rest ih =>
    intro d n h dir hdir
    obtain ⟨_, d₁, hone, h⟩ := exec_bind.mp h
    obtain ⟨_, d₂, hrest, h⟩ := exec_bind.mp h
    obtain ⟨-, rfl⟩ := h
    exact ih hrest dir (grows_moveOne hone dir hdir)

theorem dirs_moveAll {srcDir dstDir : Bytes} {entries : List DirEntry} {n : Nat}
    (h : (moveOrDeleteAll srcDir (some dstDir) entries).Exec (Disk.Outcome .none now) d n d')
    (dir : Bytes) (hdir : d.isDir dir) (hne : dir ≠ srcDir) : d'.isDir dir := by
  obtain ⟨count, d₁, heach, h⟩ := exec_bind.mp h
  have hdir₁ := grows_moveEach entries heach dir hdir
  obtain ⟨remaining, d₂, hout, hrest⟩ := exec_call h
  obtain rfl := hout.readDir
  split at hrest
  · obtain ⟨removed, d₃, hremove, hret⟩ := exec_call hrest
    obtain ⟨-, rfl⟩ := hret
    rw [hremove.dirs]
    rcases removed with e | ⟨⟩
    · exact hdir₁
    · exact ⟨hdir₁, hne⟩
  · obtain ⟨-, rfl⟩ := hrest
    exact hdir₁

/-- **Trashing a source makes the directories on the way to its trash**, if the source has a
directory. -/
theorem dirs_trashAll {metaDir : Bytes} {n : Nat}
    (h : (trashAllSourceManifests metaDir cloudID).Exec (Disk.Outcome .none now) d (.ok n) d')
    (hsource : d.isDir (manifestDir metaDir cloudID)) (dir : Bytes)
    (hdir : OnPath dir (manifestTrashDir metaDir cloudID)) (hne : dir ≠ manifestDir metaDir cloudID) :
    d'.isDir dir := by
  obtain ⟨files, d₁, hlist, h⟩ := exec_bind.mp h
  obtain ⟨rfl, herr, -⟩ := exec_readManifestFiles hlist
  rcases files with e | entries
  · exact absurd hsource ((herr e rfl).resolve_left id)
  · obtain ⟨made, d₄, hmkdir, h⟩ := exec_call h
    rcases made with e | ⟨⟩
    · exact nomatch h.1
    obtain ⟨_, d₅, hmove, h⟩ := exec_bind.mp h
    obtain ⟨-, rfl⟩ := h
    refine dirs_moveAll hmove dir ?_ hne
    rw [hmkdir.dirs]
    exact .inr hdir

end

/-! ## Which sources are enumerated -/

/-- A manifest was saved under the identifier. -/
def SavedUnder (events : List RepoEvent) (cloudID : Bytes) : Prop :=
  ∃ e ∈ events, ∃ m key env, e.op = .save m key env ∧ m.saveCloudID = cloudID

/-- A save that succeeded. -/
def RepoEvent.IsSave (e : RepoEvent) : Prop := e.ok = true ∧ ∃ m key env, e.op = .save m key env

/-- `ListSourceCloudIDs` returns the identifier. -/
def ListedSource (metaDir : Bytes) (now : Int) (d : Disk) (cloudID : Bytes) : Prop :=
  (listSourceCloudIDs (pathJoin [metaDir, ascii "manifests"])).Runs (Disk.Outcome .none now) d
    fun r _ => ∃ l, r = .ok l ∧ cloudID ∈ l

/-- `ListTrashCloudIDs` returns the identifier. -/
def ListedTrash (metaDir : Bytes) (now : Int) (d : Disk) (cloudID : Bytes) : Prop :=
  (listTrashCloudIDs metaDir).Runs (Disk.Outcome .none now) d
    fun r _ => ∃ l, r = .ok l ∧ cloudID ∈ l

/-- Two segments, of which the first is not the reserved name. -/
def TwoLevel (cloudID : Bytes) : Prop := ∃ a b, splitSlash cloudID = [a, b] ∧ a ≠ ascii "_sources"

section
variable {P : Primitives} {hkdf : KeyDerivation} {hook : DecryptHook} {metaDir : Bytes}

/-- Every source has its directories. -/
theorem dirs_of_saves {start : Disk} (hrun : RepoRun P hkdf hook metaDir start events d)
    (hsaves : ∀ e ∈ events, e.IsSave) (h : SavedUnder events cloudID) :
    validateCloudID cloudID = .ok () ∧
      ∀ dir, OnPath dir (manifestDir metaDir cloudID) → d.isDir dir := by
  induction hrun with
  | start =>
    obtain ⟨e, he, -⟩ := h
    cases he
  | step hrun htakes ih =>
    rename_i events d d' e
    obtain ⟨⟨hok, m, key, env, hop⟩, hrest⟩ := forall_mem_cons.mp hsaves
    obtain ⟨r, hrecord, hres⟩ := htakes
    rw [hop] at hrecord
    obtain ⟨r', hsave, rfl⟩ := record_outcome hrecord
    rcases r' with err | f
    · exact absurd (hok.symm.trans hres) nofun
    obtain ⟨hvalid, hkeep, hmade⟩ := dirs_saveManifestWithKey (exec_of_record hsave)
    obtain ⟨e', he', m', key', env', hop', hcloud⟩ := h
    rcases mem_cons.mp he' with rfl | hmem
    · obtain ⟨rfl, rfl, rfl⟩ : m = m' ∧ key = key' ∧ env = env' :=
        RepoOp.save.inj (hop.symm.trans hop')
      rw [← hcloud]
      exact ⟨hvalid, hmade⟩
    · obtain ⟨hvalid, hdirs⟩ := ih hrest ⟨e', hmem, m', key', env', hop', hcloud⟩
      exact ⟨hvalid, fun dir hdir => hkeep dir (hdirs dir hdir)⟩

theorem mem_addUnseen (l : List Bytes) (key c : Bytes) :
    (c ∈ if key ∈ l then l else l ++ [key]) ↔ c ∈ l ∨ c = key := by
  split
  · rename_i hmem
    refine ⟨.inl, fun h => h.elim id ?_⟩
    rintro rfl
    exact hmem
  · rw [mem_append, mem_singleton]

/-- A key of two levels has two segments. -/
theorem twoLevel_of_keyed {c : Bytes} (h : Keyed d base c) : TwoLevel c := by
  obtain ⟨a, b, rfl, -, ha, -, hb, hname, -⟩ := h
  refine ⟨a, b, ?_, hname⟩
  rw [manifestPathKey, splitSlash_append, splitSlash_of_notMem ha, splitSlash_of_notMem hb]
  rfl

/-- The directories on the way to a source of two levels make a key. -/
theorem keyed_of_twoLevel {c : Bytes} (hc : PathNames c) (h : TwoLevel c)
    (hdirs : ∀ x, PathNames x →
      OnPath (base ++ slash :: x) (base ++ slash :: c) → d.isDir (base ++ slash :: x)) :
    Keyed d base c := by
  obtain ⟨a, b, hsplit, hname⟩ := h
  have hmem : a ∈ splitSlash c ∧ b ∈ splitSlash c := by simp [hsplit]
  have haslash := slash_notMem_of_mem_splitSlash hmem.1
  have hjoin : c = manifestPathKey a b := by
    rw [← joinSlash_splitSlash c, hsplit]
    simp [joinSlash, manifestPathKey]
  have hpath : base ++ slash :: a ++ slash :: b = base ++ slash :: c := by
    rw [hjoin]
    simp [manifestPathKey]
  refine ⟨a, b, hjoin, hc a hmem.1, haslash, hc b hmem.2,
    slash_notMem_of_mem_splitSlash hmem.2, hname, ?_, ?_⟩
  · exact hdirs a (names_of_notMem (hc a hmem.1) haslash) (.inr ⟨b, hpath.symm⟩)
  · rw [hpath]
    exact hdirs c hc (.refl _)

/-- The trash is not on the way to the manifests. -/
theorem pathJoin_trash_ne {b : Bytes} (hb : PathNames b)
    (hfirst : (splitSlash b).head? = some (ascii "trash")) (h : PathNames cloudID) :
    pathJoin [metaDir, b] ≠ manifestDir metaDir cloudID := by
  rw [manifestDir, pathJoin_three (by decide)]
  refine pathJoin_ne metaDir hb (PathName.sub ⟨by decide, by decide⟩ (by decide) h) ?_
  rw [hfirst, splitSlash_sub (by decide)]
  exact fun heq => absurd (Option.some.inj heq) (by decide)

/-- The trash of a source is not the live directory of any. -/
theorem manifestTrashDir_ne {cloudID' : Bytes} (hcloud : PathNames cloudID)
    (hcloud' : PathNames cloudID') :
    manifestTrashDir metaDir cloudID ≠ manifestDir metaDir cloudID' := by
  rw [manifestTrashDir, pathJoin_three (by decide)]
  refine pathJoin_trash_ne (PathName.sub ⟨by decide, by decide⟩ (by decide) hcloud) ?_ hcloud'
  rw [splitSlash_sub (by decide)]
  rfl

/-- **The sources are enumerated, live and in the trash, exactly if** each of their
identifiers has two segments, the first of which is not `_sources`. -/
theorem sources_enumerated_iff {start d : Disk} {events : List RepoEvent}
    (hrun : RepoRun P hkdf hook metaDir start events d) (hsaves : ∀ e ∈ events, e.IsSave) :
    (∀ cloudID, SavedUnder events cloudID → ∀ now, ListedSource metaDir now d cloudID ∧
      ∀ n d', (trashAllSourceManifests metaDir cloudID).Exec (Disk.Outcome .none now) d (.ok n) d' →
        ListedTrash metaDir now d' cloudID) ↔
    ∀ cloudID, SavedUnder events cloudID → TwoLevel cloudID := by
  constructor
  · intro h cloudID hsaved
    obtain ⟨⟨⟨r, d', hexec⟩, hall⟩, -⟩ := h cloudID hsaved 0
    obtain ⟨l, rfl, hmem⟩ := hall r d' hexec
    obtain ⟨hvalid, hdirs⟩ := dirs_of_saves hrun hsaves hsaved
    have hcloud := (validateCloudID_ok hvalid).2
    have hroot : d.isDir (manifestsRoot metaDir) := by
      refine hdirs _ ?_
      rw [manifestDir_append metaDir hcloud]
      exact onPath_append _ _
    obtain ⟨l', hl', hkeys⟩ := (runs_listKeys mem_addUnseen (cleanDir_manifestsRoot metaDir)
      hroot).2 _ _ hexec
    cases hl'
    exact twoLevel_of_keyed ((hkeys cloudID).mp hmem)
  · intro h cloudID hsaved now
    obtain ⟨hvalid, hdirs⟩ := dirs_of_saves hrun hsaves hsaved
    have hcloud := (validateCloudID_ok hvalid).2
    have hlevels := h cloudID hsaved
    rw [manifestDir_append metaDir hcloud] at hdirs
    constructor
    · refine (runs_listKeys mem_addUnseen (cleanDir_manifestsRoot metaDir)
        (hdirs _ (onPath_append _ _))).mono ?_
      rintro r d' ⟨l, rfl, hkeys⟩
      exact ⟨l, rfl, (hkeys cloudID).mpr (keyed_of_twoLevel hcloud hlevels fun x _ => hdirs _)⟩
    · intro n d' htrash
      have hsource : d.isDir (manifestDir metaDir cloudID) := by
        rw [manifestDir_append metaDir hcloud]
        exact hdirs _ (.refl _)
      have hmade := dirs_trashAll htrash hsource
      rw [manifestTrashDir_append metaDir hcloud] at hmade
      have hroot : d'.isDir (trashRoot metaDir) := by
        refine hmade _ (onPath_append _ _) (pathJoin_trash_ne names_trash ?_ hcloud)
        rw [splitSlash_of_notMem (by decide)]
        rfl
      have hbelow : ∀ x, PathNames x →
          OnPath (trashRoot metaDir ++ slash :: x) (trashRoot metaDir ++ slash :: cloudID) →
          d'.isDir (trashRoot metaDir ++ slash :: x) := by
        intro x hx hway
        refine hmade _ hway ?_
        rw [← manifestTrashDir_append metaDir hx]
        exact manifestTrashDir_ne hx hcloud
      refine (runs_listKeys (fun l key c => by simp) (cleanDir_trashRoot metaDir) hroot).mono ?_
      rintro r d'' ⟨l, rfl, hkeys⟩
      exact ⟨l, rfl, (hkeys cloudID).mpr (keyed_of_twoLevel hcloud hlevels hbelow)⟩

end

/-! ## Two repositories -/

/-- A manifest of a source. -/
def sampleOf (cloudID : Bytes) : Manifest := { sampleManifest [ascii "a"] with cloudID := cloudID }

/-- The primitives, on the manifest of the source `a/b` too. -/
def sourcePrimitives : Primitives :=
  manifestPrimitives.withDigests [(rawFrame (sampleOf (ascii "a/b")).marshal,
    0x861a98cf10767d78b25b2a27f6c771d7a7fae3c925a7a8ce4829d9bce4b2177a)]

/-- One save that succeeded. -/
theorem solo_save {m : Manifest} {key : Bytes} {env : SaveInputs}
    (h : Completed [(.save m key env, 0)] events) :
    (∀ e ∈ events, e.IsSave) ∧ ∀ c, SavedUnder events c ↔ c = m.saveCloudID := by
  obtain ⟨hmap, hdone⟩ := h
  obtain ⟨e, rfl, he⟩ := map_eq_singleton_iff.mp hmap
  have hop : e.op = .save m key env := congrArg Prod.fst he
  constructor
  · intro e' he'
    obtain rfl : e' = e := mem_singleton.mp he'
    exact ⟨(hdone e' he').1, m, key, env, hop⟩
  · intro c
    constructor
    · rintro ⟨e', he', m', key', env', hop', rfl⟩
      obtain rfl := mem_singleton.mp he'
      rw [(RepoOp.save.inj (hop.symm.trans hop')).1]
    · rintro rfl
      exact ⟨e, mem_singleton_self e, m, key, env, hop, rfl⟩

/-- The source `a/b` is enumerated. -/
theorem sources_enumerated_sample :
    ∃ events d, RepoRun sourcePrimitives sampleHkdf none (ascii "m") .empty events d ∧
      (∀ e ∈ events, e.IsSave) ∧ SavedUnder events (ascii "a/b") ∧
      ListedSource (ascii "m") 0 d (ascii "a/b") := by
  have hcompute : ((Image.runOps sourcePrimitives sampleHkdf none (ascii "m")
      [(.save (sampleOf (ascii "a/b")) [] sampleInputs, 0)] [] .empty).any
        fun p => decide p.2.Valid) = true := by decide +kernel
  obtain ⟨⟨events, i⟩, hops, hvalid⟩ := (Option.any_eq_true _ _).mp hcompute
  have hvalid := of_decide_eq_true hvalid
  obtain ⟨hrun, hdone⟩ := repoRun_empty hvalid hops
  obtain ⟨hsaves, hunder⟩ := solo_save hdone
  have hcloud : (sampleOf (ascii "a/b")).saveCloudID = ascii "a/b" := by decide
  rw [hcloud] at hunder
  refine ⟨events, i.disk hvalid, hrun, hsaves, (hunder _).mpr rfl, ?_⟩
  refine ((sources_enumerated_iff hrun hsaves).mpr ?_ _ ((hunder _).mpr rfl) 0).1
  intro c hc
  rw [(hunder c).mp hc]
  exact ⟨ascii "a", ascii "b", by decide, by decide⟩

/-- The source `s`, as `ResolveCloudID` makes them for sources without a device, is missed. -/
theorem sources_missed :
    ∃ events d, RepoRun manifestPrimitives sampleHkdf none (ascii "m") .empty events d ∧
      (∀ e ∈ events, e.IsSave) ∧ SavedUnder events (ascii "s") ∧
      (listSourceCloudIDs (ascii "m/manifests")).Exec (Disk.Outcome .none 0) d (.ok []) d := by
  have hcompute : ((Image.runOps manifestPrimitives sampleHkdf none (ascii "m")
      [(.save (sampleOf (ascii "s")) [] sampleInputs, 0)] [] .empty).any fun p =>
        decide (p.2.Valid ∧
          (Image.run 0 (listSourceCloudIDs (ascii "m/manifests")) p.2).map
            (fun q => (q.1, q.2.2)) = some (.ok [], p.2))) = true := by
    decide +kernel
  obtain ⟨⟨events, i⟩, hops, hlist⟩ := (Option.any_eq_true _ _).mp hcompute
  obtain ⟨hvalid, hlist⟩ := of_decide_eq_true hlist
  obtain ⟨⟨r, log, i'⟩, hlist, heq⟩ := Option.map_eq_some_iff.mp hlist
  cases heq
  obtain ⟨hrun, hdone⟩ := repoRun_empty hvalid hops
  obtain ⟨hsaves, hunder⟩ := solo_save hdone
  have hcloud : (sampleOf (ascii "s")).saveCloudID = ascii "s" := by decide
  rw [hcloud] at hunder
  exact ⟨events, i.disk hvalid, hrun, hsaves, (hunder _).mpr rfl,
    exec_of_record (Image.record_run hvalid hvalid hlist)⟩

end GbfCore
