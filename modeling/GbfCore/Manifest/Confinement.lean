import GbfCore.Lib.Inside
import GbfCore.Manifest.Operations

/-!
# Where the operations on manifests go (manifest.go)

An identifier is joined into paths, so that `..` in it can lead out of the directory of
the metadata. The operations that save, and those on registries, check the identifier
first; the others do not. Which identifiers each of them keeps inside is `confined_iff`.

Each program is followed once, for all answers of the file system, under the assumption
that the directory it starts from is inside.
-/

namespace GbfCore

open List Prog

variable {b cloudID dir metaDir path root source srcDir target uuid : Bytes}
  {trashDir : Option Bytes}
variable {p : FsProg (Except OpError Unit)}

/-- A call all of whose paths are inside a directory. -/
def Within (root : Bytes) (c : FsCall) : Prop := ∀ path ∈ c.paths, Inside root path

section

theorem within_one {c : FsCall} (hc : c.paths = [path]) (h : Inside root path) : Within root c := by
  intro q hq
  rw [hc, mem_singleton] at hq
  exact hq ▸ h

theorem calls_one {c : FsCall} (hc : c.paths = [path]) (h : Inside root path) :
    (ask c : FsProg c.Answer).Calls (Within root) :=
  sat_ask (within_one hc h)

theorem within_two {c : FsCall} (hc : c.paths = [source, target]) (h : Inside root source)
    (h' : Inside root target) : Within root c := by
  intro q hq
  rw [hc] at hq
  rcases mem_cons.mp hq with rfl | hq
  · exact h
  · exact mem_singleton.mp hq ▸ h'

theorem DirEntry.names (e : DirEntry) : PathNames e.name :=
  names_of_notMem e.pathName e.slash

/-! ## Reading -/

theorem inside_checksum (hdir : Inside root dir) (hb : PathNames b) :
    Inside root (manifestChecksumPath (pathJoin [dir, b])) :=
  hdir.join_suffix hb (by decide) (show (0x73 : UInt8) ∈ ascii ".sha256" by decide) (by decide)

/-- The calls that read the manifests of a directory. -/
structure MayRead (Q : FsCall → Prop) (dir : Bytes) : Prop where
  list : Q (.readDir dir)
  stat {b : Bytes} : PathNames b → Q (.stat (pathJoin [dir, b]))
  file {b : Bytes} : PathNames b → Q (.readFile (pathJoin [dir, b]))
  checksum {b : Bytes} : PathNames b → Q (.readFile (manifestChecksumPath (pathJoin [dir, b])))

theorem Inside.mayRead (hdir : Inside root dir) : MayRead (Within root) dir where
  list := within_one rfl hdir
  stat hb := within_one rfl (hdir.join hb)
  file hb := within_one rfl (hdir.join hb)
  checksum hb := within_one rfl (inside_checksum hdir hb)

section
variable {Q : FsCall → Prop} {dir : Bytes} (hread : MayRead Q dir)
include hread

theorem calls_readManifestDirEntries : (readManifestDirEntries dir).Calls Q :=
  calls_bind (sat_ask hread.list) fun _ => sat_ret trivial

theorem calls_readManifestFiles : (readManifestFiles dir).Calls Q :=
  calls_bind (calls_readManifestDirEntries hread) fun _ => sat_ret trivial

variable (P : Primitives) (hook : DecryptHook)

/-- What the callback keeps for the files that are there holds at the end. -/
theorem sat_forEachManifest {σ : Type} {fn : σ → Manifest → Bytes → σ × Bool} (Inv : σ → Prop)
    {entries : List DirEntry} (hfn : ∀ e ∈ entries, ∀ s m, Inv s → Inv (fn s m e.name).1) :
    ∀ s, Inv s →
      (forEachManifest P hook dir fn entries s).Sat Q fun r => Inv r.1 := by
  induction entries with
  | nil => exact fun _ hs => sat_ret hs
  | cons e rest ih =>
    intro s hs
    have hrest := ih fun e' he' => hfn e' (mem_cons_of_mem e he')
    have hload := calls_loadManifestFile P hook (hread.checksum e.names) (hread.file e.names)
    refine calls_bind hload fun r => ?_
    rcases r with err | m
    · -- a file that cannot be loaded leaves the state alone
      exact sat_bind (hrest s hs) fun _ hr => sat_ret hr
    · have hnext := hfn e mem_cons_self s m hs
      dsimp only
      split
      · exact sat_ret hnext
      · exact hrest _ hnext

theorem calls_loadFirst {names : List Bytes}
    (hnames : ∀ name ∈ names, PathNames name) :
    ∀ firstErr, (loadFirst P hook dir names firstErr).Calls Q := by
  induction names with
  | nil => exact fun _ => sat_ret trivial
  | cons name rest ih =>
    intro firstErr
    obtain ⟨hname, hrest⟩ := forall_mem_cons.mp hnames
    have hload := calls_loadManifestFile P hook (hread.checksum hname) (hread.file hname)
    refine calls_bind hload fun r => ?_
    rcases r with e | m
    · exact ih hrest _
    · exact sat_ret trivial

/-- The candidates are files of the directory. -/
theorem sat_candidates (entries : List DirEntry) :
    (candidates dir entries).Sat Q fun found =>
      ∀ c ∈ found, PathNames c.name := by
  induction entries with
  | nil => exact sat_ret nofun
  | cons e rest ih =>
    unfold candidates
    split
    · exact ih
    · refine calls_bind (sat_ask (hread.stat e.names)) fun info => ?_
      refine sat_bind ih fun tail htail => sat_ret ?_
      exact forall_mem_cons.mpr ⟨e.names, htail⟩

theorem calls_collectFrom (entries : List DirEntry) :
    ∀ alive, (collectFrom P hook dir entries alive).Calls Q := by
  induction entries with
  | nil => exact fun _ => sat_ret trivial
  | cons e rest ih =>
    intro alive
    have hfile : (extractHashesFromManifestFile P hook (pathJoin [dir, e.name])).Calls Q := by
      unfold extractHashesFromManifestFile
      refine calls_ok (sat_ask (hread.file e.names)) (fun _ => trivial) fun data => ?_
      exact calls_bind (calls_checkLegacy P (hread.checksum e.names) data) fun _ => sat_ret trivial
    refine calls_bind hfile fun r => ?_
    rcases r with err | hashes
    · exact calls_bind (ih alive) fun _ => sat_ret trivial
    · exact ih _

end

section
variable (P : Primitives) (hook : DecryptHook)
variable {Q : FsCall → Prop} (hread : MayRead Q (manifestDir metaDir cloudID))
include hread

theorem calls_loadManifestByTimestamp (timestamp : Bytes) :
    (loadManifestByTimestamp P hook metaDir cloudID timestamp).Calls Q := by
  unfold loadManifestByTimestamp
  split
  · exact sat_ret trivial
  refine calls_ok (calls_readManifestFiles hread) (by rintro ⟨⟩ <;> trivial) fun entries => ?_
  refine calls_bind (calls_loadFirst hread P hook ?_ none) fun r => ?_
  · intro name hname
    obtain ⟨e, -, rfl⟩ := mem_map.mp (mem_of_mem_filter hname)
    exact e.names
  · rcases r with (_ | _) | _ <;> exact sat_ret trivial

theorem calls_loadLatestManifest :
    (loadLatestManifest P hook metaDir cloudID).Calls Q := by
  unfold loadLatestManifest
  refine calls_ok (calls_readManifestFiles hread) (by rintro ⟨⟩ <;> trivial) fun entries => ?_
  refine sat_bind (sat_candidates hread entries) fun found hfound => ?_
  refine calls_bind (calls_loadFirst hread P hook ?_ none) fun r => ?_
  · intro name hname
    obtain ⟨c, hc, rfl⟩ := mem_map.mp hname
    exact hfound c ((mem_insertionSort _).mp hc)
  · rcases r with (_ | _) | _ <;> exact sat_ret trivial

theorem calls_listManifests : (listManifests P hook metaDir cloudID).Calls Q := by
  unfold listManifests
  refine calls_ok (calls_readManifestFiles hread) (by rintro ⟨⟩ <;> trivial) fun entries => ?_
  exact calls_bind (sat_forEachManifest hread P hook (fun _ => True) (fun _ _ _ _ _ => trivial)
    _ trivial) fun _ => sat_ret trivial

theorem calls_collectAliveHashesStreaming :
    (collectAliveHashesStreaming P hook metaDir cloudID).Calls Q := by
  unfold collectAliveHashesStreaming
  refine calls_ok (calls_readManifestFiles hread) (by rintro ⟨⟩ <;> trivial) fun entries => ?_
  exact calls_bind (calls_collectFrom hread P hook entries _) fun _ => sat_ret trivial

end

/-! ## Deleting -/

theorem calls_renameWithFallback (hsource : Inside root source) (htarget : Inside root target)
    (hparent : Inside root (pathDir target)) :
    (renameWithFallback source target).Calls (Within root) := by
  unfold renameWithFallback
  refine calls_bind (sat_ask (within_two rfl hsource htarget)) fun r => ?_
  rcases r with e | ⟨⟩
  swap
  · exact sat_ret trivial
  cases e with
  | notExist => exact sat_ret trivial
  | exist => exact sat_ret trivial
  | other => exact sat_ret trivial
  | crossDevice =>
    refine calls_ok (calls_one rfl hsource) (fun _ => trivial) fun ⟨⟩ => ?_
    refine calls_ok (calls_one rfl hparent) (fun _ => trivial) fun ⟨⟩ => ?_
    refine calls_ok (calls_one rfl htarget) (fun _ => trivial) fun ⟨⟩ => ?_
    refine calls_bind (sat_ask (within_two rfl hsource htarget)) fun r => ?_
    rcases r with e | ⟨⟩
    · exact calls_bind (calls_one rfl htarget) fun _ => sat_ret trivial
    · exact calls_bind (calls_one rfl hsource) fun _ => sat_ret trivial

/-- The file goes to the trash under its own name. -/
theorem calls_moveOrDeleteOneManifest {name : Bytes} (hsrc : Inside root srcDir)
    (htrash : ∀ dir, trashDir = some dir → Inside root dir) (hname : PathName name)
    (hslash : slash ∉ name) :
    (moveOrDeleteOneManifest (pathJoin [srcDir, name]) trashDir).Calls (Within root) := by
  have hnames := names_of_notMem hname hslash
  have hfile := hsrc.join hnames
  have hsum := inside_checksum hsrc hnames
  cases trashDir with
  | none =>
    refine calls_bind (calls_one rfl hsum) fun _ => ?_
    exact calls_bind (calls_one rfl hfile) fun _ => sat_ret trivial
  | some dst =>
    have hdst := htrash dst rfl
    -- the checksum file keeps its name as well
    have hsumNames : PathNames (name ++ ascii ".sha256") :=
      names_suffix hnames (by decide) (show (0x73 : UInt8) ∈ ascii ".sha256" by decide) (by decide)
    have hsumPath : manifestChecksumPath (pathJoin [dst, name]) =
        pathJoin [dst, name ++ ascii ".sha256"] :=
      pathJoin_suffix dst hnames (by decide) hsumNames
    unfold moveOrDeleteOneManifest
    dsimp only
    rw [pathBase_pathJoin srcDir hname hslash]
    refine calls_ok (calls_renameWithFallback hfile (hdst.join hnames) (hdst.dir_join hnames))
      (fun _ => trivial) fun ⟨⟩ => ?_
    refine calls_ok (calls_one rfl hsum) (fun _ => trivial) fun _ => ?_
    refine calls_bind (calls_renameWithFallback hsum ?_ ?_) fun _ => sat_ret trivial
    · exact inside_checksum hdst hnames
    · rw [hsumPath]
      exact hdst.dir_join hsumNames

theorem calls_moveOrDeleteEach (hsrc : Inside root srcDir)
    (htrash : ∀ dir, trashDir = some dir → Inside root dir) (entries : List DirEntry) :
    (moveOrDeleteEach srcDir trashDir entries).Calls (Within root) := by
  induction entries with
  | nil => exact sat_ret trivial
  | cons e rest ih =>
    refine calls_bind (calls_moveOrDeleteOneManifest hsrc htrash e.pathName e.slash) fun _ => ?_
    exact calls_bind ih fun _ => sat_ret trivial

theorem calls_moveOrDeleteAll (hsrc : Inside root srcDir)
    (htrash : ∀ dir, trashDir = some dir → Inside root dir) (entries : List DirEntry) :
    (moveOrDeleteAll srcDir trashDir entries).Calls (Within root) := by
  refine calls_bind (calls_moveOrDeleteEach hsrc htrash entries) fun _ => ?_
  refine calls_bind (calls_one rfl hsrc) fun remaining => ?_
  split
  · exact calls_bind (calls_one rfl hsrc) fun _ => sat_ret trivial
  · exact sat_ret trivial

section
variable (hdir : Inside root (manifestDir metaDir cloudID))
variable (htrash : Inside root (manifestTrashDir metaDir cloudID))
include hdir htrash

theorem calls_deleteOrTrashManifest (P : Primitives) (hook : DecryptHook) (trash : Bool)
    (timestamp deviceID : Bytes) :
    (deleteOrTrashManifest P hook trash metaDir cloudID timestamp deviceID).Calls
      (Within root) := by
  unfold deleteOrTrashManifest
  refine calls_ok (calls_readManifestFiles hdir.mayRead) (fun _ => trivial) fun entries => ?_
  -- the name that was found is one of the directory
  refine sat_bind (sat_forEachManifest hdir.mayRead P hook
    (fun s : Option Bytes => ∀ name, s = some name → PathName name ∧ slash ∉ name) ?_ _ nofun)
    fun r hr => ?_
  · intro e _ s m hs
    split
    · rintro name ⟨⟩
      exact ⟨e.pathName, e.slash⟩
    · exact hs
  obtain ⟨found, errs⟩ := r
  cases found with
  | none => exact sat_ret trivial
  | some name =>
    obtain ⟨hname, hslash⟩ := hr name rfl
    cases trash with
    | false =>
      show (moveOrDeleteOneManifest (pathJoin [manifestDir metaDir cloudID, name]) none).Calls _
      exact calls_moveOrDeleteOneManifest hdir (fun _ h => nomatch h) hname hslash
    | true =>
      refine calls_ok (calls_one rfl htrash) (fun _ => trivial) fun ⟨⟩ => ?_
      exact calls_moveOrDeleteOneManifest hdir (fun _ h => Option.some.inj h ▸ htrash) hname hslash

theorem calls_deleteOrTrashAllManifests (trash : Bool) :
    (deleteOrTrashAllManifests trash metaDir cloudID).Calls (Within root) := by
  unfold deleteOrTrashAllManifests
  refine calls_ok (calls_readManifestFiles hdir.mayRead) (by rintro ⟨⟩ <;> trivial) fun entries => ?_
  cases trash with
  | false =>
    have hnone : ∀ dir, (none : Option Bytes) = some dir → Inside root dir := nofun
    exact calls_bind (calls_moveOrDeleteAll hdir hnone entries) fun _ => sat_ret trivial
  | true =>
    refine calls_ok (calls_one rfl htrash) (fun _ => trivial) fun ⟨⟩ => ?_
    exact calls_bind (calls_moveOrDeleteAll hdir (fun _ h => Option.some.inj h ▸ htrash) entries)
      fun _ => sat_ret trivial

end

/-! ## Cleaning the trash -/

theorem calls_cleanEach (hdir : Inside root dir) (now maxAge : Int) (entries : List DirEntry) :
    (cleanEach dir now maxAge entries).Calls (Within root) := by
  induction entries with
  | nil => exact sat_ret trivial
  | cons e rest ih =>
    have hfile := hdir.join e.names
    refine calls_bind (calls_one rfl hfile) fun r => ?_
    rcases r with err | modTime
    · exact ih
    dsimp only
    split
    · refine calls_bind (calls_one rfl hfile) fun _ => ?_
      exact calls_bind ih fun _ => sat_ret trivial
    · exact ih

end

/-- The suffix of a registry file does not climb. -/
theorem levelsUp_jsonZst (cloudID : Bytes) :
    levelsUp (splitSlash (cloudID ++ jsonZst)) 0 ≤ levelsUp (splitSlash cloudID) 0 := by
  obtain ⟨front, last, hsplit⟩ : ∃ front last, splitSlash cloudID = front ++ [last] :=
    ⟨_, _, (dropLast_append_getLast (splitSlash_ne_nil cloudID)).symm⟩
  have hname : PathName (last ++ jsonZst) :=
    pathName_of_mem (mem_append_right _ (show (0x6a : UInt8) ∈ jsonZst by decide)) (by decide)
  rw [splitSlash_suffix (by decide) hsplit, levelsUp_append_name front hname, hsplit]
  exact levelsUp_append front [last] 0

theorem levelsUp_names {segs : List Bytes} (h : ∀ seg ∈ segs, PathName seg) :
    ∀ depth, levelsUp segs depth = 0 := by
  induction segs with
  | nil => exact fun _ => rfl
  | cons seg segs ih =>
    intro depth
    obtain ⟨hseg, hrest⟩ := forall_mem_cons.mp h
    rw [levelsUp_name segs hseg, ih hrest]

/-- A directory below a subdirectory of the metadata. -/
theorem inside_sub (metaDir : Bytes) {sub : Bytes} (hsub : PathName sub) (hslash : slash ∉ sub)
    (hb : PathNames b) : Inside metaDir (pathJoin [metaDir, sub, b]) := by
  refine inside_join_levels hsub hslash metaDir ?_
  rw [levelsUp_names hb]
  exact Nat.zero_le 1

theorem pathName_manifests : PathName (ascii "manifests") := ⟨by decide, by decide⟩

theorem pathName_trash : PathName (ascii "trash") := ⟨by decide, by decide⟩

theorem pathName_sources : PathName (ascii "_sources") := ⟨by decide, by decide⟩

theorem names_sources : PathNames (ascii "_sources") :=
  names_of_notMem pathName_sources (by decide)

/-- A registry of the trash is two levels below the metadata. -/
theorem inside_trashRegistry (metaDir : Bytes) (hlevels : levelsUp (splitSlash cloudID) 0 ≤ 1) :
    Inside metaDir
      (pathJoin [pathJoin [metaDir, ascii "trash", ascii "_sources"], cloudID ++ jsonZst]) := by
  have helems := pathElems_sub_name pathName_trash (by decide) metaDir pathName_sources (by decide)
  refine inside_join_below ?_ (rooted_pathJoin_sub pathName_trash (by decide) metaDir _) ?_ helems ?_
  · -- an empty path has no elements
    intro hnil
    rw [hnil] at helems
    have hlen := congrArg List.length helems
    rw [length_append] at hlen
    exact absurd hlen (by simp [show pathElems [] = [] from rfl])
  · intro seg hseg
    rcases mem_cons.mp hseg with rfl | hseg
    · exact pathName_trash
    · exact mem_singleton.mp hseg ▸ pathName_sources
  · exact Nat.le_trans (levelsUp_jsonZst cloudID) (Nat.le_trans hlevels (by decide))

theorem calls_cleanTrashSourceRegistry (metaDir : Bytes)
    (hlevels : levelsUp (splitSlash cloudID) 0 ≤ 1) :
    (cleanTrashSourceRegistry metaDir cloudID).Calls (Within metaDir) := by
  have hdir := inside_sub metaDir pathName_trash (by decide) names_sources
  refine calls_bind (calls_one rfl (inside_trashRegistry metaDir hlevels)) fun _ => ?_
  refine calls_bind (calls_one rfl hdir) fun remaining => ?_
  split
  · exact calls_bind (calls_one rfl hdir) fun _ => sat_ret trivial
  · exact sat_ret trivial

theorem calls_removeEmptyTrashFingerprintDir {metaDir sourceDir : Bytes}
    (hparent : Inside metaDir (pathDir sourceDir)) :
    (removeEmptyTrashFingerprintDir metaDir sourceDir).Calls (Within metaDir) := by
  unfold removeEmptyTrashFingerprintDir
  dsimp only
  split
  · exact sat_ret trivial
  refine calls_ok (calls_one rfl hparent) (fun _ => trivial) fun siblings => ?_
  dsimp only
  split
  · exact calls_bind (calls_one rfl hparent) fun _ => sat_ret trivial
  · exact sat_ret trivial

/-- The directory above the one of the source is looked at as well. -/
theorem calls_cleanTrashManifestsForSource (metaDir : Bytes) (now maxAge : Int)
    (hlevels : levelsUp (splitSlash cloudID ++ [[dot, dot]]) 0 ≤ 1) :
    (cleanTrashManifestsForSource metaDir cloudID now maxAge).Calls (Within metaDir) := by
  have hless := Nat.le_trans (levelsUp_append (splitSlash cloudID) [[dot, dot]] 0) hlevels
  have hdir : Inside metaDir (manifestTrashDir metaDir cloudID) :=
    inside_join_levels pathName_trash (by decide) metaDir hless
  have hparent : Inside metaDir (pathDir (manifestTrashDir metaDir cloudID)) :=
    inside_dir_levels pathName_trash (by decide) metaDir hlevels
  unfold cleanTrashManifestsForSource
  refine calls_ok (calls_readManifestDirEntries hdir.mayRead) (by rintro ⟨⟩ <;> trivial) fun entries => ?_
  refine calls_bind (calls_cleanEach hdir now maxAge entries) fun _ => ?_
  refine calls_bind (calls_one rfl hdir) fun remaining => ?_
  split
  · refine calls_bind (calls_one rfl hdir) fun _ => ?_
    refine calls_bind (calls_cleanTrashSourceRegistry metaDir hless) fun _ => ?_
    exact calls_bind (calls_removeEmptyTrashFingerprintDir hparent) fun _ => sat_ret trivial
  · exact sat_ret trivial

/-! ## Writing -/

section

/-- The staging file lies next to its target. -/
theorem inside_tempPath (hdir : Inside root dir) (hb : PathNames b) (huuid : slash ∉ uuid) :
    Inside root (tempPath (pathJoin [dir, b]) uuid) := by
  have hslash : slash ∉ ascii "." ++ (uuid ++ ascii ".tmp") := by
    intro hmem
    rcases mem_append.mp hmem with hmem | hmem
    · exact absurd hmem (by decide)
    rcases mem_append.mp hmem with hmem | hmem
    · exact huuid hmem
    · exact absurd hmem (by decide)
  have ht : (0x74 : UInt8) ∈ ascii "." ++ (uuid ++ ascii ".tmp") :=
    mem_append_right _ (mem_append_right _ (by decide))
  rw [tempPath, append_assoc, append_assoc]
  exact hdir.join_suffix hb hslash ht (by decide)

theorem within_writeStagingFile (h : Inside root path) (data : Bytes) :
    (writeStagingFile path data).Calls (Within root) :=
  staging_calls (within_one rfl h) (within_one rfl h) (within_one rfl h) (within_one rfl h)
    (within_one rfl h)

theorem within_syncParentDir (h : Inside root dir) : (syncParentDir dir).Calls (Within root) :=
  sync_calls (within_one rfl h) (within_one rfl h) (within_one rfl h)

theorem within_commitFileNoReplace (hsource : Inside root source) (htarget : Inside root target)
    (hparent : Inside root (pathDir target)) :
    (commitFileNoReplace source target).Calls (Within root) := by
  unfold commitFileNoReplace
  refine calls_ok (sat_ask (within_two rfl hsource htarget)) (fun _ => trivial) fun ⟨⟩ => ?_
  refine calls_ok (calls_one rfl hsource) (fun _ => trivial) fun ⟨⟩ => ?_
  exact within_syncParentDir hparent

theorem within_writeFileAtomic (hpath : Inside root path) (hparent : Inside root (pathDir path))
    (htmp : Inside root (tempPath path uuid)) (data : Bytes) :
    (writeFileAtomic uuid path data).Calls (Within root) :=
  atomic_calls (within_one rfl hparent) (within_writeStagingFile htmp data)
    (within_two rfl htmp hpath) (within_one rfl htmp) (within_syncParentDir hparent)

end

/-- The candidates lie in the directory of the source. -/
theorem candidate_join (metaDir : Bytes) {deviceID : Bytes} (unix : Int)
    (hcloud : PathNames cloudID) (hdevice : PathNames deviceID) (job : SaveJob)
    (hjob : job.stem = trimSuffix jsonZst (manifestFilePath metaDir cloudID unix deviceID))
    (attempt : Nat) (random : Bytes) :
    ∃ b, PathNames b ∧
      job.candidate attempt random = pathJoin [manifestDir metaDir cloudID, b] := by
  have hname := pathName_savedName unix hdevice (attemptSuffix attempt random)
    (notMem_attemptSuffix (by decide) (by decide))
  refine ⟨_, hname, ?_⟩
  rw [candidate_eq metaDir unix hcloud hdevice job hjob, manifestDir_eq metaDir hcloud,
    pathJoin_renderPath (cleanElems_manifestDir metaDir hcloud)
      (manifestDirElems_ne_nil metaDir cloudID) hname]
  rfl

theorem calls_saveManifestWithKey (P : Primitives) (hkdf : KeyDerivation) (metaDir : Bytes)
    (m : Manifest) (key : Bytes) (env : SaveInputs) :
    (saveManifestWithKey P hkdf metaDir m key env).Calls (Within metaDir) := by
  unfold saveManifestWithKey
  split
  · exact sat_ret trivial
  rename_i job hjob
  -- the identifiers have been checked, so all names stay below the metadata
  obtain ⟨-, hcloud, hdevice, hfields⟩ := prepareSave_ok.mp hjob
  have hcloud := (validateCloudID_ok hcloud).2
  have hdevice := (validateCloudID_ok hdevice).2
  have hdir : Inside metaDir (manifestDir metaDir m.saveCloudID) :=
    inside_sub metaDir pathName_manifests (by decide) hcloud
  have hcand := candidate_join metaDir (m.saveUnix env.now) hcloud hdevice job
    (congrArg SaveJob.stem hfields)
  obtain ⟨b, hb, hpath⟩ := hcand 0 []
  have hstaging : Inside metaDir job.staging := by
    have huuid : job.uuid = env.uuid := congrArg SaveJob.uuid hfields
    show Inside metaDir (tempPath (job.candidate 0 []) job.uuid)
    rw [hpath, huuid]
    exact inside_tempPath hdir hb env.uuid_slash
  have hparent : Inside metaDir (pathDir job.path) := by
    show Inside metaDir (pathDir (job.candidate 0 []))
    rw [hpath]
    exact hdir.dir_join hb
  refine calls_ok (calls_one rfl hparent) (fun _ => trivial) fun ⟨⟩ => ?_
  dsimp only
  split
  · exact sat_ret trivial
  refine calls_ok (within_writeStagingFile hstaging _) (fun _ => trivial) fun ⟨⟩ => ?_
  refine calls_commitAttempts (fun q hq => mem_singleton.mp hq ▸ hstaging)
    (fun attempt bytes => ?_) 8 0
  obtain ⟨b, hb, hname⟩ := hcand attempt bytes
  rw [hname]
  exact within_commitFileNoReplace hstaging (hdir.join hb) (hdir.dir_join hb)

/-! ## Registries -/

section
variable (metaDir : Bytes)

theorem inside_sourceRegistriesDir : Inside metaDir (sourceRegistriesDir metaDir) :=
  inside_sub metaDir pathName_manifests (by decide) names_sources

/-- The file of a registry, for an identifier that passes the check. -/
theorem names_registryFile (h : validateCloudID cloudID = .ok ()) :
    PathNames (cloudID ++ jsonZst) :=
  names_suffix (validateCloudID_ok h).2 (by decide) (show (0x6a : UInt8) ∈ jsonZst by decide)
    (by decide)

variable (P : Primitives)

theorem calls_saveSourceRegistry (huuid : slash ∉ uuid) (reg : SourceRegistry) :
    (saveSourceRegistry P metaDir uuid reg).Calls (Within metaDir) := by
  have hdir := inside_sourceRegistriesDir metaDir
  unfold saveSourceRegistry
  split
  · exact sat_ret trivial
  rename_i hvalid
  have hfile := names_registryFile hvalid
  refine calls_ok (calls_one rfl hdir) (fun _ => trivial) fun ⟨⟩ => ?_
  refine calls_ok (calls_one rfl (hdir.dir_join hfile)) (fun _ => trivial) fun ⟨⟩ => ?_
  exact calls_bind (within_writeFileAtomic (hdir.join hfile) (hdir.dir_join hfile)
    (inside_tempPath hdir hfile huuid) _) fun _ => sat_ret trivial

theorem calls_loadSourceRegistry (cloudID : Bytes) :
    (loadSourceRegistry P metaDir cloudID).Calls (Within metaDir) := by
  unfold loadSourceRegistry
  split
  · exact sat_ret trivial
  rename_i hvalid
  have hpath := (inside_sourceRegistriesDir metaDir).join (names_registryFile hvalid)
  refine calls_bind (calls_one rfl hpath) fun r => ?_
  rcases r with e | data <;> exact sat_ret trivial

theorem calls_deleteSourceRegistry (cloudID : Bytes) :
    (deleteSourceRegistry metaDir cloudID).Calls (Within metaDir) := by
  unfold deleteSourceRegistry
  split
  · exact sat_ret trivial
  rename_i hvalid
  have hpath := (inside_sourceRegistriesDir metaDir).join (names_registryFile hvalid)
  have hremove : (Fs.remove (sourceRegistryPath metaDir cloudID) >>= fun r =>
      (pure (r.mapError RegistryError.remove) : FsProg _)).Calls (Within metaDir) :=
    calls_bind (calls_one rfl hpath) fun _ => sat_ret trivial
  refine calls_bind (calls_one rfl hpath) fun r => ?_
  rcases r with e | _
  · cases e with
    | notExist => exact sat_ret trivial
    | exist => exact hremove
    | crossDevice => exact hremove
    | other => exact hremove
  · exact hremove

end

/-! ## Which identifiers stay inside -/

/-- Every run of an operation fails with `ErrInvalidCloudID` or touches only paths inside
the directory of the metadata. -/
def Confined (metaDir : Bytes) (p : FsProg (Except OpError Unit)) : Prop :=
  ∀ calls r, p.Trace calls r →
    (∃ e : OpError, r = .error e ∧ e.isInvalidCloudID = true) ∨ ∀ c ∈ calls, Within metaDir c

/-- The identifiers that an operation keeps inside. Where they are not checked they may
climb one level, from the directory of all manifests to that of the metadata. -/
def ManifestOp.StaysInside (cloudID : Bytes) : ManifestOp → Prop
  | saveManifestWithKey _ _ _ => True
  | saveSourceRegistry _ _ _ => True
  | loadSourceRegistry => True
  | deleteSourceRegistry => True
  | loadManifestByTimestamp timestamp =>
    -- the timestamp is looked at first
    parseRFC3339 timestamp = none ∨ levelsUp (splitSlash cloudID) 0 ≤ 1
  | cleanTrashManifestsForSource _ _ =>
    -- the directory above the source is cleaned, too
    levelsUp (splitSlash cloudID ++ [[dot, dot]]) 0 ≤ 1
  | _ => levelsUp (splitSlash cloudID) 0 ≤ 1

theorem confined_of_calls {metaDir : Bytes} (h : p.Calls (Within metaDir)) : Confined metaDir p :=
  fun _ _ htrace => .inr (trace_of_sat h htrace).1

theorem calls_outcome {root : Bytes} {α : Type} {p : FsProg (Except OpError α)}
    (h : p.Calls (Within root)) : (outcome p).Calls (Within root) :=
  calls_bind h fun _ => sat_ret trivial

section

/-- A directory that cannot be listed ends an operation, after its first call. -/
theorem inside_of_confined (h : Confined metaDir p)
    (htrace : p.Trace [.readDir dir] (.error (.readDir .other))) :
    Inside metaDir dir := by
  rcases h _ _ htrace with ⟨e, he, hinvalid⟩ | hcalls
  · cases he
    cases hinvalid
  · exact hcalls _ (mem_singleton_self _) dir (mem_singleton_self _)

theorem levels_le_of_inside {sub : Bytes} (hsub : PathName sub) (hslash : slash ∉ sub)
    (h : Inside [] (pathJoin [[], sub, cloudID])) : levelsUp (splitSlash cloudID) 0 ≤ 1 := by
  by_contra hlevels
  exact not_inside_of_levels hsub hslash (Nat.lt_of_not_le hlevels) h

theorem levels_le_of_manifestDir (h : Inside [] (manifestDir [] cloudID)) :
    levelsUp (splitSlash cloudID) 0 ≤ 1 :=
  levels_le_of_inside pathName_manifests (by decide) h

/-- With an empty trash, the directory above that of the source is listed. -/
theorem trace_cleanTrash (metaDir cloudID : Bytes) (now maxAge : Int)
    (hparent : pathDir (manifestTrashDir metaDir cloudID) ≠ pathJoin [metaDir, ascii "trash"]) :
    ∃ calls, (outcome (cleanTrashManifestsForSource metaDir cloudID now maxAge)).Trace calls
        (.ok ()) ∧ .readDir (pathDir (manifestTrashDir metaDir cloudID)) ∈ calls := by
  let dir := manifestTrashDir metaDir cloudID
  let registries := pathJoin [metaDir, ascii "trash", ascii "_sources"]
  let file := pathJoin [registries, cloudID ++ jsonZst]
  have hregistry : (cleanTrashSourceRegistry metaDir cloudID).Trace
      [.remove file, .readDir registries, .remove registries] () :=
    ⟨.ok (), _, rfl, .ok [], _, rfl, .ok (), [], rfl, rfl, rfl⟩
  have hfinger : (removeEmptyTrashFingerprintDir metaDir dir).Trace [.readDir (pathDir dir)] () := by
    unfold removeEmptyTrashFingerprintDir
    dsimp only
    rw [if_neg hparent]
    exact ⟨.error .other, [], rfl, rfl, rfl⟩
  have hend : (do
      cleanTrashSourceRegistry metaDir cloudID
      removeEmptyTrashFingerprintDir metaDir dir
      return .ok 0 : FsProg (Except OpError Nat)).Trace _ (.ok 0) :=
    trace_bind hregistry (trace_bind hfinger ⟨rfl, rfl⟩)
  have hclean : (cleanTrashManifestsForSource metaDir cloudID now maxAge).Trace _ (.ok 0) :=
    ⟨.ok [], _, rfl, .ok [], _, rfl, .ok (), _, rfl, hend⟩
  refine ⟨_, trace_bind hclean ⟨rfl, rfl⟩, ?_⟩
  simp [dir]

/-- The directory of the metadata has a parent that is not inside. -/
theorem levels_le_of_cleanTrash {now maxAge : Int}
    (h : ∀ metaDir, Confined metaDir
      (outcome (cleanTrashManifestsForSource metaDir cloudID now maxAge))) :
    levelsUp (splitSlash cloudID ++ [[dot, dot]]) 0 ≤ 1 := by
  have hless : levelsUp (splitSlash cloudID) 0 ≤ 1 :=
    levels_le_of_inside pathName_trash (by decide)
      (inside_of_confined (h []) ⟨.error .other, [], rfl, rfl, rfl⟩)
  by_contra hlevels
  obtain ⟨names, -, helems, hup⟩ :=
    exists_names_of_levels pathName_trash (by decide) (ascii "m") hless
  -- the identifier leads to the directory of the metadata itself
  have hnil : names = [] := by
    by_contra hne
    rw [hup, if_neg hne] at hlevels
    exact hlevels hless
  have hone : levelsUp (splitSlash cloudID) 0 = 1 := by
    rw [hup, if_pos hnil] at hlevels
    omega
  have hdir : manifestTrashDir (ascii "m") cloudID = ascii "m" := by
    show pathJoin [ascii "m", ascii "trash", cloudID] = _
    rw [pathJoin_sub pathName_trash (by decide),
      ← pathElems_pathJoin_sub pathName_trash (by decide), helems, hone, hnil]
    decide
  obtain ⟨calls, htrace, hmem⟩ := trace_cleanTrash (ascii "m") cloudID now maxAge
    (by rw [hdir]; decide)
  rcases h (ascii "m") _ _ htrace with ⟨e, he, -⟩ | hcalls
  · cases he
  · have hparent := hcalls _ hmem _ (mem_singleton_self _)
    rw [hdir] at hparent
    obtain ⟨names, -, helems⟩ := hparent.elems
    have hlen := congrArg List.length helems
    rw [length_append, show (pathElems (pathDir (ascii "m"))).length = 0 by decide,
      show (pathElems (ascii "m")).length = 1 by decide] at hlen
    omega

end

/-- **Which identifiers keep an operation inside the directory of the metadata**,
whatever that directory is and whatever the file system answers. -/
theorem confined_iff (P : Primitives) (hkdf : KeyDerivation) (hook : DecryptHook)
    (op : ManifestOp) (cloudID : Bytes) :
    (∀ metaDir, Confined metaDir (op.run P hkdf hook metaDir cloudID)) ↔
      op.StaysInside cloudID := by
  -- without a check, the first call lists the directory of the source
  have hunchecked : ∀ {α : Type} {p : Bytes → FsProg (Except OpError α)},
      (outcome (p [])).Trace [.readDir (manifestDir [] cloudID)] (.error (.readDir .other)) →
      (∀ {metaDir}, Inside metaDir (manifestDir metaDir cloudID) →
        Inside metaDir (manifestTrashDir metaDir cloudID) → (p metaDir).Calls (Within metaDir)) →
      ((∀ metaDir, Confined metaDir (outcome (p metaDir))) ↔ levelsUp (splitSlash cloudID) 0 ≤ 1) :=
    fun htrace hcalls =>
      ⟨fun h => levels_le_of_manifestDir (inside_of_confined (h []) htrace), fun h metaDir =>
        confined_of_calls (calls_outcome (hcalls
          (inside_join_levels pathName_manifests (by decide) metaDir h)
          (inside_join_levels pathName_trash (by decide) metaDir h)))⟩
  cases op with
  | saveManifestWithKey m key env =>
    exact iff_of_true (fun metaDir => confined_of_calls
      (calls_outcome (calls_saveManifestWithKey P hkdf metaDir _ key env))) trivial
  | saveSourceRegistry reg uuid huuid =>
    exact iff_of_true (fun metaDir => confined_of_calls
      (calls_bind (calls_saveSourceRegistry metaDir P huuid _) fun _ => sat_ret trivial)) trivial
  | loadSourceRegistry =>
    exact iff_of_true (fun metaDir => confined_of_calls
      (calls_bind (calls_loadSourceRegistry metaDir P cloudID) fun _ => sat_ret trivial)) trivial
  | deleteSourceRegistry =>
    exact iff_of_true (fun metaDir => confined_of_calls
      (calls_bind (calls_deleteSourceRegistry metaDir cloudID) fun _ => sat_ret trivial)) trivial
  | loadLatestManifest =>
    exact hunchecked ⟨.error .other, [], rfl, rfl, rfl⟩ fun hdir _ =>
      calls_loadLatestManifest P hook hdir.mayRead
  | loadManifestByTimestamp timestamp =>
    show (∀ metaDir, Confined metaDir
      (outcome (loadManifestByTimestamp P hook metaDir cloudID timestamp))) ↔ _ ∨ _
    cases hts : parseRFC3339 timestamp with
    | none =>
      -- a timestamp that cannot be read ends the operation at once
      refine iff_of_true (fun metaDir => confined_of_calls (calls_outcome ?_)) (.inl rfl)
      unfold loadManifestByTimestamp
      rw [hts]
      exact sat_ret trivial
    | some t =>
      refine (hunchecked ?_ fun hdir _ => calls_loadManifestByTimestamp P hook hdir.mayRead timestamp).trans
        (or_iff_right nofun).symm
      unfold loadManifestByTimestamp
      rw [hts]
      exact ⟨.error .other, [], rfl, rfl, rfl⟩
  | listManifests =>
    exact hunchecked ⟨.error .other, [], rfl, rfl, rfl⟩ fun hdir _ =>
      calls_listManifests P hook hdir.mayRead
  | deleteManifest timestamp deviceID =>
    exact hunchecked ⟨.error .other, [], rfl, rfl, rfl⟩ fun hdir htrash =>
      calls_deleteOrTrashManifest hdir htrash P hook false timestamp deviceID
  | trashManifest timestamp deviceID =>
    exact hunchecked ⟨.error .other, [], rfl, rfl, rfl⟩ fun hdir htrash =>
      calls_deleteOrTrashManifest hdir htrash P hook true timestamp deviceID
  | deleteAllSourceManifests =>
    exact hunchecked ⟨.error .other, [], rfl, rfl, rfl⟩ fun hdir htrash =>
      calls_deleteOrTrashAllManifests hdir htrash false
  | trashAllSourceManifests =>
    exact hunchecked ⟨.error .other, [], rfl, rfl, rfl⟩ fun hdir htrash =>
      calls_deleteOrTrashAllManifests hdir htrash true
  | cleanTrashManifestsForSource now maxAge =>
    exact ⟨levels_le_of_cleanTrash, fun h metaDir => confined_of_calls (calls_outcome
      (calls_cleanTrashManifestsForSource metaDir now maxAge h))⟩
  | collectAliveHashesStreaming =>
    exact hunchecked ⟨.error .other, [], rfl, rfl, rfl⟩ fun hdir _ =>
      calls_collectAliveHashesStreaming P hook hdir.mayRead

/-- `DeleteAllSourceManifests("m", "../../x")` removes the directory `x` next to `m`, if it
is empty. -/
theorem deleteAll_leaves_metaDir :
    (outcome (deleteAllSourceManifests (ascii "m") (ascii "../../x"))).Trace
        [.readDir (ascii "x"), .readDir (ascii "x"), .remove (ascii "x")] (.ok ()) ∧
      ¬ Confined (ascii "m") (outcome (deleteAllSourceManifests (ascii "m") (ascii "../../x"))) := by
  have hdir : manifestDir (ascii "m") (ascii "../../x") = ascii "x" := by decide
  have htrace : (outcome (deleteAllSourceManifests (ascii "m") (ascii "../../x"))).Trace
      [.readDir (ascii "x"), .readDir (ascii "x"), .remove (ascii "x")] (.ok ()) := by
    unfold deleteAllSourceManifests deleteOrTrashAllManifests
    rw [hdir]
    exact ⟨.ok [], _, rfl, .ok [], _, rfl, .ok (), [], rfl, rfl, rfl⟩
  refine ⟨htrace, fun h => ?_⟩
  rcases h _ _ htrace with ⟨e, he, -⟩ | hcalls
  · cases he
  · have hin := hcalls _ mem_cons_self _ (mem_singleton_self _)
    obtain ⟨names, -, helems⟩ := hin.elems
    have hhead := congrArg List.head? helems
    rw [show pathElems (ascii "x") = [ascii "x"] by decide,
      show pathElems (ascii "m") = [ascii "m"] by decide] at hhead
    exact absurd (show some (ascii "x") = some (ascii "m") from hhead) (by decide)

end GbfCore
