import GbfCore.Manifest.Alive
import GbfCore.Manifest.Listing
import GbfCore.Manifest.Registry

/-!
# The operations on the manifests of a source (manifest.go)

Every exported operation that takes a `cloudID`, as a program over file-system calls.
The readers list a directory and load what they find there, newest first or all of it;
the others delete or move manifests together with their checksum files.
-/

namespace GbfCore

open Json Prog

/-- How an operation fails. -/
inductive OpError where
  | timestamp
  | readDir (e : FsError)
  | notFound
  | load (e : LoadError)
  | createTrash (e : FsError)
  | move (e : FsError)
  | remove (e : FsError)
  | prepare (e : SaveError)
  | mkdir (e : FsError)
  /-- no random bytes for the initialisation vector -/
  | iv
  | stage (e : FsError)
  /-- no random bytes for the suffix -/
  | suffix
  /-- all names are taken -/
  | conflict
  | commit (e : FsError)
  | registry (e : RegistryError)
  | registrySave (e : RegistrySaveError)
deriving DecidableEq, Repr

/-- The error wraps `ErrInvalidCloudID`. -/
def OpError.isInvalidCloudID : OpError → Bool
  | prepare (.cloudID _) => true
  | prepare (.deviceID _) => true
  | registry (.cloudID _) => true
  | registrySave (.cloudID _) => true
  | _ => false

/-! ## Reading manifests -/

/-- `readManifestDirEntries`. -/
def readManifestDirEntries (dir : Bytes) : FsProg (Except FsError (List DirEntry)) := do
  let entries ← Fs.readDir dir
  return entries.map fun l => l.filter fun e => !e.isDir

/-- `readManifestFiles`. -/
def readManifestFiles (dir : Bytes) : FsProg (Except FsError (List DirEntry)) := do
  let entries ← readManifestDirEntries dir
  return entries.map fun l => l.filter fun e => isManifestFile e.name

section
variable (P : Primitives) (hook : DecryptHook)

/-- `verifyManifestChecksum`. -/
def verifyChecksumFile (manifestPath data : Bytes) : FsProg (Except LoadError Unit) := do
  match ← Fs.readFile (manifestChecksumPath manifestPath) with
  | .error .notExist => return .error .checksumMissing
  | .error _ => return .error .read
  | .ok expected =>
    return if toUpper (trimSpace expected) ≠ toUpper (hexEncode (P.sha256 data)) then
      .error .checksumMismatch
    else .ok ()

/-- The checksum file is only asked for if the file has no envelope. -/
def checkLegacy (path data : Bytes) : FsProg (Except LoadError Unit) :=
  if isGBREnvelope data then return .ok () else verifyChecksumFile P path data

/-- `LoadManifest`. -/
def loadManifestFile (path : Bytes) : FsProg (Except LoadError Manifest) := do
  match ← Fs.readFile path with
  | .error _ => return .error .read
  | .ok data =>
    let checked ← checkLegacy P path data
    return checked.bind fun _ =>
      (loadManifestFromData P hook data).bind fun m => .ok { m with filePath := path }

section
variable {Q : FsCall → Prop} {path : Bytes} (hsum : Q (.readFile (manifestChecksumPath path)))
include hsum

theorem calls_checkLegacy (data : Bytes) : (checkLegacy P path data).Calls Q := by
  unfold checkLegacy
  split
  · exact sat_ret trivial
  · exact calls_ok (sat_ask hsum) (by rintro ⟨⟩ <;> trivial) fun _ => sat_ret trivial

/-- A manifest is read with its checksum file. -/
theorem calls_loadManifestFile (hfile : Q (.readFile path)) :
    (loadManifestFile P hook path).Calls Q := by
  refine calls_ok (sat_ask hfile) (fun _ => trivial) fun data => ?_
  exact calls_bind (calls_checkLegacy P hsum data) fun _ => sat_ret trivial

end

/-- Where every file can be read, the checksum file is checked as in `Load`. -/
theorem exec_verifyChecksumFile {P : Primitives} {path data : Bytes} {fs fs' : FileSystem}
    {r : Except LoadError Unit}
    (h : (verifyChecksumFile P path data).Exec (FsCall.Outcome fun _ => False) fs r fs') :
    r = verifyManifestChecksum P fs path data ∧ fs' = fs := by
  obtain ⟨expected, fs₁, hread, hrest⟩ := exec_bind.mp h
  obtain ⟨rfl, ⟨hfalse, -⟩ | ⟨-, hread⟩⟩ := exec_ask.mp hread
  · exact hfalse.elim
  unfold verifyManifestChecksum
  cases hfile : fs₁.read (manifestChecksumPath path) with
  | none =>
    rw [hfile] at hread
    subst hread
    exact hrest
  | some text =>
    rw [hfile] at hread
    subst hread
    exact hrest

/-- **The program loads what `loadManifest` says**, and changes nothing. -/
theorem exec_loadManifestFile {P : Primitives} {hook : DecryptHook} {path : Bytes}
    {fs fs' : FileSystem} {r : Except LoadError Manifest}
    (h : (loadManifestFile P hook path).Exec (FsCall.Outcome fun _ => False) fs r fs') :
    r = loadManifest P hook fs path ∧ fs' = fs := by
  obtain ⟨content, fs₁, hread, hrest⟩ := exec_bind.mp h
  obtain ⟨rfl, ⟨hfalse, -⟩ | ⟨-, hread⟩⟩ := exec_ask.mp hread
  · exact hfalse.elim
  unfold loadManifest
  cases hfile : fs₁.read path with
  | none =>
    rw [hfile] at hread
    subst hread
    exact hrest
  | some data =>
    rw [hfile] at hread
    subst hread
    obtain ⟨checked, fs₂, hcheck, hret⟩ := exec_bind.mp hrest
    unfold checkLegacy at hcheck
    dsimp only
    split at hcheck
    · -- an envelope carries its checksum
      rename_i henv
      obtain ⟨rfl, rfl⟩ := hcheck
      rw [if_pos henv]
      exact hret
    · rename_i henv
      obtain ⟨rfl, rfl⟩ := exec_verifyChecksumFile hcheck
      rw [if_neg henv]
      exact hret

/-- `forEachManifest`. The callback has a state, and tells whether to stop. -/
def forEachManifest {σ : Type} (dir : Bytes) (fn : σ → Manifest → Bytes → σ × Bool) :
    List DirEntry → σ → FsProg (σ × List (Bytes × LoadError))
  | [], s => return (s, [])
  | e :: rest, s => do
    match ← loadManifestFile P hook (pathJoin [dir, e.name]) with
    | .error err =>
      let r ← forEachManifest dir fn rest s
      return (r.1, (e.name, err) :: r.2)
    | .ok m =>
      if (fn s m e.name).2 then return ((fn s m e.name).1, [])
      else forEachManifest dir fn rest (fn s m e.name).1

/-- Load the first of these files that can be loaded, or the first error. -/
def loadFirst (dir : Bytes) :
    List Bytes → (firstErr : Option LoadError) → FsProg (Except (Option LoadError) Manifest)
  | [], firstErr => return .error firstErr
  | name :: rest, firstErr => do
    match ← loadManifestFile P hook (pathJoin [dir, name]) with
    | .ok m => return .ok m
    | .error e => loadFirst dir rest (firstErr.or (some e))

/-- `LoadManifestByTimestamp`. -/
def loadManifestByTimestamp (metaDir cloudID timestamp : Bytes) :
    FsProg (Except OpError Manifest) :=
  match parseRFC3339 timestamp with
  | none => return .error .timestamp
  | some (unix, _) => do
    let dir := manifestDir metaDir cloudID
    match ← readManifestFiles dir with
    | .error .notExist => return .error .notFound
    | .error e => return .error (.readDir e)
    | .ok entries =>
      let names := (entries.map DirEntry.name).filter fun name => decide (namePrefix unix <+: name)
      match ← loadFirst P hook dir names none with
      | .ok m => return .ok m
      | .error (some e) => return .error (.load e)
      | .error none => return .error .notFound

/-- `Time.UnixNano`: the nanoseconds since 1970 in an `int64`. They wrap around outside of the
years 1678 to 2262. -/
def unixNano (t : Int) : Int := wrap64 t

/-- A manifest file that `LoadLatestManifest` may load. -/
structure Candidate where
  name : Bytes
  unixSec : Int
  modNano : Int

/-- The order of `LoadLatestManifest`: the second, the time of the last change, the
name. -/
def Candidate.newer (a b : Candidate) : Bool :=
  if a.unixSec ≠ b.unixSec then decide (b.unixSec < a.unixSec)
  else if a.modNano ≠ b.modNano then decide (b.modNano < a.modNano)
  else decide (b.name < a.name)

/-- The files whose name tells a second. -/
def candidates (dir : Bytes) : List DirEntry → FsProg (List Candidate)
  | [] => return []
  | e :: rest =>
    match parseManifestFilenameTimestamp e.name with
    | none => candidates dir rest
    | some ts => do
      let unixSec := ((parseRFC3339 ts).map Prod.fst).getD 0
      let info ← Fs.stat (pathJoin [dir, e.name])
      let tail ← candidates dir rest
      return ⟨e.name, unixSec, (info.toOption.map unixNano).getD 0⟩ :: tail

/-- `LoadLatestManifest`. -/
def loadLatestManifest (metaDir cloudID : Bytes) : FsProg (Except OpError Manifest) := do
  let dir := manifestDir metaDir cloudID
  match ← readManifestFiles dir with
  | .error .notExist => return .error .notFound
  | .error e => return .error (.readDir e)
  | .ok entries =>
    let found ← candidates dir entries
    let sorted := found.insertionSort fun a b => !b.newer a
    match ← loadFirst P hook dir (sorted.map Candidate.name) none with
    | .ok m => return .ok m
    | .error (some e) => return .error (.load e)
    | .error none => return .error .notFound

/-- `ListManifests`; among equal timestamps the order is not determined. -/
def listManifests (metaDir cloudID : Bytes) :
    FsProg (Except OpError (List Manifest × List (Bytes × LoadError))) := do
  let dir := manifestDir metaDir cloudID
  match ← readManifestFiles dir with
  | .error .notExist => return .ok ([], [])
  | .error e => return .error (.readDir e)
  | .ok entries =>
    let r ← forEachManifest P hook dir (fun l m _ => (l ++ [m], false)) entries []
    return .ok (r.1.mergeSort fun a b => decide ¬ a.timestamp < b.timestamp, r.2)

/-- How `extractHashesFromManifestFile` fails. -/
inductive ExtractFileError where
  | load (e : LoadError)
  | extract (e : ExtractError)

/-- `extractHashesFromManifestFile`. -/
def extractHashesFromManifestFile (path : Bytes) :
    FsProg (Except ExtractFileError (List Bytes)) := do
  match ← Fs.readFile path with
  | .error _ => return .error (.load .read)
  | .ok data =>
    let checked ← checkLegacy P path data
    return (checked.mapError .load).bind fun _ =>
      ((manifestText P hook data).mapError .load).bind fun text =>
        (extractHashesFromJSON text).mapError .extract

/-- The loop of `CollectAliveHashesStreaming`. -/
def collectFrom (dir : Bytes) : List DirEntry → SortedMap Bytes Bool →
    FsProg (SortedMap Bytes Bool × List (Bytes × ExtractFileError))
  | [], alive => return (alive, [])
  | e :: rest, alive => do
    match ← extractHashesFromManifestFile P hook (pathJoin [dir, e.name]) with
    | .error err =>
      let r ← collectFrom dir rest alive
      return (r.1, (e.name, err) :: r.2)
    | .ok hashes => collectFrom dir rest (hashes.foldl (fun alive h => alive.insert h true) alive)

/-- `CollectAliveHashesStreaming`. -/
def collectAliveHashesStreaming (metaDir cloudID : Bytes) :
    FsProg (Except OpError (SortedMap Bytes Bool × List (Bytes × ExtractFileError))) := do
  let dir := manifestDir metaDir cloudID
  match ← readManifestFiles dir with
  | .error .notExist => return .ok (.empty, [])
  | .error e => return .error (.readDir e)
  | .ok entries =>
    let r ← collectFrom P hook dir entries .empty
    return .ok r

/-! ## Deleting manifests -/

/-- `ManifestTrashDir`. -/
def manifestTrashDir (metaDir cloudID : Bytes) : Bytes := pathJoin [metaDir, ascii "trash", cloudID]

/-- `renameWithFallback`: between two file systems the file is copied. The deferred
closes, whose errors are ignored, are left out. -/
def renameWithFallback (source target : Bytes) : FsProg (Except FsError Unit) := do
  match ← Fs.rename source target with
  | .ok () => return .ok ()
  | .error .crossDevice =>
    match ← Fs.openFile source with
    | .error e => return .error e
    | .ok () =>
      match ← Fs.mkdirAll (pathDir target) with
      | .error e => return .error e
      | .ok () =>
        match ← Fs.create target with
        | .error e => return .error e
        | .ok () =>
          match ← Fs.copy source target with
          | .error e =>
            let _ ← Fs.remove target
            return .error e
          | .ok () =>
            -- a source that cannot be removed is only logged
            let _ ← Fs.remove source
            return .ok ()
  | .error e => return .error e

/-- `moveOrDeleteOneManifest`; a trash directory is given to move the file there. -/
def moveOrDeleteOneManifest (srcPath : Bytes) : (trashDir : Option Bytes) →
    FsProg (Except OpError Unit)
  | some dstDir => do
    let dstPath := pathJoin [dstDir, pathBase srcPath]
    match ← renameWithFallback srcPath dstPath with
    | .error e => return .error (.move e)
    | .ok () =>
      match ← Fs.stat (manifestChecksumPath srcPath) with
      | .error _ => return .ok ()
      | .ok _ =>
        let _ ← renameWithFallback (manifestChecksumPath srcPath) (manifestChecksumPath dstPath)
        return .ok ()
  | none => do
    let _ ← Fs.remove (manifestChecksumPath srcPath)
    let r ← Fs.remove srcPath
    return r.mapError .remove

/-- `deleteOrTrashManifest`. -/
def deleteOrTrashManifest (trash : Bool) (metaDir cloudID timestamp deviceID : Bytes) :
    FsProg (Except OpError Unit) := do
  let srcDir := manifestDir metaDir cloudID
  match ← readManifestFiles srcDir with
  | .error e => return .error (.readDir e)
  | .ok entries =>
    let fn := fun (s : Option Bytes) (m : Manifest) (name : Bytes) =>
      if m.timestamp = timestamp ∧ m.deviceID = deviceID then (some name, true) else (s, false)
    let r ← forEachManifest P hook srcDir fn entries none
    match r.1 with
    | none => return .error .notFound
    | some name =>
      let srcPath := pathJoin [srcDir, name]
      if trash then
        let dstDir := manifestTrashDir metaDir cloudID
        match ← Fs.mkdirAll dstDir with
        | .error e => return .error (.createTrash e)
        | .ok () => moveOrDeleteOneManifest srcPath (some dstDir)
      else moveOrDeleteOneManifest srcPath none

/-- `DeleteManifest`. -/
def deleteManifest (metaDir cloudID timestamp deviceID : Bytes) : FsProg (Except OpError Unit) :=
  deleteOrTrashManifest P hook false metaDir cloudID timestamp deviceID

/-- `TrashManifest`. -/
def trashManifest (metaDir cloudID timestamp deviceID : Bytes) : FsProg (Except OpError Unit) :=
  deleteOrTrashManifest P hook true metaDir cloudID timestamp deviceID

end

/-- The loop of `deleteOrTrashAllManifests`; files that cannot be moved or deleted are
skipped. -/
def moveOrDeleteEach (srcDir : Bytes) (trashDir : Option Bytes) : List DirEntry → FsProg Nat
  | [] => return 0
  | e :: rest => do
    let r ← moveOrDeleteOneManifest (pathJoin [srcDir, e.name]) trashDir
    let n ← moveOrDeleteEach srcDir trashDir rest
    return if r.isOk then n + 1 else n

/-- The rest of `deleteOrTrashAllManifests` behind the creation of the trash
directory. -/
def moveOrDeleteAll (srcDir : Bytes) (trashDir : Option Bytes) (entries : List DirEntry) :
    FsProg Nat := do
  let count ← moveOrDeleteEach srcDir trashDir entries
  let remaining ← Fs.readDir srcDir
  if (remaining.toOption.getD []).isEmpty then
    let _ ← Fs.remove srcDir
    return count
  else return count

/-- `deleteOrTrashAllManifests`. -/
def deleteOrTrashAllManifests (trash : Bool) (metaDir cloudID : Bytes) :
    FsProg (Except OpError Nat) := do
  let srcDir := manifestDir metaDir cloudID
  match ← readManifestFiles srcDir with
  | .error .notExist => return .ok 0
  | .error e => return .error (.readDir e)
  | .ok entries =>
    if trash then
      let dstDir := manifestTrashDir metaDir cloudID
      match ← Fs.mkdirAll dstDir with
      | .error e => return .error (.createTrash e)
      | .ok () =>
        let n ← moveOrDeleteAll srcDir (some dstDir) entries
        return .ok n
    else
      let n ← moveOrDeleteAll srcDir none entries
      return .ok n

/-- `DeleteAllSourceManifests`. -/
def deleteAllSourceManifests (metaDir cloudID : Bytes) : FsProg (Except OpError Nat) :=
  deleteOrTrashAllManifests false metaDir cloudID

/-- `TrashAllSourceManifests`. -/
def trashAllSourceManifests (metaDir cloudID : Bytes) : FsProg (Except OpError Nat) :=
  deleteOrTrashAllManifests true metaDir cloudID

/-! ## Cleaning the trash -/

/-- `cleanTrashSourceRegistry`. -/
def cleanTrashSourceRegistry (metaDir cloudID : Bytes) : FsProg Unit := do
  let dir := pathJoin [metaDir, ascii "trash", ascii "_sources"]
  let _ ← Fs.remove (pathJoin [dir, cloudID ++ jsonZst])
  let remaining ← Fs.readDir dir
  if (remaining.toOption.getD []).isEmpty then
    let _ ← Fs.remove dir
    return ()
  else return ()

/-- `removeEmptyTrashFingerprintDir`. -/
def removeEmptyTrashFingerprintDir (metaDir sourceDir : Bytes) : FsProg Unit :=
  let parent := pathDir sourceDir
  if parent = pathJoin [metaDir, ascii "trash"] then return ()
  else do
    match ← Fs.readDir parent with
    | .error _ => return ()
    | .ok siblings =>
      if siblings.isEmpty then
        let _ ← Fs.remove parent
        return ()
      else return ()

/-- `Time.Sub`, which stops at the ends of a `Duration`. -/
def timeSub (t u : Int) : Int := max (-2 ^ 63) (min (2 ^ 63 - 1) (t - u))

/-- The loop of `CleanTrashManifestsForSource`. -/
def cleanEach (dir : Bytes) (now maxAge : Int) : List DirEntry → FsProg Nat
  | [] => return 0
  | e :: rest => do
    match ← Fs.stat (pathJoin [dir, e.name]) with
    | .error _ => cleanEach dir now maxAge rest
    | .ok modTime =>
      if maxAge < timeSub now modTime then
        let r ← Fs.remove (pathJoin [dir, e.name])
        let n ← cleanEach dir now maxAge rest
        return if r.isOk then n + 1 else n
      else cleanEach dir now maxAge rest

/-- `CleanTrashManifestsForSource`; times in nanoseconds. -/
def cleanTrashManifestsForSource (metaDir cloudID : Bytes) (now maxAge : Int) :
    FsProg (Except OpError Nat) := do
  let dir := manifestTrashDir metaDir cloudID
  match ← readManifestDirEntries dir with
  | .error .notExist => return .ok 0
  | .error e => return .error (.readDir e)
  | .ok entries =>
    let cleaned ← cleanEach dir now maxAge entries
    let remaining ← Fs.readDir dir
    if (remaining.toOption.getD []).isEmpty then
      let _ ← Fs.remove dir
      cleanTrashSourceRegistry metaDir cloudID
      removeEmptyTrashFingerprintDir metaDir dir
      return .ok cleaned
    else return .ok cleaned

/-! ## Saving a manifest -/

/-- Remove the staging file on the way to an error. -/
def abandonSave (job : SaveJob) (e : OpError) : FsProg (Except OpError Bytes) := do
  let _ ← Fs.remove job.staging
  return .error e

/-- The bytes of the suffix of an attempt; the first one has none. -/
def suffixBytes (random : Nat → Option Bytes) (attempt : Nat) : Option Bytes :=
  if attempt = 0 then some [] else random attempt

/-- The loop of `SaveManifestWithKey`, with this many attempts left. `random` are the
bytes for the suffixes, where they can be had. -/
def commitAttempts (job : SaveJob) (random : Nat → Option Bytes) :
    (left attempt : Nat) → FsProg (Except OpError Bytes)
  | 0, attempt =>
    -- the suffix is drawn before the attempts are counted
    match suffixBytes random attempt with
    | none => abandonSave job .suffix
    | some _ => abandonSave job .conflict
  | left + 1, attempt =>
    match suffixBytes random attempt with
    | none => abandonSave job .suffix
    | some bytes => do
      match ← commitFileNoReplace job.staging (job.candidate attempt bytes) with
      | .ok () => return .ok (job.candidate attempt bytes)
      | .error .exist => commitAttempts job random left (attempt + 1)
      | .error e => abandonSave job (.commit e)

/-- Beside its commits, the loop only removes the staging file. -/
theorem calls_commitAttempts {job : SaveJob} {random : Nat → Option Bytes} {Q : FsCall → Prop}
    (hremove : Q (.remove job.staging))
    (hcommit : ∀ attempt bytes,
      (commitFileNoReplace job.staging (job.candidate attempt bytes)).Calls Q) (left : Nat) :
    ∀ attempt, (commitAttempts job random left attempt).Calls Q := by
  have habandon : ∀ e, (abandonSave job e).Calls Q := fun _ =>
    calls_bind (sat_ask hremove) fun _ => sat_ret trivial
  induction left with
  | zero =>
    intro attempt
    unfold commitAttempts
    split <;> exact habandon _
  | succ left ih =>
    intro attempt
    unfold commitAttempts
    split
    · exact habandon _
    refine calls_bind (hcommit attempt _) fun r => ?_
    rcases r with e | ⟨⟩
    · cases e with
      | exist => exact ih (attempt + 1)
      | _ => exact habandon _
    · exact sat_ret trivial

section
variable (P : Primitives) (hkdf : KeyDerivation)

/-- What the surroundings give to a save: the time, the initialisation vector, a UUID
and three random bytes for each attempt behind the first. -/
structure SaveInputs where
  now : Int
  iv : IV
  /-- whether the bytes of the vector can be had -/
  ivRead : Bool
  uuid : Bytes
  uuid_slash : slash ∉ uuid
  random : Nat → Option Bytes
  random_length : ∀ {attempt bytes}, random attempt = some bytes → bytes.length = 3

/-- `SaveManifestWithKey`. -/
def saveManifestWithKey (metaDir : Bytes) (m : Manifest) (key : Bytes) (env : SaveInputs) :
    FsProg (Except OpError Bytes) :=
  match prepareSave P hkdf metaDir env.now key env.iv env.uuid m with
  | .error e => return .error (.prepare e)
  | .ok job => do
    match ← Fs.mkdirAll (pathDir job.path) with
    | .error e => return .error (.mkdir e)
    | .ok () =>
      if key ≠ [] ∧ env.ivRead = false then return .error .iv
      else
        match ← writeStagingFile job.staging (job.envelope P) with
        | .error e => return .error (.stage e)
        | .ok () => commitAttempts job env.random 8 0

end

/-! ## All of them -/

/-- The exported operations that take a `cloudID`, with their other arguments. -/
inductive ManifestOp where
  | saveManifestWithKey (m : Manifest) (key : Bytes) (env : SaveInputs)
  | loadLatestManifest
  | loadManifestByTimestamp (timestamp : Bytes)
  | listManifests
  | deleteManifest (timestamp deviceID : Bytes)
  | trashManifest (timestamp deviceID : Bytes)
  | deleteAllSourceManifests
  | trashAllSourceManifests
  | cleanTrashManifestsForSource (now maxAge : Int)
  | collectAliveHashesStreaming
  | saveSourceRegistry (reg : SourceRegistry) (uuid : Bytes) (uuid_slash : slash ∉ uuid)
  | loadSourceRegistry
  | deleteSourceRegistry

/-- Only whether it failed. -/
def outcome {α : Type} (p : FsProg (Except OpError α)) : FsProg (Except OpError Unit) := do
  let r ← p
  return r.map fun _ => ()

/-- Run an operation. The identifier of a save is in the manifest, that of a registry in
the registry. -/
def ManifestOp.run (P : Primitives) (hkdf : KeyDerivation) (hook : DecryptHook)
    (metaDir cloudID : Bytes) : ManifestOp → FsProg (Except OpError Unit)
  | .saveManifestWithKey m key env =>
    outcome (GbfCore.saveManifestWithKey P hkdf metaDir { m with cloudID := cloudID } key env)
  | .loadLatestManifest => outcome (GbfCore.loadLatestManifest P hook metaDir cloudID)
  | .loadManifestByTimestamp timestamp =>
    outcome (GbfCore.loadManifestByTimestamp P hook metaDir cloudID timestamp)
  | .listManifests => outcome (GbfCore.listManifests P hook metaDir cloudID)
  | .deleteManifest timestamp deviceID =>
    outcome (GbfCore.deleteManifest P hook metaDir cloudID timestamp deviceID)
  | .trashManifest timestamp deviceID =>
    outcome (GbfCore.trashManifest P hook metaDir cloudID timestamp deviceID)
  | .deleteAllSourceManifests => outcome (GbfCore.deleteAllSourceManifests metaDir cloudID)
  | .trashAllSourceManifests => outcome (GbfCore.trashAllSourceManifests metaDir cloudID)
  | .cleanTrashManifestsForSource now maxAge =>
    outcome (GbfCore.cleanTrashManifestsForSource metaDir cloudID now maxAge)
  | .collectAliveHashesStreaming =>
    outcome (GbfCore.collectAliveHashesStreaming P hook metaDir cloudID)
  | .saveSourceRegistry reg uuid _ => do
    let r ← GbfCore.saveSourceRegistry P metaDir uuid { reg with cloudID := cloudID }
    return r.mapError .registrySave
  | .loadSourceRegistry => do
    let r ← GbfCore.loadSourceRegistry P metaDir cloudID
    return (r.mapError .registry).map fun _ => ()
  | .deleteSourceRegistry => do
    let r ← GbfCore.deleteSourceRegistry metaDir cloudID
    return r.mapError .registry

end GbfCore
