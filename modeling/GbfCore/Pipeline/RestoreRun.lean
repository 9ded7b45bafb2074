import GbfCore.Lib.Calendar
import GbfCore.Lib.Handles
import GbfCore.Pipeline.Restore
import GbfCore.Pipeline.RestorePath

/-!
# A whole restore (restore.go, restore_secure.go, restore_secure_posix.go)

`SimpleRestore.Run` on POSIX, from the moment its manifest is loaded: it opens the target
directory, creates the directories of the manifest and then restores file by file. Every
file is written to a staging file next to its place and renamed. All of this is a program
over the calls of `Lib.Handles` and those of the blob store.

Progress reports, durations and the values of modes and times are left out, and so are
the texts by which the three writers name one and the same failure. A deferred `Cleanup`
stands on every path that leaves the function with the staging file still there; a second
`Close` of an `os.File` makes no system call.
-/

namespace GbfCore

open Prog

/-- The text of a UUID. -/
structure Uuid where
  text : Bytes
  slash : slash ∉ text

/-- What a stream of a blob delivers: these bytes, unless a read fails, which the decoder
then sees after it has written so many bytes. -/
structure BlobStream where
  data : Bytes
  broken : Option Nat

/-- The calls of a restore. -/
inductive RestoreCall where
  | dir (c : DirCall)
  /-- `store.Get` -/
  | get (hash : Bytes)
  /-- `store.GetStream` -/
  | getStream (hash : Bytes)
  /-- `ctx.Err() != nil` -/
  | cancelled
  | newUUID

namespace RestoreCall

/-- What a call answers. -/
abbrev Answer : RestoreCall → Type
  | dir c => c.Answer
  | get _ => Except Unit Bytes
  | getStream _ => Except Unit BlobStream
  | cancelled => Bool
  | newUUID => Uuid

end RestoreCall

/-- A program of a restore. -/
abbrev RestoreProg := Prog RestoreCall RestoreCall.Answer

/-- A call to the file system. -/
abbrev askDir (c : DirCall) : RestoreProg c.Answer := ask (RestoreCall.dir c)

/-- The errors of a `secureDir`. -/
inductive SecureError where
  /-- `os.ErrInvalid`, of `openSecurePath` -/
  | invalid (name : Bytes)
  | mkdir (name : Bytes) (e : DirError)
  /-- `restore path %s is or passes through a symlink; …` -/
  | symlink (name : Bytes)
  | openDir (name : Bytes) (e : DirError)
  | stat (name : Bytes) (e : DirError)
  | createStaging (e : DirError)
  | write (e : DirError)
  | chmod (e : DirError)
  | sync (e : DirError)
  | close (e : DirError)
  | rename (e : DirError)
  | syncDir (e : DirError)
deriving DecidableEq

/-- How the download of a file fails. -/
inductive DownloadError where
  | restore (e : RestoreError)
  | secure (e : SecureError)
  /-- a read of the stream fails -/
  | streamRead
  | cancelled
  /-- `download chunk %s: %w` -/
  | chunk (hashLog : Bytes) (e : DownloadError)
deriving DecidableEq

/-- How a restore fails. -/
inductive RunError where
  | mkdirTarget (e : DirError)
  | openTarget (e : DirError)
  /-- `restore directory %s: %w` -/
  | directoryPath (dirPath : Bytes) (e : RestorePathError)
  | directory (dirPath : Bytes) (e : SecureError)
  | cancelled
  /-- `restore %s: %w` -/
  | filePath (name : Bytes) (e : RestorePathError)
  /-- `restore %s: empty path` -/
  | emptyPath (name : Bytes)
  | file (name : Bytes) (e : SecureError)
  /-- `download %s: %w` -/
  | download (name : Bytes) (e : DownloadError)
deriving DecidableEq

/-! ## Directories -/

/-- How `Child` reports a failed open. -/
def childError (name : Bytes) : DirError → SecureError
  | .loop => .symlink name
  | .notDir => .symlink name
  | e => .openDir name e

/-- The open of `Child` after the directory was created, or found to exist. -/
def childRetry (dir : Nat) (name : Bytes) : RestoreProg (Except SecureError Nat) := do
  match ← askDir (.openDir dir name) with
  | .ok fd => return .ok fd
  | .error e => return .error (childError name e)

/-- `Child`. -/
def child (dir : Nat) (name : Bytes) : RestoreProg (Except SecureError Nat) := do
  match ← askDir (.openDir dir name) with
  | .ok fd => return .ok fd
  | .error .notExist =>
    match ← askDir (.mkdir dir name) with
    | .ok () => childRetry dir name
    | .error .exist => childRetry dir name
    | .error e => return .error (.mkdir name e)
  | .error e => return .error (childError name e)

/-- Close a handle that the walk opened. -/
def closeOwned (dir : Nat) (owned : Bool) : RestoreProg Unit :=
  if owned then do
    let _ ← askDir (.close dir)
    return ()
  else return ()

/-- The loop of `openSecurePath`; `owned` tells whether `dir` is not the root. -/
def openSecureFrom (dir : Nat) (owned : Bool) :
    List Bytes → RestoreProg (Except SecureError (Nat × Bool))
  | [] => return .ok (dir, owned)
  | name :: rest =>
    if name = [] ∨ isDotName name = true then return .error (.invalid name)
    else do
      let next ← child dir name
      closeOwned dir owned
      match next with
      | .error e => return .error e
      | .ok fd => openSecureFrom fd true rest

/-- `openSecurePath`. -/
def openSecurePath (root : Nat) (comps : List Bytes) :
    RestoreProg (Except SecureError (Nat × Bool)) :=
  openSecureFrom root false comps

/-- `openSecureDir`. -/
def openSecureDir (abs : Bytes) : RestoreProg (Except RunError Nat) := do
  match ← askDir (.openRoot abs) with
  | .ok fd => return .ok fd
  | .error .notExist =>
    match ← askDir (.mkdirAll abs) with
    | .error e => return .error (.mkdirTarget e)
    | .ok () =>
      match ← askDir (.openRoot abs) with
      | .ok fd => return .ok fd
      | .error e => return .error (.openTarget e)
  | .error e => return .error (.openTarget e)

/-! ## Staging files -/

/-- `posixStaging`. -/
structure SecureStaging where
  dir : Nat
  name : Bytes
  file : Nat

/-- The name of a staging file. -/
def stagingName (name : Bytes) (uuid : Uuid) : Bytes :=
  name ++ ascii "." ++ uuid.text ++ ascii ".tmp"

/-- `CreateStaging`. -/
def createStaging (dir : Nat) (name : Bytes) : RestoreProg (Except SecureError SecureStaging) := do
  let uuid ← ask RestoreCall.newUUID
  match ← askDir (.create dir (stagingName name uuid)) with
  | .error e => return .error (.createStaging e)
  | .ok fd => return .ok ⟨dir, stagingName name uuid, fd⟩

/-- `Cleanup`, with the file still open or closed before. -/
def cleanup (st : SecureStaging) (closed : Bool) : RestoreProg Unit :=
  if closed then do
    let _ ← askDir (.unlink st.dir st.name)
    return ()
  else do
    let _ ← askDir (.close st.file)
    let _ ← askDir (.unlink st.dir st.name)
    return ()

/-- Leave with this error, and clean up. -/
def abandon {ε α : Type} (st : SecureStaging) (closed : Bool) (e : ε) : RestoreProg (Except ε α) := do
  cleanup st closed
  return .error e

/-- `Commit`. -/
def commitStaging (st : SecureStaging) (finalName : Bytes) : RestoreProg (Except SecureError Unit) := do
  match ← askDir (.rename st.dir st.name finalName) with
  | .error e => abandon st true (.rename e)
  | .ok () =>
    match ← askDir (.sync st.dir) with
    | .error e => return .error (.syncDir e)
    | .ok () => return .ok ()

/-- What the three writers do once everything is written. -/
def finishStaging (st : SecureStaging) (finalName : Bytes) : RestoreProg (Except SecureError Unit) := do
  match ← askDir (.sync st.file) with
  | .error e => abandon st false (.sync e)
  | .ok () =>
    match ← askDir (.close st.file) with
    | .error e => abandon st true (.close e)
    | .ok () => commitStaging st finalName

/-- `WriteAtomic`. -/
def writeAtomic (dir : Nat) (name data : Bytes) (mode : Nat) :
    RestoreProg (Except SecureError Unit) := do
  match ← createStaging dir name with
  | .error e => return .error e
  | .ok st =>
    match ← askDir (.write st.file data) with
    | .error e => abandon st false (.write e)
    | .ok () =>
      match ← askDir (.chmod st.file mode) with
      | .error e => abandon st false (.chmod e)
      | .ok () => finishStaging st name

/-! ## Files -/

section
variable (P : Primitives) (dec : Decryptor)

/-- `DownloadBlob`. -/
def download (hash : Bytes) : RestoreProg (Except DownloadError Bytes) := do
  match ← ask (RestoreCall.get hash) with
  | .error () => return .error (.restore .get)
  | .ok ciphertext =>
    return (downloadBlob P dec (fun _ => some ciphertext) hash).mapError .restore

/-- Write to the staging file, as part of a download. -/
def writeStaging (st : SecureStaging) (data : Bytes) : RestoreProg (Except DownloadError Unit) := do
  let r ← askDir (.write st.file data)
  return r.mapError fun e => .secure (.write e)

/-- `restoreChunkStream`. -/
def restoreChunkTo (st : SecureStaging) (hash : Bytes) : RestoreProg (Except DownloadError Unit) := do
  match ← ask (RestoreCall.getStream hash) with
  | .error () =>
    match ← download P dec hash with
    | .error e => return .error e
    | .ok plaintext => writeStaging st plaintext
  | .ok stream =>
    if stream.broken.isSome then return .error .streamRead
    else
      match decryptChunkBlobStream P dec stream.data hash with
      | .error e => return .error (.restore e)
      | .ok plaintext => writeStaging st plaintext

/-- The loop of `restoreChunkedFile`. -/
def restoreChunksTo (st : SecureStaging) : List ChunkRef → RestoreProg (Except DownloadError Unit)
  | [] => return .ok ()
  | c :: cs => do
    if ← ask RestoreCall.cancelled then return .error .cancelled
    else
      match ← restoreChunkTo P dec st c.hash with
      | .error e => return .error (.chunk (c.hash.take 12) e)
      | .ok () => restoreChunksTo st cs

/-- `finishStaging` after a `Chmod` whose failure is only logged. -/
def chmodAndFinish (st : SecureStaging) (mode : Nat) (name : Bytes) :
    RestoreProg (Except DownloadError Unit) := do
  let _ ← askDir (.chmod st.file mode)
  let r ← finishStaging st name
  return r.mapError .secure

/-- `restoreChunkedFile`. -/
def restoreChunkedTo (file : FileEntry) (dir : Nat) (name : Bytes) :
    RestoreProg (Except DownloadError Unit) := do
  match ← createStaging dir name with
  | .error e => return .error (.secure e)
  | .ok st =>
    match ← restoreChunksTo P dec st file.chunks with
    | .error e => abandon st false e
    | .ok () => chmodAndFinish st file.mode name

/-- Where the streaming decoder cuts its output into writes: behind every chunk. -/
structure WriteSizes where
  cut : Bytes → List Bytes
  flatten_cut : ∀ b, (cut b).flatten = b

variable (sizes : WriteSizes)

/-- The writes of the streaming decoder. -/
def writePieces (st : SecureStaging) : List Bytes → RestoreProg (Except DownloadError Unit)
  | [] => return .ok ()
  | piece :: rest => do
    match ← writeStaging st piece with
    | .error e => return .error e
    | .ok () => writePieces st rest

/-- `decryptStreamToFile` into a staging file through a `verifyingWriter`: the bytes that
were written. -/
def decryptTo (st : SecureStaging) (stream : BlobStream) : RestoreProg (Except DownloadError Bytes) := do
  let r := decryptStreamToFile P dec stream.data []
  match stream.broken with
  | some k =>
    match ← writePieces st (sizes.cut (r.dst.take k)) with
    | .error e => return .error e
    | .ok () => return .error .streamRead
  | none =>
    match ← writePieces st (sizes.cut r.dst) with
    | .error e => return .error e
    | .ok () =>
      match r.err with
      | some e => return .error (.restore (.streamDecrypt e))
      | none => return .ok r.dst

/-- `downloadBlobToSecureDir`. -/
def downloadBlobTo (hash : Bytes) (dir : Nat) (name : Bytes) (mode : Nat) (expectedSize : Int) :
    RestoreProg (Except DownloadError Unit) := do
  match ← ask (RestoreCall.getStream hash) with
  | .error () =>
    match ← download P dec hash with
    | .error e => return .error e
    | .ok plaintext =>
      if (plaintext.length : Int) ≠ expectedSize then
        return .error (.restore (.sizeMismatch expectedSize plaintext.length))
      else
        let r ← writeAtomic dir name plaintext mode
        return r.mapError .secure
  | .ok stream =>
    match ← createStaging dir name with
    | .error e => return .error (.secure e)
    | .ok st =>
      match ← decryptTo P dec sizes st stream with
      | .error e => abandon st false e
      | .ok written =>
        if P.contentHash written ≠ hash then
          abandon st false (.restore (.contentHashMismatch hash (P.contentHash written)))
        else if (written.length : Int) ≠ expectedSize then
          abandon st false (.restore (.sizeMismatch expectedSize written.length))
        else chmodAndFinish st mode name

/-- The branch of `Run` for the content of an entry. -/
def restoreContent (file : FileEntry) (dir : Nat) (name : Bytes) :
    RestoreProg (Except DownloadError Unit) :=
  if file.chunks ≠ [] then restoreChunkedTo P dec file dir name
  else if (defaultChunkSize : Int) ≤ file.size then
    downloadBlobTo P dec sizes file.contentHash dir name file.mode file.size
  else do
    match ← download P dec file.contentHash with
    | .error e => return .error e
    | .ok plaintext =>
      let r ← writeAtomic dir name plaintext file.mode
      return r.mapError .secure

/-! ## The run -/

/-- What `Run` is configured with. -/
structure RestoreConfig where
  cwd : WorkDir
  targetDir : Bytes
  overwrite : Bool

variable (cfg : RestoreConfig)

/-- The time is set, unless it is the zero `time.Time`. -/
def hasMtime (file : FileEntry) : Bool :=
  match parseRFC3339 file.mtime with
  | none => false
  | some time => decide (time ≠ (-62135596800, 0))

/-- The rest of the work on an entry, in the directory it goes to: whether it was restored
or skipped. -/
def restoreInto (file : FileEntry) (dir : Nat) (name : Bytes) :
    RestoreProg (Except RunError Bool) := do
  match ← restoreContent P dec sizes file dir name with
  | .error e => return .error (.download file.name e)
  | .ok () =>
    if hasMtime file then
      let _ ← askDir (.utimes dir name)
      return .ok true
    else return .ok true

/-- The check for a file that is not to be overwritten. -/
def existsIn (file : FileEntry) (dir : Nat) (name : Bytes) :
    RestoreProg (Except RunError Bool) :=
  if cfg.overwrite then return .ok false
  else do
    match ← askDir (.stat dir name) with
    | .ok () => return .ok true
    | .error .notExist => return .ok false
    | .error e => return .error (.file file.name (.stat name e))

/-- An entry whose path is `dirComps` and `name`. -/
def restoreAt (root : Nat) (file : FileEntry) (dirComps : List Bytes) (name : Bytes) :
    RestoreProg (Except RunError Bool) := do
  match ← openSecurePath root dirComps with
  | .error e => return .error (.file file.name e)
  | .ok (dir, owned) =>
    let present ← existsIn cfg file dir name
    let r ← match present with
      | .error e => pure (.error e)
      | .ok true => pure (.ok false)
      | .ok false => restoreInto P dec sizes file dir name
    closeOwned dir owned
    return r

/-- One turn of the file loop of `Run`. -/
def restoreEntry (root : Nat) (file : FileEntry) : RestoreProg (Except RunError Bool) :=
  if file.isRestorable = false then return .ok false
  else
    match safeRestoreComponents cfg.cwd cfg.targetDir file.name with
    | .error e => return .error (.filePath file.name e)
    | .ok comps =>
      match comps.getLast? with
      | none => return .error (.emptyPath file.name)
      | some name => restoreAt P dec sizes cfg root file comps.dropLast name

/-- `RestoreResult`. -/
structure RestoreResult where
  restoredFiles : Nat
  restoredBytes : Int
  skippedFiles : Nat
deriving DecidableEq

/-- Count an entry. -/
def RestoreResult.count (r : RestoreResult) (file : FileEntry) (restored : Bool) : RestoreResult :=
  if restored then ⟨r.restoredFiles + 1, wrap64 (r.restoredBytes + file.size), r.skippedFiles⟩
  else { r with skippedFiles := r.skippedFiles + 1 }

/-- The file loop of `Run`. -/
def restoreFiles (root : Nat) :
    List FileEntry → RestoreResult → RestoreProg (Except RunError RestoreResult)
  | [], result => return .ok result
  | file :: rest, result => do
    if ← ask RestoreCall.cancelled then return .error .cancelled
    else
      match ← restoreEntry P dec sizes cfg root file with
      | .error e => return .error e
      | .ok restored => restoreFiles root rest (result.count file restored)

/-- The directory loop of `Run`. -/
def restoreSkeleton (root : Nat) : List Bytes → RestoreProg (Except RunError Unit)
  | [] => return .ok ()
  | dirPath :: rest =>
    if dirPath = [] then restoreSkeleton root rest
    else
      match safeRestoreComponents cfg.cwd cfg.targetDir dirPath with
      | .error e => return .error (.directoryPath dirPath e)
      | .ok comps => do
        match ← openSecurePath root comps with
        | .error e => return .error (.directory dirPath e)
        | .ok (dir, owned) =>
          closeOwned dir owned
          restoreSkeleton root rest

/-- `Run` with the target open. -/
def restoreBelow (root : Nat) (keys : List Bytes) (files : List FileEntry) :
    RestoreProg (Except RunError RestoreResult) := do
  match ← restoreSkeleton cfg root keys with
  | .error e => return .error e
  | .ok () => restoreFiles P dec sizes cfg root files ⟨0, 0, 0⟩

/-- `SimpleRestore.Run` behind the load of the manifest. Go ranges over the directories in
any order: `keys` and `files` are those of the manifest in the order of this run. -/
def restoreRun (keys : List Bytes) (files : List FileEntry) :
    RestoreProg (Except RunError RestoreResult) := do
  match ← openSecureDir (pathAbs cfg.cwd cfg.targetDir) with
  | .error e => return .error e
  | .ok root =>
    let r ← restoreBelow P dec sizes cfg root keys files
    let _ ← askDir (.close root)
    return r

end

end GbfCore
