import GbfCore.Blob.Encrypt
import GbfCore.Manifest.Types
import GbfCore.Pipeline.Incompressible

/-!
# Backing up one file (pipeline.go, chunk_cdc.go)

`processFile` turns a scanned file into a manifest entry and puts the blobs the
entry refers to. The file is live: it was measured by the scan, is read once to
hash it, and, unless the hash pass kept the bytes, read again to upload it. A
`Pass` is what one of these reads gets to see; nothing relates two passes, so
every way the file can change in between is covered.

The store answers truthfully or returns an error (`Env`). It keeps the first
blob put under a name.
-/

namespace GbfCore

/-! ## The live file -/

/-- What one pass over the file gets to see. -/
structure Pass where
  /-- Opening the file fails. -/
  openFails : Bool
  /-- The context is cancelled before turn `i` of the loop. -/
  cancelled : (i : Nat) → Bool
  /-- What the `i`-th `io.ReadFull` of `k` bytes at offset `off` delivers; fewer
  bytes mean the end of the file, `none` an I/O error. -/
  read : (i off k : Nat) → Option Bytes
  read_le : ∀ i off k b, read i off k = some b → b.length ≤ k
  /-- What reading to the end delivers. -/
  readAll : Option Bytes

/-- `scanEntry`. -/
structure ScanEntry where
  relPath : Bytes
  absPath : Bytes
  size : Nat
  mtime : Bytes
  mode : Nat

/-! ## The blob store -/

/-- The errors of a store, as far as the pipeline tells them apart. -/
inductive StoreError where
  | permissionDenied
  | transient
deriving DecidableEq

/-- The existence checks of one `processFile` call. -/
inductive Check where
  /-- `tryUnchangedEntry` before the hash pass -/
  | fastPath
  /-- `tryUnchangedEntry` after it -/
  | rehash
  /-- the previous chunks, in `uploadChangedChunks` -/
  | prevChunks
  /-- the first check of `checkAndUploadBlob` -/
  | sameHash
  /-- its second check -/
  | beforePut
deriving DecidableEq

/-- What surrounds one `processFile` call: the passes over the file, the failures
of the store and the random vectors. A check is made at most once for a hash. -/
structure Env where
  hashPass : Pass
  uploadPass : Pass
  /-- The store implements `BatchExistencer`. -/
  hasBatch : Bool
  batchErr : Check → Option StoreError
  existsErr : Check → (hash : Bytes) → Option StoreError
  putErr : (chunk : Nat) → Option StoreError
  draws : (chunk : Nat) → Draws

/-- The blobs of a store by name. -/
abbrev Blobs := Bytes → Option Bytes

/-- `Put` of a name that is taken keeps the blob that is there. -/
def Blobs.put (s : Blobs) (hash blob : Bytes) : Blobs :=
  fun h => if h = hash then (s h).or (some blob) else s h

/-- The blob is there. -/
def Blobs.has (s : Blobs) (hash : Bytes) : Prop :=
  (s hash).isSome = true

instance (s : Blobs) (hash : Bytes) : Decidable (s.has hash) :=
  inferInstanceAs (Decidable (_ = true))

theorem Blobs.has_put_self (s : Blobs) (hash blob : Bytes) : (s.put hash blob).has hash := by
  simp [Blobs.put, Blobs.has]

theorem Blobs.has_put_of_has {s : Blobs} {hash h : Bytes} (blob : Bytes) (hs : s.has h) :
    (s.put hash blob).has h := by
  by_cases heq : h = hash
  · rw [heq]
    exact s.has_put_self hash blob
  · simpa [Blobs.put, Blobs.has, heq] using hs

/-- Only the name that is put is new. -/
theorem Blobs.has_put_iff {s : Blobs} {hash h : Bytes} {blob : Bytes} :
    (s.put hash blob).has h ↔ s.has h ∨ h = hash := by
  constructor
  · intro hput
    by_cases heq : h = hash
    · exact .inr heq
    · exact .inl (by simpa [Blobs.put, Blobs.has, heq] using hput)
  · rintro (hs | rfl)
    · exact has_put_of_has blob hs
    · exact s.has_put_self _ blob

/-! ## Existence checks -/

/-- The errors of `blobsExist`. -/
inductive ExistsError where
  /-- `batch blob exists check: %w` -/
  | batch
  /-- `blob exists check for %s: %w` -/
  | blob (hash : Bytes)
deriving DecidableEq

/-- The per-hash loop of `blobsExist`: the hashes that are there. A transient
failure counts as missing, a denied permission ends the backup. -/
def existsEach (env : Env) (c : Check) (s : Blobs) : List Bytes → Except ExistsError (List Bytes)
  | [] => .ok []
  | h :: hs =>
    match env.existsErr c h with
    | some .permissionDenied => .error (.blob h)
    | some .transient => existsEach env c s hs
    | none => (existsEach env c s hs).map fun present => if s.has h then h :: present else present

/-- `blobsExist`: the hashes that are there. -/
def blobsExist (env : Env) (c : Check) (s : Blobs) (hashes : List Bytes) :
    Except ExistsError (List Bytes) :=
  let uniq := hashes.eraseDups
  if hashes = [] then .ok []
  else if env.hasBatch then
    match env.batchErr c with
    | none => .ok (uniq.filter fun h => s.has h)
    | some .permissionDenied => .error .batch
    | some .transient => existsEach env c s uniq
  else existsEach env c s uniq

/-- `makeFileEntry`. -/
def makeFileEntry (fe : ScanEntry) (contentHash status : Bytes) : FileEntry where
  name := fe.relPath
  contentHash := contentHash
  size := fe.size
  mtime := fe.mtime
  mode := fe.mode
  status := status
  chunks := []

/-- `tryUnchangedEntry`: an entry that refers to the previous blobs, if all of
them are there. -/
def tryUnchangedEntry (env : Env) (c : Check) (s : Blobs) (fe : ScanEntry) (prevFile : FileEntry)
    (contentHash : Bytes) : Except ExistsError (Option FileEntry) :=
  let hashes :=
    if prevFile.chunks = [] then [contentHash] else prevFile.chunks.map ChunkRef.hash
  match blobsExist env c s hashes with
  | .error e => .error e
  | .ok present =>
    if hashes.all (present.contains ·) then
      .ok (some { makeFileEntry fe contentHash fileStatusUnchanged with chunks := prevFile.chunks })
    else .ok none

/-! ## The hash pass -/

/-- The errors of the hash passes. -/
inductive HashError where
  /-- `open: %w` -/
  | openFile
  /-- `read: %w` -/
  | read
  /-- `hash: %w` -/
  | hash
  /-- `chunk: %w` -/
  | chunk
  /-- `seek: %w` -/
  | seek
  /-- `gcm: %w`, the key size being the cause -/
  | gcm (keyLen : Nat)
  /-- the context is cancelled -/
  | ctx
  /-- `large file (%d bytes) must use streaming path` -/
  | largeFile (size : Nat)
  /-- `large unencrypted file (%d bytes) must use streaming path` -/
  | largeUnencrypted (size : Nat)
deriving DecidableEq

/-- What a hash pass over a large file returns. -/
structure Hashed where
  contentHash : Bytes
  chunks : List ChunkRef
  /-- The bytes kept for the upload, if they were. -/
  data : List Bytes

section
variable (P : Primitives)

/-- The reference to a chunk with this content. -/
def chunkRef (data : Bytes) : ChunkRef :=
  ⟨P.contentHash data, data.length⟩

/-- The loop of `hashFileWithChunks`: the chunks it reads. A turn takes at least
one byte off `remaining`, so `fuel` for as many turns is enough. -/
def hashLoop (pass : Pass) : (fuel i off remaining : Nat) → Except HashError (List Bytes)
  | 0, _, _, _ => .ok []
  | fuel + 1, i, off, remaining =>
    if remaining = 0 then .ok []
    else if pass.cancelled i then .error .ctx
    else
      match pass.read i off (min remaining defaultChunkSize) with
      | none => .error .read
      | some b =>
        if b.length = 0 then .ok []
        else (hashLoop pass fuel (i + 1) (off + b.length) (remaining - b.length)).map (b :: ·)

/-- `hashFileWithChunks`. -/
def hashFileWithChunks (pass : Pass) (size : Nat) (retain : Bool) : Except HashError Hashed :=
  if pass.openFails then .error .openFile
  else
    (hashLoop pass size 0 0 size).map fun data =>
      ⟨P.contentHash data.flatten, data.map (chunkRef P), if retain then data else []⟩

/-- `inMemoryChunkThreshold` -/
def inMemoryChunkThreshold : Nat := 32 * 2 ^ 20

/-- The turns of `hashFileWithCDC` for the pieces of the chunker. -/
def cdcLoop (pass : Pass) : List Bytes → (i : Nat) → Except HashError (List Bytes)
  | [], i => if pass.cancelled i then .error .ctx else .ok []
  | d :: ds, i =>
    if pass.cancelled i then .error .ctx else (cdcLoop pass ds (i + 1)).map (d :: ·)

/-- The pieces `hashFileWithCDC` keeps: all of them, or none when the file grew
past the threshold. -/
def retainLoop : (retain : Bool) → (retainedBytes : Nat) → (retained pieces : List Bytes) →
    List Bytes
  | _, _, retained, [] => retained
  | false, n, retained, _ :: ds => retainLoop false n retained ds
  | true, n, retained, d :: ds =>
    if inMemoryChunkThreshold < n + d.length then retainLoop false n [] ds
    else retainLoop true (n + d.length) (retained ++ [d]) ds

/-- `hashFileWithCDC`. -/
def hashFileWithCDC (pol : Nat) (pass : Pass) (retain : Bool) : Except HashError Hashed :=
  if pass.openFails then .error .openFile
  else
    match pass.readAll with
    | none => .error .chunk
    | some bytes =>
      (cdcLoop pass (P.cdcSplit pol bytes) 0).map fun data =>
        ⟨P.contentHash data.flatten, data.map (chunkRef P), retainLoop retain 0 [] data⟩

/-! ## The pipeline -/

/-- What `processFile` uses of a `SimplePipeline`. `NewSimplePipeline` fixes the
chunk size to the default and always has a compressor; the polynomial is the one
in effect, the repository's own or the global one. -/
structure Pipeline where
  key : Bytes
  cdcEnabled : Bool
  cdcPolynomial : Nat

variable (pl : Pipeline)

/-- The bytes as they are sealed: compressed if the name and the size make it
worth trying and it is a gain. -/
def toStore (path data : Bytes) : Bytes :=
  (storedChunk P (!isLikelyIncompressible path) data).1

/-- Magic, vector and sealed bytes, as the small path and the chunk upload build
them. -/
def sealedBlob (draws : Draws) (data : Bytes) : Bytes :=
  let iv := newSmallBlobIV draws
  magicGB1 ++ iv.bytes ++ P.gcmSeal pl.key iv.bytes data

/-- `getGCM` fails for a key that is neither empty nor an AES key. -/
def gcmFails : Bool :=
  decide (pl.key ≠ []) && !validKey pl.key

/-! ## Small files -/

/-- `hashOnlyFile`: the bytes are read once for the hash and, after a seek, once
more for the blob. -/
def hashOnlyFile (env : Env) (size : Nat) : Except HashError (Bytes × Bytes) :=
  if env.hashPass.openFails then .error .openFile
  else
    match env.hashPass.readAll with
    | none => .error .hash
    | some hashed =>
      if env.uploadPass.openFails then .error .seek
      else if size < defaultChunkSize then
        match env.uploadPass.readAll with
        | none => .error .read
        | some data => .ok (P.contentHash hashed, data)
      else .error (.largeUnencrypted size)

/-- `hashAndEncryptFile`: the content hash and the blob. -/
def hashAndEncryptFile (env : Env) (path : Bytes) (size : Nat) :
    Except HashError (Bytes × Bytes) :=
  if pl.key = [] then hashOnlyFile P env size
  else if env.hashPass.openFails then .error .openFile
  else if size < defaultChunkSize then
    match env.hashPass.readAll with
    | none => .error .read
    | some data =>
      if gcmFails pl then .error (.gcm pl.key.length)
      else .ok (P.contentHash data, sealedBlob P pl (env.draws 0) (toStore P path data))
  else .error (.largeFile size)

/-! ## The upload pass -/

/-- The errors of `uploadChangedChunks`. -/
inductive UploadError where
  | existsCheck (e : ExistsError)
  /-- `open: %w` -/
  | openFile
  /-- `gcm: %w` -/
  | gcm (keyLen : Nat)
  /-- the context is cancelled -/
  | ctx
  /-- `read chunk %d: file truncated (expected %d bytes, got %d): %w` -/
  | truncated (chunk expected got : Nat)
  /-- `read chunk %d: %w` -/
  | read (chunk : Nat)
  /-- `chunk %d content changed since hash (expected %s, got %s): file modified during backup` -/
  | changed (chunk : Nat) (expected got : Bytes)
  /-- `put chunk %d: %w` -/
  | put (chunk : Nat) (e : StoreError)
deriving DecidableEq

/-- What a turn of the upload loop makes of its chunk, before anything is put. -/
inductive Turn where
  /-- the loop ends, without an error -/
  | done
  /-- the chunk is in the store -/
  | skip
  /-- these bytes are to be put -/
  | store (chunkBytes : Bytes)
  | fail (e : UploadError)

/-- The length of the read buffer of the upload pass. -/
def uploadBufSize : Nat :=
  if pl.cdcEnabled ∧ defaultChunkSize < cdcMaxSize then cdcMaxSize else defaultChunkSize

/-- The bytes a re-read asks for. -/
def readSize (c : ChunkRef) : Nat :=
  min c.size.toNat (uploadBufSize pl)

/-- A turn that has the bytes from the hash pass. -/
def memTurn (present : List Bytes) (data : Bytes) (c : ChunkRef) : Turn :=
  if present.contains c.hash then .skip else .store data

/-- A turn that reads the file again. -/
def fileTurn (pass : Pass) (present : List Bytes) (i off : Nat) (c : ChunkRef) : Turn :=
  match pass.read i off (readSize pl c) with
  | none => .fail (.read i)
  | some b =>
    if b.length = 0 then .done
    else if b.length < readSize pl c then .fail (.truncated i (readSize pl c) b.length)
    else if present.contains c.hash then .skip
    else if P.contentHash b ≠ c.hash then
      .fail (.changed i (c.hash.take 12) ((P.contentHash b).take 12))
    else .store b

/-- The blob of a chunk; without a key the bytes are stored as they are. -/
def chunkBlob (path : Bytes) (draws : Draws) (chunkBytes : Bytes) : Bytes :=
  if pl.key = [] then toStore P path chunkBytes
  else sealedBlob P pl draws (toStore P path chunkBytes)

/-- The loop of `uploadChangedChunks` from chunk `i`, which starts at `off`, with
`uploaded` bytes put so far. -/
def uploadLoop (env : Env) (path : Bytes) (turn : (i off : Nat) → ChunkRef → Turn) :
    (chunks : List ChunkRef) → (i off uploaded : Nat) → Blobs → Except UploadError Nat × Blobs
  | [], _, _, uploaded, s => (.ok uploaded, s)
  | c :: cs, i, off, uploaded, s =>
    if env.uploadPass.cancelled i then (.error .ctx, s)
    else
      match turn i off c with
      | .fail e => (.error e, s)
      | .done => (.ok uploaded, s)
      | .skip => uploadLoop env path turn cs (i + 1) (off + readSize pl c) uploaded s
      | .store b =>
        match env.putErr i with
        | some e => (.error (.put i e), s)
        | none =>
          uploadLoop env path turn cs (i + 1) (off + readSize pl c) (uploaded + b.length)
            (s.put c.hash (chunkBlob P pl path (env.draws i) b))

/-- The hash pass kept the bytes of every chunk. -/
def useMemChunks (h : Hashed) : Bool :=
  decide (h.chunks ≠ []) && decide (h.data.length = h.chunks.length)

/-- The turn of the loop for the outcome of the hash pass. -/
def uploadTurn (env : Env) (h : Hashed) (present : List Bytes) (i off : Nat) (c : ChunkRef) :
    Turn :=
  if useMemChunks h then memTurn present (h.data.getD i []) c
  else fileTurn P pl env.uploadPass present i off c

/-- `uploadChangedChunks`: the bytes put and the store after it. -/
def uploadChangedChunks (env : Env) (s : Blobs) (path : Bytes) (h : Hashed)
    (prevChunks : List ChunkRef) : Except UploadError Nat × Blobs :=
  match blobsExist env .prevChunks s (prevChunks.map ChunkRef.hash) with
  | .error e => (.error (.existsCheck e), s)
  | .ok present =>
    if h.chunks.all fun c => present.contains c.hash then (.ok 0, s)
    else if useMemChunks h = false ∧ env.uploadPass.openFails then (.error .openFile, s)
    else if gcmFails pl then (.error (.gcm pl.key.length), s)
    else uploadLoop P pl env path (uploadTurn P pl env h present) h.chunks 0 0 0 s

/-! ## One file -/

/-- The errors of `processFile`. -/
inductive PipelineError where
  | existsCheck (e : ExistsError)
  /-- `blob exists check for %s: %w` -/
  | blobExists (relPath : Bytes)
  /-- `hash+encrypt %s: %w` -/
  | hashEncrypt (relPath : Bytes) (e : HashError)
  /-- `hash streaming %s: %w` -/
  | hashStreaming (relPath : Bytes) (e : HashError)
  /-- `chunk upload %s: %w` -/
  | chunkUpload (relPath : Bytes) (e : UploadError)
  /-- `store.Put %s: %w` -/
  | storePut (relPath : Bytes) (e : StoreError)
deriving DecidableEq

/-- What `processFile` returns. -/
structure Processed where
  entry : FileEntry
  uploaded : Nat
  isChanged : Bool
  isNew : Bool
deriving DecidableEq

/-- An entry taken over from the previous manifest. -/
def Processed.unchanged (entry : FileEntry) : Processed :=
  ⟨entry, 0, false, false⟩

/-- `resolveFileStatus`: status, `isNew` and `isChanged`. -/
def resolveFileStatus (hasPrev : Bool) (contentHash prevHash : Bytes) : Bytes × Bool × Bool :=
  let isChanged := hasPrev && decide (contentHash ≠ prevHash)
  let status :=
    if isChanged then fileStatusChanged
    else if hasPrev && decide (contentHash = prevHash) then fileStatusUnchanged
    else fileStatusNew
  (status, !hasPrev, isChanged)

/-- The content hash and the chunks of the previous entry; those of Go's zero
value if there is none. -/
def prevHash (prev : Option FileEntry) : Bytes :=
  (prev.map FileEntry.contentHash).getD []

/-- See `prevHash`. -/
def prevChunks (prev : Option FileEntry) : List ChunkRef :=
  (prev.map FileEntry.chunks).getD []

/-- The second half of `checkAndUploadBlob`: put the blob unless it is there. -/
def putUnlessPresent (env : Env) (s : Blobs) (fe : ScanEntry) (prev : Option FileEntry)
    (contentHash ciphertext : Bytes) : Except PipelineError Processed × Blobs :=
  let status := resolveFileStatus prev.isSome contentHash (prevHash prev)
  let result uploaded : Processed :=
    ⟨makeFileEntry fe contentHash status.1, uploaded, status.2.2, status.2.1⟩
  match env.existsErr .beforePut contentHash with
  | some .permissionDenied => (.error (.blobExists fe.relPath), s)
  | checked =>
    if checked = none ∧ s.has contentHash then (.ok (result 0), s)
    else
      match env.putErr 0 with
      | some e => (.error (.storePut fe.relPath e), s)
      | none => (.ok (result fe.size), s.put contentHash ciphertext)

/-- `checkAndUploadBlob`. -/
def checkAndUploadBlob (env : Env) (s : Blobs) (fe : ScanEntry) (prev : Option FileEntry)
    (contentHash ciphertext : Bytes) : Except PipelineError Processed × Blobs :=
  if prev.isSome ∧ prevHash prev = contentHash then
    match env.existsErr .sameHash contentHash with
    | some .permissionDenied => (.error (.blobExists fe.relPath), s)
    | some .transient => putUnlessPresent env s fe prev contentHash ciphertext
    | none =>
      if s.has contentHash then
        -- only the blob of the whole content was looked up
        let entry := makeFileEntry fe contentHash fileStatusUnchanged
        (.ok (.unchanged { entry with chunks := prevChunks prev }), s)
      else putUnlessPresent env s fe prev contentHash ciphertext
  else putUnlessPresent env s fe prev contentHash ciphertext

/-- The hash pass of `processFileStreaming`. -/
def hashStreaming (pass : Pass) (size : Nat) : Except HashError Hashed :=
  let retain := decide (size ≤ inMemoryChunkThreshold)
  if pl.cdcEnabled then hashFileWithCDC P pl.cdcPolynomial pass retain
  else hashFileWithChunks P pass size retain

/-- The lookup of `processFileStreaming` after the hash pass. -/
def rehashEntry (env : Env) (s : Blobs) (fe : ScanEntry) (prev : Option FileEntry)
    (contentHash : Bytes) (skipUnchangedEntry : Bool) : Except ExistsError (Option FileEntry) :=
  match prev with
  | none => .ok none
  | some prevFile =>
    if prevFile.contentHash = contentHash ∧ skipUnchangedEntry = false then
      tryUnchangedEntry env .rehash s fe prevFile contentHash
    else .ok none

/-- `processFileStreaming`. -/
def processFileStreaming (env : Env) (s : Blobs) (fe : ScanEntry) (prev : Option FileEntry)
    (skipUnchangedEntry : Bool) : Except PipelineError Processed × Blobs :=
  match hashStreaming P pl env.hashPass fe.size with
  | .error e => (.error (.hashStreaming fe.relPath e), s)
  | .ok hashed =>
    match rehashEntry env s fe prev hashed.contentHash skipUnchangedEntry with
    | .error e => (.error (.existsCheck e), s)
    | .ok (some entry) => (.ok (.unchanged entry), s)
    | .ok none =>
      match uploadChangedChunks P pl env s fe.absPath hashed (prevChunks prev) with
      | (.error e, s') => (.error (.chunkUpload fe.relPath e), s')
      | (.ok uploaded, s') =>
        let status := resolveFileStatus prev.isSome hashed.contentHash (prevHash prev)
        let entry := makeFileEntry fe hashed.contentHash status.1
        (.ok ⟨{ entry with chunks := hashed.chunks }, uploaded, status.2.2, status.2.1⟩, s')

/-- The part of `processFile` that reads the file. -/
def processContent (env : Env) (s : Blobs) (fe : ScanEntry) (prev : Option FileEntry)
    (fastPathBlobMissing : Bool) : Except PipelineError Processed × Blobs :=
  if defaultChunkSize ≤ fe.size then
    processFileStreaming P pl env s fe prev fastPathBlobMissing
  else
    match hashAndEncryptFile P pl env fe.absPath fe.size with
    | .error e => (.error (.hashEncrypt fe.relPath e), s)
    | .ok (contentHash, ciphertext) =>
      checkAndUploadBlob env s fe prev contentHash ciphertext

/-- The metadata say that the file is the previous one. -/
def sameMetadata (fe : ScanEntry) (prevFile : FileEntry) : Bool :=
  decide (prevFile.mtime = fe.mtime) && decide (prevFile.size = fe.size) &&
    decide (2 ≤ prevFile.contentHash.length)

/-- The lookup of `processFile` before the file is read: `none` if the metadata
differ, else the outcome of `tryUnchangedEntry`. -/
def fastPathEntry (env : Env) (s : Blobs) (fe : ScanEntry) (prev : Option FileEntry) :
    Option (Except ExistsError (Option FileEntry)) :=
  match prev with
  | none => none
  | some prevFile =>
    if sameMetadata fe prevFile then
      some (tryUnchangedEntry env .fastPath s fe prevFile prevFile.contentHash)
    else none

/-- `processFile`: the entry of a scanned file and the store after it. -/
def processFile (env : Env) (s : Blobs) (fe : ScanEntry) (prev : Option FileEntry) :
    Except PipelineError Processed × Blobs :=
  match fastPathEntry env s fe prev with
  | some (.error e) => (.error (.existsCheck e), s)
  | some (.ok (some entry)) => (.ok (.unchanged entry), s)
  | some (.ok none) => processContent P pl env s fe prev true
  | none => processContent P pl env s fe prev false

end

/-! ## What a call that succeeds has done -/

section
variable {P : Primitives} {pl : Pipeline} {env : Env} {s s' : Blobs} {fe : ScanEntry}
  {prev : Option FileEntry} {contentHash ciphertext : Bytes} {missing : Bool} {r : Processed}
  {entry : FileEntry}

theorem rehashEntry_ok (hrun : rehashEntry env s fe prev contentHash missing = .ok (some entry)) :
    ∃ f, prev = some f ∧ f.contentHash = contentHash ∧
      tryUnchangedEntry env .rehash s fe f contentHash = .ok (some entry) := by
  unfold rehashEntry at hrun
  split at hrun
  · cases hrun
  · split at hrun
    · rename_i f hsame
      exact ⟨f, rfl, hsame.1, hrun⟩
    · cases hrun

/-- A small file has the hash of what the hash pass reads. Without a key it is read again for
the blob. -/
theorem hashAndEncryptFile_ok {path : Bytes} {size : Nat}
    (hrun : hashAndEncryptFile P pl env path size = .ok (contentHash, ciphertext)) :
    ∃ content, env.hashPass.readAll = some content ∧ contentHash = P.contentHash content ∧
      gcmFails pl = false ∧
      if pl.key = [] then env.hashPass.openFails = false ∧ env.uploadPass.openFails = false ∧
        env.uploadPass.readAll = some ciphertext
      else ciphertext = sealedBlob P pl (env.draws 0) (toStore P path content) := by
  unfold hashAndEncryptFile hashOnlyFile at hrun
  by_cases hkey : pl.key = []
  · rw [if_pos hkey] at hrun
    repeat' split at hrun
    all_goals cases hrun
    rename_i hopen _ content hread hopen' _ _ hread'
    refine ⟨content, hread, rfl, by simp [gcmFails, hkey], ?_⟩
    rw [if_pos hkey]
    exact ⟨Bool.eq_false_iff.mpr hopen, Bool.eq_false_iff.mpr hopen', hread'⟩
  · rw [if_neg hkey] at hrun
    repeat' split at hrun
    all_goals cases hrun
    rename_i content hread hgcm
    exact ⟨content, hread, rfl, Bool.eq_false_iff.mpr hgcm, by rw [if_neg hkey]⟩

/-- The blob of a small file is there, or it is put. -/
theorem putUnlessPresent_ok
    (hrun : putUnlessPresent env s fe prev contentHash ciphertext = (.ok r, s')) :
    r.entry = makeFileEntry fe contentHash
        (resolveFileStatus prev.isSome contentHash (prevHash prev)).1 ∧
      (s.has contentHash ∧ s' = s ∨ s' = s.put contentHash ciphertext) := by
  unfold putUnlessPresent at hrun
  dsimp only at hrun
  split at hrun
  · cases hrun
  split at hrun
  · rename_i hpresent
    cases hrun
    exact ⟨rfl, .inl ⟨hpresent.2, rfl⟩⟩
  split at hrun
  · cases hrun
  · cases hrun
    exact ⟨rfl, .inr rfl⟩

/-- The previous entry is taken over if its content hash is the same and its blob is found. -/
theorem checkAndUploadBlob_ok
    (hrun : checkAndUploadBlob env s fe prev contentHash ciphertext = (.ok r, s')) :
    if (prev.isSome ∧ prevHash prev = contentHash) ∧
        env.existsErr .sameHash contentHash = none ∧ s.has contentHash then
      r.entry = { makeFileEntry fe contentHash fileStatusUnchanged with chunks := prevChunks prev } ∧
        s' = s
    else putUnlessPresent env s fe prev contentHash ciphertext = (.ok r, s') := by
  unfold checkAndUploadBlob at hrun
  split at hrun
  · rename_i hprev
    split at hrun
    · cases hrun
    · rename_i hcheck
      rwa [if_neg (by simp [hcheck])]
    · rename_i hcheck
      split at hrun
      · rename_i hhas
        cases hrun
        rw [if_pos ⟨hprev, hcheck, hhas⟩]
        exact ⟨rfl, rfl⟩
      · rename_i hhas
        rwa [if_neg fun h => hhas h.2.2]
  · rename_i hprev
    rwa [if_neg fun h => hprev h.1]

/-- A large file is the previous one by its hash, or it is uploaded. -/
theorem processFileStreaming_ok
    (hrun : processFileStreaming P pl env s fe prev missing = (.ok r, s')) :
    ∃ hashed, hashStreaming P pl env.hashPass fe.size = .ok hashed ∧
      (rehashEntry env s fe prev hashed.contentHash missing = .ok (some r.entry) ∧ s' = s ∨
        rehashEntry env s fe prev hashed.contentHash missing = .ok none ∧
          r.entry = { makeFileEntry fe hashed.contentHash
            (resolveFileStatus prev.isSome hashed.contentHash (prevHash prev)).1 with
              chunks := hashed.chunks } ∧
          ∃ n, uploadChangedChunks P pl env s fe.absPath hashed (prevChunks prev) = (.ok n, s')) := by
  unfold processFileStreaming at hrun
  split at hrun
  · cases hrun
  rename_i hashed hhash
  refine ⟨hashed, hhash, ?_⟩
  split at hrun
  · cases hrun
  · rename_i hentry
    cases hrun
    exact .inl ⟨hentry, rfl⟩
  · rename_i hnone
    split at hrun
    · cases hrun
    · rename_i hupload
      cases hrun
      exact .inr ⟨hnone, rfl, _, hupload⟩

/-- A file is the previous one by its metadata, or it is read. -/
theorem processFile_ok (hrun : processFile P pl env s fe prev = (.ok r, s')) :
    (fastPathEntry env s fe prev = some (.ok (some r.entry)) ∧ s' = s ∧
      ∃ f, prev = some f ∧ sameMetadata fe f = true ∧
        tryUnchangedEntry env .fastPath s fe f f.contentHash = .ok (some r.entry)) ∨
      ∃ missing, fastPathEntry env s fe prev = (if missing then some (.ok none) else none) ∧
        processContent P pl env s fe prev missing = (.ok r, s') := by
  unfold processFile at hrun
  split at hrun
  · cases hrun
  · rename_i entry hfast
    cases hrun
    refine .inl ⟨hfast, rfl, ?_⟩
    unfold fastPathEntry at hfast
    split at hfast
    · cases hfast
    · split at hfast
      · rename_i f hmeta
        exact ⟨f, rfl, hmeta, Option.some.inj hfast⟩
      · cases hfast
  · rename_i hfast
    exact .inr ⟨true, hfast, hrun⟩
  · rename_i hfast
    exact .inr ⟨false, hfast, hrun⟩

end

end GbfCore
