import GbfCore.Lib.Calls
import GbfCore.Pipeline.Process

/-!
# Backing up one file, store call by store call (pipeline.go)

`Process` runs `processFile` in one piece. Here it is the program a worker runs: between
two calls to the store other workers can change the store, and the store can answer
anything. Of the surroundings of a call (`Env`) only the passes over the file, the random
vectors and the kind of the store are used; the failures of the store are its answers.
Alone on the store it can do what `Process` says (`alone_processFile`).
-/

namespace GbfCore

open Prog Option

/-- The calls of a backup to its store. -/
inductive StoreCall where
  /-- `Exists` -/
  | query (hash : Bytes)
  | existsBatch (hashes : List Bytes)
  | put (hash blob : Bytes)

/-- What a call answers. -/
abbrev StoreCall.Answer : StoreCall → Type
  | .query _ => Except StoreError Bool
  | .existsBatch _ => Except StoreError (Bytes → Bool)
  | .put _ _ => Except StoreError Unit

/-- A program that calls the store. -/
abbrev StoreProg := Prog StoreCall StoreCall.Answer

namespace Store

/-- `Exists` -/
def query (hash : Bytes) : StoreProg (Except StoreError Bool) := ask (StoreCall.query hash)

/-- `ExistsBatch` -/
def existsBatch (hashes : List Bytes) : StoreProg (Except StoreError (Bytes → Bool)) :=
  ask (StoreCall.existsBatch hashes)

/-- `Put` -/
def put (hash blob : Bytes) : StoreProg (Except StoreError Unit) := ask (StoreCall.put hash blob)

end Store

namespace Worker

/-! ## Existence checks -/

/-- The per-hash loop of `blobsExist`: the hashes that are there. -/
def existsEach : List Bytes → StoreProg (Except ExistsError (List Bytes))
  | [] => return .ok []
  | h :: hs => do
    match ← Store.query h with
    | .error .permissionDenied => return .error (.blob h)
    | .error .transient => existsEach hs
    | .ok found =>
      let r ← existsEach hs
      return r.map fun present => if found then h :: present else present

/-- `blobsExist`. -/
def blobsExist (env : Env) (hashes : List Bytes) : StoreProg (Except ExistsError (List Bytes)) :=
  let uniq := hashes.eraseDups
  if hashes = [] then return .ok []
  else if env.hasBatch then do
    match ← Store.existsBatch uniq with
    | .ok batch => return .ok (uniq.filter batch)
    | .error .permissionDenied => return .error .batch
    | .error .transient => existsEach uniq
  else existsEach uniq

/-- The entry `tryUnchangedEntry` makes of the hashes that are there. -/
def unchangedEntry (fe : ScanEntry) (prevFile : FileEntry) (contentHash : Bytes)
    (hashes present : List Bytes) : Option FileEntry :=
  if hashes.all (present.contains ·) then
    some { makeFileEntry fe contentHash fileStatusUnchanged with chunks := prevFile.chunks }
  else none

/-- `tryUnchangedEntry`. -/
def tryUnchangedEntry (env : Env) (fe : ScanEntry) (prevFile : FileEntry) (contentHash : Bytes) :
    StoreProg (Except ExistsError (Option FileEntry)) := do
  let hashes := if prevFile.chunks = [] then [contentHash] else prevFile.chunks.map ChunkRef.hash
  let r ← blobsExist env hashes
  return r.map (unchangedEntry fe prevFile contentHash hashes)

section
variable (P : Primitives) (pl : Pipeline) (env : Env)

/-! ## The upload pass -/

/-- The loop of `uploadChangedChunks`. -/
def uploadLoop (path : Bytes) (turn : (i off : Nat) → ChunkRef → Turn) :
    (chunks : List ChunkRef) → (i off uploaded : Nat) → StoreProg (Except UploadError Nat)
  | [], _, _, uploaded => return .ok uploaded
  | c :: cs, i, off, uploaded =>
    if env.uploadPass.cancelled i then return .error .ctx
    else
      match turn i off c with
      | .fail e => return .error e
      | .done => return .ok uploaded
      | .skip => uploadLoop path turn cs (i + 1) (off + readSize pl c) uploaded
      | .store b => do
        match ← Store.put c.hash (chunkBlob P pl path (env.draws i) b) with
        | .error e => return .error (.put i e)
        | .ok () =>
          uploadLoop path turn cs (i + 1) (off + readSize pl c) (uploaded + b.length)

/-- `uploadChangedChunks` behind its existence check. -/
def uploadMissing (path : Bytes) (h : Hashed) (present : List Bytes) :
    StoreProg (Except UploadError Nat) :=
  if h.chunks.all fun c => present.contains c.hash then return .ok 0
  else if useMemChunks h = false ∧ env.uploadPass.openFails then return .error .openFile
  else if gcmFails pl then return .error (.gcm pl.key.length)
  else uploadLoop P pl env path (uploadTurn P pl env h present) h.chunks 0 0 0

/-- `uploadChangedChunks`. -/
def uploadChangedChunks (path : Bytes) (h : Hashed) (prevChunks : List ChunkRef) :
    StoreProg (Except UploadError Nat) := do
  match ← blobsExist env (prevChunks.map ChunkRef.hash) with
  | .error e => return .error (.existsCheck e)
  | .ok present => uploadMissing P pl env path h present

/-! ## One file -/

section
variable (fe : ScanEntry) (prev : Option FileEntry)

/-- What `checkAndUploadBlob` returns for a content, with so many bytes put. -/
def blobResult (contentHash : Bytes) (uploaded : Nat) : Processed :=
  let status := resolveFileStatus prev.isSome contentHash (prevHash prev)
  ⟨makeFileEntry fe contentHash status.1, uploaded, status.2.2, status.2.1⟩

/-- The `Put` of `checkAndUploadBlob`. -/
def putBlob (contentHash ciphertext : Bytes) : StoreProg (Except PipelineError Processed) := do
  match ← Store.put contentHash ciphertext with
  | .error e => return .error (.storePut fe.relPath e)
  | .ok () => return .ok (blobResult fe prev contentHash fe.size)

/-- The second half of `checkAndUploadBlob`. -/
def putUnlessPresent (contentHash ciphertext : Bytes) :
    StoreProg (Except PipelineError Processed) := do
  match ← Store.query contentHash with
  | .error .permissionDenied => return .error (.blobExists fe.relPath)
  | .error .transient => putBlob fe prev contentHash ciphertext
  | .ok true => return .ok (blobResult fe prev contentHash 0)
  | .ok false => putBlob fe prev contentHash ciphertext

/-- `checkAndUploadBlob`. -/
def checkAndUploadBlob (contentHash ciphertext : Bytes) :
    StoreProg (Except PipelineError Processed) :=
  if prev.isSome ∧ prevHash prev = contentHash then do
    match ← Store.query contentHash with
    | .error .permissionDenied => return .error (.blobExists fe.relPath)
    | .error .transient => putUnlessPresent fe prev contentHash ciphertext
    | .ok true =>
      let entry := makeFileEntry fe contentHash fileStatusUnchanged
      return .ok (.unchanged { entry with chunks := prevChunks prev })
    | .ok false => putUnlessPresent fe prev contentHash ciphertext
  else putUnlessPresent fe prev contentHash ciphertext

/-- The lookup of `processFileStreaming` after the hash pass. -/
def rehashEntry (contentHash : Bytes) (skipUnchangedEntry : Bool) :
    StoreProg (Except ExistsError (Option FileEntry)) :=
  match prev with
  | none => return .ok none
  | some prevFile =>
    if prevFile.contentHash = contentHash ∧ skipUnchangedEntry = false then
      tryUnchangedEntry env fe prevFile contentHash
    else return .ok none

/-- What `processFileStreaming` returns for an upload. -/
def streamResult (hashed : Hashed) (uploaded : Nat) : Processed :=
  let status := resolveFileStatus prev.isSome hashed.contentHash (prevHash prev)
  let entry := makeFileEntry fe hashed.contentHash status.1
  ⟨{ entry with chunks := hashed.chunks }, uploaded, status.2.2, status.2.1⟩

/-- `processFileStreaming`. -/
def processFileStreaming (skipUnchangedEntry : Bool) :
    StoreProg (Except PipelineError Processed) :=
  match hashStreaming P pl env.hashPass fe.size with
  | .error e => return .error (.hashStreaming fe.relPath e)
  | .ok hashed => do
    match ← rehashEntry env fe prev hashed.contentHash skipUnchangedEntry with
    | .error e => return .error (.existsCheck e)
    | .ok (some entry) => return .ok (.unchanged entry)
    | .ok none =>
      match ← uploadChangedChunks P pl env fe.absPath hashed (prevChunks prev) with
      | .error e => return .error (.chunkUpload fe.relPath e)
      | .ok uploaded => return .ok (streamResult fe prev hashed uploaded)

/-- The part of `processFile` that reads the file. -/
def processContent (fastPathBlobMissing : Bool) : StoreProg (Except PipelineError Processed) :=
  if defaultChunkSize ≤ fe.size then processFileStreaming P pl env fe prev fastPathBlobMissing
  else
    match hashAndEncryptFile P pl env fe.absPath fe.size with
    | .error e => return .error (.hashEncrypt fe.relPath e)
    | .ok (contentHash, ciphertext) => checkAndUploadBlob fe prev contentHash ciphertext

/-- The previous entry, if the metadata say that the file is the same. -/
def fastPathPrev : Option FileEntry := prev.filter (sameMetadata fe)

/-- `processFile`. -/
def processFile : StoreProg (Except PipelineError Processed) :=
  match fastPathPrev fe prev with
  | none => processContent P pl env fe prev false
  | some prevFile => do
    match ← tryUnchangedEntry env fe prevFile prevFile.contentHash with
    | .error e => return .error (.existsCheck e)
    | .ok (some entry) => return .ok (.unchanged entry)
    | .ok none => processContent P pl env fe prev true

end

end

end Worker

/-! ## Whatever the store answers -/

/-- An existence check. -/
def StoreCall.isCheck : StoreCall → Bool
  | .put _ _ => false
  | _ => true

section
variable {Q : StoreCall → Prop} (hQ : ∀ c, c.isCheck = true → Q c)
include hQ

theorem calls_existsEach (hashes : List Bytes) : (Worker.existsEach hashes).Calls Q := by
  induction hashes with
  | nil => exact sat_ret trivial
  | cons h hs ih =>
    refine calls_bind (sat_ask (hQ _ rfl)) fun r => ?_
    rcases r with (_ | _) | found
    · exact sat_ret trivial
    · exact ih
    · exact calls_bind ih fun _ => sat_ret trivial

theorem calls_blobsExist (env : Env) (hashes : List Bytes) :
    (Worker.blobsExist env hashes).Calls Q := by
  unfold Worker.blobsExist
  dsimp only
  split
  · exact sat_ret trivial
  split
  · refine calls_bind (sat_ask (hQ _ rfl)) fun r => ?_
    rcases r with (_ | _) | batch
    · exact sat_ret trivial
    · exact calls_existsEach hQ _
    · exact sat_ret trivial
  · exact calls_existsEach hQ _

variable {R : Except PipelineError Processed → Prop} (herr : ∀ e, R (.error e))
  (hunchanged : ∀ entry, R (.ok (.unchanged entry)))
  {env : Env} {fe : ScanEntry} {prev : Option FileEntry}
include herr hunchanged

/-- A small file: its one `Put`, and its entry. -/
theorem sat_checkAndUploadBlob {contentHash ciphertext : Bytes}
    (hput : Q (.put contentHash ciphertext))
    (hblob : ∀ uploaded, R (.ok (Worker.blobResult fe prev contentHash uploaded))) :
    (Worker.checkAndUploadBlob fe prev contentHash ciphertext).Sat Q R := by
  have hwrite : (Worker.putBlob fe prev contentHash ciphertext).Sat Q R :=
    calls_ok (sat_ask hput) (fun _ => herr _) fun _ => hblob _
  have hunless : (Worker.putUnlessPresent fe prev contentHash ciphertext).Sat Q R := by
    refine calls_bind (sat_ask (hQ _ rfl)) fun r => ?_
    rcases r with (_ | _) | (_ | _)
    · exact herr _
    · exact hwrite
    · exact hwrite
    · exact hblob 0
  unfold Worker.checkAndUploadBlob
  split
  swap
  · exact hunless
  refine calls_bind (sat_ask (hQ _ rfl)) fun r => ?_
  rcases r with (_ | _) | (_ | _)
  · exact herr _
  · exact hunless
  · exact hunless
  · exact hunchanged _

/-- **What holds for the blob of a small file and for the upload of a large one holds for
`processFile`.** -/
theorem sat_processFile {P : Primitives} {pl : Pipeline}
    (hsmall : fe.size < defaultChunkSize → ∀ contentHash ciphertext,
      hashAndEncryptFile P pl env fe.absPath fe.size = .ok (contentHash, ciphertext) →
        Q (.put contentHash ciphertext) ∧
          ∀ uploaded, R (.ok (Worker.blobResult fe prev contentHash uploaded)))
    (hlarge : defaultChunkSize ≤ fe.size → ∀ hashed,
      hashStreaming P pl env.hashPass fe.size = .ok hashed →
        (Worker.uploadChangedChunks P pl env fe.absPath hashed (prevChunks prev)).Calls Q ∧
          ∀ uploaded, R (.ok (Worker.streamResult fe prev hashed uploaded))) :
    (Worker.processFile P pl env fe prev).Sat Q R := by
  have hentry : ∀ prevFile contentHash,
      (Worker.tryUnchangedEntry env fe prevFile contentHash).Calls Q := fun _ _ =>
    calls_bind (calls_blobsExist hQ env _) fun _ => sat_ret trivial
  have hcontent : ∀ missing, (Worker.processContent P pl env fe prev missing).Sat Q R := by
    intro missing
    unfold Worker.processContent
    split
    · rename_i hsize
      unfold Worker.processFileStreaming
      cases hhash : hashStreaming P pl env.hashPass fe.size with
      | error e => exact herr _
      | ok hashed =>
        have hrehash : (Worker.rehashEntry env fe prev hashed.contentHash missing).Calls Q := by
          unfold Worker.rehashEntry
          split
          · exact sat_ret trivial
          split
          · exact hentry _ _
          · exact sat_ret trivial
        obtain ⟨hupload, hresult⟩ := hlarge hsize hashed hhash
        refine calls_bind hrehash fun r => ?_
        rcases r with e | _ | entry
        · exact herr _
        · exact calls_ok hupload (fun _ => herr _) hresult
        · exact hunchanged entry
    · rename_i hsize
      split
      · exact herr _
      · rename_i hhash
        obtain ⟨hput, hresult⟩ := hsmall (Nat.not_le.mp hsize) _ _ hhash
        exact sat_checkAndUploadBlob hQ herr hunchanged hput hresult
  unfold Worker.processFile
  split
  · exact hcontent false
  · refine calls_bind (hentry _ _) fun r => ?_
    rcases r with e | _ | entry
    · exact herr _
    · exact hcontent true
    · exact hunchanged entry

end

/-! ## Nobody else around -/

/-- What a store can answer that nobody else uses: the truth, or an error. -/
def StoreCall.Outcome (s : Blobs) : (c : StoreCall) → c.Answer → Blobs → Prop
  | .query hash, r, s' => s' = s ∧ ∀ found, r = .ok found → found = decide (s.has hash)
  | .existsBatch _, r, s' => s' = s ∧ ∀ batch, r = .ok batch → batch = fun h => decide (s.has h)
  | .put hash blob, r, s' => s' = if r = .ok () then s.put hash blob else s

/-- Alone on the store, the program can return this and leave these blobs. -/
def Alone {α : Type} (s : Blobs) (p : StoreProg α) (r : α × Blobs) : Prop :=
  p.Exec StoreCall.Outcome s r.1 r.2

section
variable {α β : Type} {s : Blobs}

theorem Alone.bind {p : StoreProg α} {f : α → StoreProg β} {r : α × Blobs} {r' : β × Blobs}
    (hp : Alone s p r) (hf : Alone r.2 (f r.1) r') : Alone s (p >>= f) r' :=
  exec_bind.mpr ⟨r.1, r.2, hp, hf⟩

/-- A check as `Process` makes it: it fails with `err`, or finds what is there. -/
theorem Alone.query {hash : Bytes} {f : Except StoreError Bool → StoreProg β} {r : β × Blobs}
    (err : Option StoreError)
    (hf : Alone s (f (err.elim (.ok (decide (s.has hash))) .error)) r) :
    Alone s (Store.query hash >>= f) r := by
  refine ⟨_, s, ⟨rfl, ?_⟩, hf⟩
  cases err with
  | none => exact fun _ h => (Except.ok.inj h).symm
  | some e => nofun

variable (env : Env) (c : Check) (s : Blobs)

theorem alone_existsEach (hashes : List Bytes) :
    Alone s (Worker.existsEach hashes) (existsEach env c s hashes, s) := by
  induction hashes with
  | nil => exact ⟨rfl, rfl⟩
  | cons h hs ih =>
    refine .query (env.existsErr c h) ?_
    rw [existsEach]
    rcases env.existsErr c h with _ | _ | _
    · exact ih.bind ⟨by simp, rfl⟩
    · exact ⟨rfl, rfl⟩
    · exact ih

theorem alone_blobsExist (hashes : List Bytes) :
    Alone s (Worker.blobsExist env hashes) (blobsExist env c s hashes, s) := by
  unfold Worker.blobsExist blobsExist
  dsimp only
  split
  · exact ⟨rfl, rfl⟩
  split
  · rcases env.batchErr c with _ | e
    · exact ⟨.ok fun h => decide (s.has h), s, ⟨rfl, fun _ h => (Except.ok.inj h).symm⟩, rfl, rfl⟩
    · refine ⟨.error e, s, ⟨rfl, nofun⟩, ?_⟩
      cases e with
      | permissionDenied => exact ⟨rfl, rfl⟩
      | transient => exact alone_existsEach env c s _
  · exact alone_existsEach env c s _

theorem alone_tryUnchangedEntry (fe : ScanEntry) (prevFile : FileEntry) (contentHash : Bytes) :
    Alone s (Worker.tryUnchangedEntry env fe prevFile contentHash)
      (tryUnchangedEntry env c s fe prevFile contentHash, s) := by
  refine (alone_blobsExist env c s _).bind ⟨?_, rfl⟩
  unfold tryUnchangedEntry
  dsimp only
  split
  · rename_i h
    rw [h]
    rfl
  · rename_i h
    rw [h]
    exact (apply_ite Except.ok _ _ _).symm

variable (P : Primitives) (pl : Pipeline)

theorem alone_uploadLoop (path : Bytes) (turn : (i off : Nat) → ChunkRef → Turn)
    (chunks : List ChunkRef) (i off uploaded : Nat) :
    Alone s (Worker.uploadLoop P pl env path turn chunks i off uploaded)
      (uploadLoop P pl env path turn chunks i off uploaded s) := by
  induction chunks generalizing i off uploaded s with
  | nil => exact ⟨rfl, rfl⟩
  | cons c cs ih =>
    unfold Worker.uploadLoop uploadLoop
    split
    · exact ⟨rfl, rfl⟩
    cases turn i off c with
    | fail e => exact ⟨rfl, rfl⟩
    | done => exact ⟨rfl, rfl⟩
    | skip => exact ih s ..
    | store b =>
      dsimp only
      cases env.putErr i with
      | some e => exact ⟨.error e, s, rfl, rfl, rfl⟩
      | none => exact ⟨.ok (), _, rfl, ih ..⟩

theorem alone_uploadChangedChunks (path : Bytes) (h : Hashed) (prevChunks : List ChunkRef) :
    Alone s (Worker.uploadChangedChunks P pl env path h prevChunks)
      (uploadChangedChunks P pl env s path h prevChunks) := by
  refine (alone_blobsExist env .prevChunks s _).bind ?_
  unfold uploadChangedChunks
  cases blobsExist env .prevChunks s (prevChunks.map ChunkRef.hash) with
  | error e => exact ⟨rfl, rfl⟩
  | ok present =>
    show Alone s (Worker.uploadMissing P pl env path h present) _
    unfold Worker.uploadMissing
    dsimp only
    repeat' split
    · exact ⟨rfl, rfl⟩
    · exact ⟨rfl, rfl⟩
    · exact ⟨rfl, rfl⟩
    · exact alone_uploadLoop ..

variable (fe : ScanEntry) (prev : Option FileEntry) (contentHash ciphertext : Bytes)

theorem alone_putUnlessPresent :
    Alone s (Worker.putUnlessPresent fe prev contentHash ciphertext)
      (putUnlessPresent env s fe prev contentHash ciphertext) := by
  have hfail : ∀ e, Alone s (Worker.putBlob fe prev contentHash ciphertext)
      (.error (.storePut fe.relPath e), s) :=
    fun e => ⟨.error e, s, rfl, rfl, rfl⟩
  have hput : Alone s (Worker.putBlob fe prev contentHash ciphertext)
      (.ok (Worker.blobResult fe prev contentHash fe.size), s.put contentHash ciphertext) :=
    ⟨.ok (), _, rfl, rfl, rfl⟩
  refine .query (env.existsErr .beforePut contentHash) ?_
  unfold putUnlessPresent
  rcases env.existsErr .beforePut contentHash with _ | _ | _
  · by_cases hs : s.has contentHash
    · simp only [hs, elim_none, decide_true, and_self, if_true]
      exact ⟨rfl, rfl⟩
    · simp only [hs, elim_none, decide_false, and_false, if_false]
      rcases env.putErr 0 with _ | e
      exacts [hput, hfail e]
  · exact ⟨rfl, rfl⟩
  · rcases env.putErr 0 with _ | e
    exacts [hput, hfail e]

theorem alone_checkAndUploadBlob :
    Alone s (Worker.checkAndUploadBlob fe prev contentHash ciphertext)
      (checkAndUploadBlob env s fe prev contentHash ciphertext) := by
  have hput := alone_putUnlessPresent env s fe prev contentHash ciphertext
  unfold Worker.checkAndUploadBlob checkAndUploadBlob
  split
  · refine .query (env.existsErr .sameHash contentHash) ?_
    rcases env.existsErr .sameHash contentHash with _ | _ | _
    · by_cases hs : s.has contentHash
      · simp only [hs, elim_none, decide_true, if_true]
        exact ⟨rfl, rfl⟩
      · simp only [hs, elim_none, decide_false, if_false]
        exact hput
    · exact ⟨rfl, rfl⟩
    · exact hput
  · exact hput

theorem alone_processContent (missing : Bool) :
    Alone s (Worker.processContent P pl env fe prev missing)
      (processContent P pl env s fe prev missing) := by
  unfold Worker.processContent processContent
  split
  · unfold Worker.processFileStreaming processFileStreaming
    cases hashStreaming P pl env.hashPass fe.size with
    | error e => exact ⟨rfl, rfl⟩
    | ok hashed =>
      have hrehash : Alone s (Worker.rehashEntry env fe prev hashed.contentHash missing)
          (rehashEntry env s fe prev hashed.contentHash missing, s) := by
        cases prev with
        | none => exact ⟨rfl, rfl⟩
        | some prevFile =>
          unfold Worker.rehashEntry rehashEntry
          dsimp only
          split
          · exact alone_tryUnchangedEntry ..
          · exact ⟨rfl, rfl⟩
      refine hrehash.bind ?_
      dsimp only
      rcases rehashEntry env s fe prev hashed.contentHash missing with e | _ | entry
      · exact ⟨rfl, rfl⟩
      · refine (alone_uploadChangedChunks env s P pl fe.absPath hashed (prevChunks prev)).bind ?_
        dsimp only
        rcases uploadChangedChunks P pl env s fe.absPath hashed (prevChunks prev) with ⟨_ | _, _⟩
        · exact ⟨rfl, rfl⟩
        · exact ⟨rfl, rfl⟩
      · exact ⟨rfl, rfl⟩
  · rcases hashAndEncryptFile P pl env fe.absPath fe.size with e | ⟨contentHash, ciphertext⟩
    · exact ⟨rfl, rfl⟩
    · exact alone_checkAndUploadBlob ..

/-- **Alone on the store, the program can do what `processFile` says.** -/
theorem alone_processFile :
    Alone s (Worker.processFile P pl env fe prev) (processFile P pl env s fe prev) := by
  have hfast : fastPathEntry env s fe prev = (Worker.fastPathPrev fe prev).map fun prevFile =>
      tryUnchangedEntry env .fastPath s fe prevFile prevFile.contentHash := by
    cases prev with
    | none => rfl
    | some prevFile =>
      cases hmeta : sameMetadata fe prevFile <;> simp [fastPathEntry, Worker.fastPathPrev, hmeta]
  unfold Worker.processFile processFile
  rw [hfast]
  cases Worker.fastPathPrev fe prev with
  | none => exact alone_processContent ..
  | some prevFile =>
    refine (alone_tryUnchangedEntry env .fastPath s fe prevFile _).bind ?_
    dsimp only [map_some]
    rcases tryUnchangedEntry env .fastPath s fe prevFile prevFile.contentHash with e | _ | entry
    · exact ⟨rfl, rfl⟩
    · exact alone_processContent ..
    · exact ⟨rfl, rfl⟩

end

end GbfCore
