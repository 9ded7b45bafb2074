import GbfCore.Pipeline.RoundTrip
import GbfCore.Pipeline.Worker

/-!
# Content addressing

A blob is put under the SHA-256 of its plaintext. This file decides when that is so for
every `Put` of `processFile`, for every behaviour of the live file and whatever the store
answers.

The upload of a large file stores the bytes of the hash pass, or checks the bytes of its
own pass against the hash; the blob of a small file with a key is made from the bytes that
were hashed. Only `hashOnlyFile` reads the file twice and compares nothing
(`puts_addressed_iff`).
-/

namespace GbfCore

open Prog

variable {fe : ScanEntry} {ciphertext contentHash : Bytes} {env : Env} {Q : StoreCall → Prop}

/-! ## The plaintext of a blob -/

section
variable (P : Primitives) (pl : Pipeline)

/-- A blob without its encryption, if there is a key. -/
def unsealed (blob : Bytes) : Option Bytes :=
  if pl.key = [] then some blob
  else P.gcmOpen pl.key ((blob.drop magicSize).take ivSize) ((blob.drop magicSize).drop ivSize)

/-- What the writer of a file stores for a plaintext, and whether it compressed it. -/
def written (fe : ScanEntry) (data : Bytes) : Bytes × Bool :=
  -- without a key the blob of a small file is the content as it is
  if pl.key = [] ∧ fe.size < defaultChunkSize then (data, false)
  else storedChunk P (!isLikelyIncompressible fe.absPath) data

/-- `data` is the plaintext of a blob: what is behind the encryption is what the writer
stores for it, and decompresses to it if the writer compressed it. -/
structure Plaintext (fe : ScanEntry) (blob data : Bytes) : Prop where
  unsealed_eq : unsealed P pl blob = some (written P pl fe data).1
  decompresses : (written P pl fe data).2 = true →
    ∃ limit, P.zstdDecompress limit (written P pl fe data).1 = some data

/-- A call that stores no blob under a name that is not the hash of its plaintext. -/
def Addressed (fe : ScanEntry) : StoreCall → Prop
  | .put hash blob => ∃ data, Plaintext P pl fe blob data ∧ P.contentHash data = hash
  | _ => True

/-- The two reads of a small file without a key deliver the same bytes. -/
def SameReads (env : Env) : Prop :=
  ∀ hashed data, env.hashPass.openFails = false → env.uploadPass.openFails = false →
    env.hashPass.readAll = some hashed → env.uploadPass.readAll = some data → data = hashed

variable {P pl}

theorem unsealed_sealedBlob (hA : P.AEADLaws) (hkey : pl.key ≠ []) (hgcm : gcmFails pl = false)
    (draws : Draws) (stored : Bytes) :
    unsealed P pl (sealedBlob P pl draws stored) = some stored := by
  have hvalid : validKey pl.key = true := by
    simpa [gcmFails, hkey] using hgcm
  rw [unsealed, if_neg hkey]
  exact (sealedText hA ⟨pl.key, defaultChunkSize, defaultChunkSize_pos⟩ hvalid draws stored).opens

theorem storedChunk_decompresses (hZ : P.ZstdLaws) (tryCompress : Bool) (data : Bytes)
    (h : (storedChunk P tryCompress data).2 = true) :
    ∃ limit, P.zstdDecompress limit (storedChunk P tryCompress data).1 = some data := by
  unfold storedChunk at h ⊢
  split at h
  · rename_i hgain
    rw [if_pos hgain]
    exact ⟨data.length, hZ.decompress_compress _ data (Nat.le_refl _)⟩
  · cases h

/-- A blob of the bytes as the writer stores them has them as its plaintext. -/
theorem plaintext_of_storedChunk (hZ : P.ZstdLaws) {blob data : Bytes}
    (hmode : ¬ (pl.key = [] ∧ fe.size < defaultChunkSize))
    (hblob : unsealed P pl blob = some (toStore P fe.absPath data)) :
    Plaintext P pl fe blob data := by
  constructor
  · rw [written, if_neg hmode]
    exact hblob
  · rw [written, if_neg hmode]
    exact storedChunk_decompresses hZ _ data

theorem plaintext_chunkBlob (hA : P.AEADLaws) (hZ : P.ZstdLaws)
    (hlarge : defaultChunkSize ≤ fe.size) (hgcm : gcmFails pl = false) (draws : Draws)
    (data : Bytes) : Plaintext P pl fe (chunkBlob P pl fe.absPath draws data) data := by
  refine plaintext_of_storedChunk hZ (fun h => absurd h.2 (Nat.not_lt.mpr hlarge)) ?_
  unfold chunkBlob
  split
  · rename_i hkey
    exact if_pos hkey
  · rename_i hkey
    exact unsealed_sealedBlob hA hkey hgcm draws _

theorem addressed_of_isCheck {c : StoreCall} (h : c.isCheck = true) :
    Addressed P pl fe c := by
  cases c with
  | query _ => exact trivial
  | existsBatch _ => exact trivial
  | put _ _ => cases h

/-! ## Large files -/

/-- The turns store bytes that have the hash of their chunk. -/
theorem calls_uploadLoop {path : Bytes} {turn : (i off : Nat) → ChunkRef → Turn}
    {chunks : List ChunkRef} : ∀ (i off uploaded : Nat),
      (∀ k c off b, chunks[k]? = some c → turn (i + k) off c = .store b →
        Q (.put c.hash (chunkBlob P pl path (env.draws (i + k)) b))) →
      (Worker.uploadLoop P pl env path turn chunks i off uploaded).Calls Q := by
  induction chunks with
  | nil => exact fun _ _ _ _ => sat_ret trivial
  | cons c cs ih =>
    intro i off uploaded hturn
    have hrest : ∀ off uploaded,
        (Worker.uploadLoop P pl env path turn cs (i + 1) off uploaded).Calls Q := by
      intro off uploaded
      refine ih (i + 1) off uploaded fun k d off' b hk hd => ?_
      rw [Nat.add_assoc, Nat.add_comm 1 k] at hd ⊢
      exact hturn (k + 1) d off' b hk hd
    unfold Worker.uploadLoop
    split
    · exact sat_ret trivial
    cases hstep : turn i off c with
    | fail e => exact sat_ret trivial
    | done => exact sat_ret trivial
    | skip => exact hrest _ _
    | store b =>
      refine calls_ok (sat_ask (hturn 0 c off b rfl hstep)) (fun _ => trivial) fun _ => ?_
      exact hrest _ _

/-- The bytes of a turn have the hash of the chunk: they were kept from the hash pass, or
compared with it. -/
theorem contentHash_of_uploadTurn {h : Hashed} {ds present : List Bytes} (hof : h.Of P ds)
    {k off : Nat} {c : ChunkRef} {b : Bytes} (hk : h.chunks[k]? = some c)
    (hturn : uploadTurn P pl env h present k off c = .store b) : P.contentHash b = c.hash := by
  unfold uploadTurn at hturn
  split at hturn
  · rename_i hmem
    rw [hof.chunks_eq, List.getElem?_map, Option.map_eq_some_iff] at hk
    obtain ⟨d, hd, rfl⟩ := hk
    rw [hof.data_of_mem hmem, List.getD_eq_getElem?_getD, hd] at hturn
    unfold memTurn at hturn
    split at hturn
    · cases hturn
    · cases hturn
      rfl
  · unfold fileTurn at hturn
    split at hturn
    · cases hturn
    split at hturn
    · cases hturn
    split at hturn
    · cases hturn
    split at hturn
    · cases hturn
    split at hturn
    · cases hturn
    · rename_i hsame
      cases hturn
      exact not_not.mp hsame

/-- Every `Put` of `uploadChangedChunks` stores the blob of a chunk under the chunk's
hash, and the key is empty or one that AES takes. -/
theorem calls_uploadChangedChunks (hcheck : ∀ c, c.isCheck = true → Q c) {path : Bytes}
    {hashed : Hashed} {ds : List Bytes} (hof : hashed.Of P ds) (prevs : List ChunkRef)
    (hput : gcmFails pl = false →
      ∀ chunk draws, Q (.put (P.contentHash chunk) (chunkBlob P pl path draws chunk))) :
    (Worker.uploadChangedChunks P pl env path hashed prevs).Calls Q := by
  refine calls_ok (calls_blobsExist hcheck env _) (fun _ => trivial) fun present => ?_
  show (Worker.uploadMissing P pl env path hashed present).Calls _
  unfold Worker.uploadMissing
  split
  · exact sat_ret trivial
  split
  · exact sat_ret trivial
  split
  · exact sat_ret trivial
  · rename_i hgcm
    refine calls_uploadLoop 0 0 0 fun k c off b hk hturn => ?_
    rw [Nat.zero_add] at hturn
    rw [← contentHash_of_uploadTurn hof hk hturn]
    exact hput (Bool.eq_false_iff.mpr hgcm) b _

/-! ## Small files -/

/-- The blob of a small file, where the reads of `hashOnlyFile` agree. -/
theorem addressed_hashAndEncryptFile (hA : P.AEADLaws) (hZ : P.ZstdLaws)
    (hsmall : fe.size < defaultChunkSize) (hsame : pl.key = [] → SameReads env)
    (hrun : hashAndEncryptFile P pl env fe.absPath fe.size = .ok (contentHash, ciphertext)) :
    Addressed P pl fe (.put contentHash ciphertext) := by
  obtain ⟨content, hread, rfl, hgcm, hblob⟩ := hashAndEncryptFile_ok hrun
  by_cases hkey : pl.key = []
  · rw [if_pos hkey] at hblob
    obtain ⟨hopen, hopen', hread'⟩ := hblob
    have hdata := hsame hkey content ciphertext hopen hopen' hread hread'
    have hwritten : written P pl fe ciphertext = (ciphertext, false) := if_pos ⟨hkey, hsmall⟩
    refine ⟨ciphertext, ⟨?_, ?_⟩, congrArg P.contentHash hdata⟩
    · rw [hwritten]
      exact if_pos hkey
    · rw [hwritten]
      exact nofun
  · rw [if_neg hkey] at hblob
    refine ⟨content, plaintext_of_storedChunk hZ (fun h => hkey h.1) ?_, rfl⟩
    rw [hblob]
    exact unsealed_sealedBlob hA hkey hgcm _ _

/-! ## A store that has nothing -/

theorem trace_existsEach_none (hashes : List Bytes) :
    ∃ cs, (Worker.existsEach hashes).Trace cs (.ok []) := by
  induction hashes with
  | nil => exact ⟨[], rfl, rfl⟩
  | cons h hs ih =>
    obtain ⟨cs, hcs⟩ := ih
    refine ⟨.query h :: (cs ++ []), trace_ask (.ok false) ?_⟩
    have hend : (pure (Except.ok []) : StoreProg (Except ExistsError (List Bytes))).Trace []
        (.ok []) := ⟨rfl, rfl⟩
    exact trace_bind hcs hend

theorem trace_blobsExist_none (env : Env) (hashes : List Bytes) :
    ∃ cs, (Worker.blobsExist env hashes).Trace cs (.ok []) := by
  unfold Worker.blobsExist
  dsimp only
  split
  · exact ⟨[], rfl, rfl⟩
  split
  · refine ⟨_, .ok fun _ => false, [], rfl, rfl, ?_⟩
    exact congrArg Except.ok (List.filter_eq_nil_iff.mpr fun _ _ => Bool.false_ne_true).symm
  · exact trace_existsEach_none _

theorem trace_tryUnchangedEntry_none (env : Env) (fe : ScanEntry) (prevFile : FileEntry)
    (contentHash : Bytes) :
    ∃ cs, (Worker.tryUnchangedEntry env fe prevFile contentHash).Trace cs (.ok none) := by
  obtain ⟨cs, hcs⟩ := trace_blobsExist_none env
    (if prevFile.chunks = [] then [contentHash] else prevFile.chunks.map ChunkRef.hash)
  refine ⟨_, trace_bind hcs ⟨rfl, ?_⟩⟩
  show _ = Except.ok (Worker.unchangedEntry fe prevFile contentHash _ [])
  unfold Worker.unchangedEntry
  -- there is a hash to look up, and it is not there
  rw [if_neg]
  split
  · exact nofun
  · rename_i hchunks
    obtain ⟨c, cs', hc⟩ := List.exists_cons_of_ne_nil hchunks
    rw [hc]
    exact nofun

theorem trace_checkAndUploadBlob_put (fe : ScanEntry) (prev : Option FileEntry)
    (contentHash ciphertext : Bytes) :
    ∃ cs r, (Worker.checkAndUploadBlob fe prev contentHash ciphertext).Trace cs r ∧
      .put contentHash ciphertext ∈ cs := by
  have hput : (Worker.putUnlessPresent fe prev contentHash ciphertext).Trace
      [.query contentHash, .put contentHash ciphertext]
      (.ok (Worker.blobResult fe prev contentHash fe.size)) :=
    ⟨.ok false, _, rfl, .ok (), [], rfl, rfl, rfl⟩
  unfold Worker.checkAndUploadBlob
  split
  · exact ⟨_, _, ⟨.ok false, _, rfl, hput⟩, List.mem_cons_of_mem _ (by simp)⟩
  · exact ⟨_, _, hput, by simp⟩

/-- A store that has nothing gets the blob of a small file. -/
theorem trace_processFile_put (hsmall : fe.size < defaultChunkSize)
    (hrun : hashAndEncryptFile P pl env fe.absPath fe.size = .ok (contentHash, ciphertext))
    (prev : Option FileEntry) :
    ∃ cs r, (Worker.processFile P pl env fe prev).Trace cs r ∧
      .put contentHash ciphertext ∈ cs := by
  obtain ⟨cs, r, hcs, hmem⟩ := trace_checkAndUploadBlob_put fe prev contentHash ciphertext
  have hcontent : ∀ missing, (Worker.processContent P pl env fe prev missing).Trace cs r := by
    intro missing
    unfold Worker.processContent
    rw [if_neg (Nat.not_le.mpr hsmall), hrun]
    exact hcs
  unfold Worker.processFile
  cases Worker.fastPathPrev fe prev with
  | none => exact ⟨cs, r, hcontent false, hmem⟩
  | some prevFile =>
    obtain ⟨cs', hcs'⟩ := trace_tryUnchangedEntry_none env fe prevFile prevFile.contentHash
    exact ⟨_, r, trace_bind hcs' (hcontent true), List.mem_append_right _ hmem⟩

/-! ## Every put -/

/-- **Every `Put` of `processFile` stores a blob under the hash of its plaintext**, whatever
the store answers, exactly if the two reads of a small file without a key agree. -/
theorem puts_addressed_iff (hA : P.AEADLaws) (hZ : P.ZstdLaws) {env : Env}
    (hsha : ∀ a b, env.hashPass.readAll = some a → env.uploadPass.readAll = some b →
      P.sha256 b = P.sha256 a → b = a) (fe : ScanEntry) (prev : Option FileEntry) :
    (Worker.processFile P pl env fe prev).Calls (Addressed P pl fe) ↔
      (pl.key = [] → fe.size < defaultChunkSize → SameReads env) := by
  constructor
  · intro hcalls hkey hsmall hashed data hopen hopen' hread hread'
    have hrun : hashAndEncryptFile P pl env fe.absPath fe.size =
        .ok (P.contentHash hashed, data) := by
      simp [hashAndEncryptFile, hashOnlyFile, hkey, hopen, hopen', hread, hread', hsmall]
    obtain ⟨cs, r, htrace, hmem⟩ := trace_processFile_put hsmall hrun prev
    obtain ⟨plain, hplain, hhash⟩ := (trace_of_sat hcalls htrace).1 _ hmem
    have hdata : data = plain := by
      have hunsealed := hplain.unsealed_eq
      rw [written, if_pos ⟨hkey, hsmall⟩, unsealed, if_pos hkey] at hunsealed
      exact Option.some.inj hunsealed
    exact hsha hashed data hread hread' (hexEncode_inj (hdata ▸ hhash))
  · intro hsame
    refine sat_processFile (fun _ => addressed_of_isCheck) (fun _ => trivial) (fun _ => trivial)
      (fun hsmall contentHash ciphertext hrun => ⟨?_, fun _ => trivial⟩)
      (fun hlarge hashed hhash => ⟨?_, fun _ => trivial⟩)
    · exact addressed_hashAndEncryptFile hA hZ hsmall (fun hkey => hsame hkey hsmall) hrun
    · obtain ⟨ds, -, hof⟩ := hashStreaming_ok hhash
      exact calls_uploadChangedChunks (fun _ => addressed_of_isCheck) hof _ fun hgcm chunk draws =>
        ⟨chunk, plaintext_chunkBlob hA hZ hlarge hgcm draws chunk, rfl⟩

end

/-- A file that is empty when it is hashed, and not when it is read again. -/
def rewrittenEnv : Env :=
  .faultless (.delivering (fun _ => []) []) (.delivering (fun _ => zstdMagic) zstdMagic)

/-- With a key the file is read once. -/
theorem puts_addressed_rewritten :
    (Worker.processFile samplePrimitives samplePipeline rewrittenEnv (sampleScan 0) none).Calls
      (Addressed samplePrimitives samplePipeline (sampleScan 0)) := by
  refine (puts_addressed_iff samplePrimitives_aead samplePrimitives_zstd ?_ (sampleScan 0)
    none).mpr fun hkey => absurd hkey (by decide)
  intro a b ha hb hsha
  cases ha
  cases hb
  exact absurd hsha (by decide)

/-- Without a key, the later content is stored under the hash of the earlier one. -/
theorem put_not_addressed :
    (Worker.processFile samplePrimitives ⟨[], false, 0⟩ rewrittenEnv (sampleScan 0) none).Trace
        [.query (samplePrimitives.contentHash []),
          .put (samplePrimitives.contentHash []) zstdMagic]
        (.ok (Worker.blobResult (sampleScan 0) none (samplePrimitives.contentHash []) 0)) ∧
      ¬ Addressed samplePrimitives ⟨[], false, 0⟩ (sampleScan 0)
        (.put (samplePrimitives.contentHash []) zstdMagic) := by
  refine ⟨⟨.ok false, _, rfl, .ok (), [], rfl, rfl, rfl⟩, ?_⟩
  rintro ⟨data, hplain, hhash⟩
  have hdata : zstdMagic = data := Option.some.inj hplain.unsealed_eq
  subst hdata
  exact absurd hhash (by decide)

end GbfCore
