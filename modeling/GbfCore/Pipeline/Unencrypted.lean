import GbfCore.Pipeline.RoundTrip

/-!
# Repositories without a key

`NewSimplePipeline` takes an empty key: small files go through `hashOnlyFile`, and
`uploadChangedChunks` stores a chunk as it is when there is no cipher. The backup
of a file goes through (`processFile_calm`), for every content. The restore has no
such branch. Both of its readers end in `Decrypt` or in `aes.NewCipher`, which
refuse the empty key.
-/

namespace GbfCore

/-! ## A run in which nothing fails -/

/-- The file has the content `p` throughout, and nothing fails. -/
structure Env.Calm (env : Env) (p : Bytes) : Prop where
  hashPass_eq : env.hashPass = .ofContent p
  uploadPass_eq : env.uploadPass = .ofContent p
  batchErr_eq : ∀ c, env.batchErr c = none
  existsErr_eq : ∀ c h, env.existsErr c h = none
  putErr_eq : ∀ i, env.putErr i = none

section
variable {env : Env} {p : Bytes} (hcalm : env.Calm p)
include hcalm

theorem existsEach_calm (c : Check) (s : Blobs) :
    ∀ hashes : List Bytes, ∃ present, existsEach env c s hashes = .ok present
  | [] => ⟨[], rfl⟩
  | h :: hs => by
    obtain ⟨present, hrest⟩ := existsEach_calm c s hs
    rw [existsEach, hcalm.existsErr_eq, hrest]
    exact ⟨_, rfl⟩

theorem blobsExist_calm (c : Check) (s : Blobs) (hashes : List Bytes) :
    ∃ present, blobsExist env c s hashes = .ok present := by
  unfold blobsExist
  rw [hcalm.batchErr_eq]
  dsimp only
  split
  · exact ⟨_, rfl⟩
  · split
    · exact ⟨_, rfl⟩
    · exact existsEach_calm hcalm c s _

theorem tryUnchangedEntry_calm (c : Check) (s : Blobs) (fe : ScanEntry) (prevFile : FileEntry)
    (contentHash : Bytes) :
    ∃ found, tryUnchangedEntry env c s fe prevFile contentHash = .ok found := by
  unfold tryUnchangedEntry
  obtain ⟨present, hpresent⟩ := blobsExist_calm hcalm c s
    (if prevFile.chunks = [] then [contentHash] else prevFile.chunks.map ChunkRef.hash)
  dsimp only
  rw [hpresent]
  dsimp only
  generalize (if prevFile.chunks = [] then [contentHash] else prevFile.chunks.map ChunkRef.hash) =
    hashes
  split
  · exact ⟨_, rfl⟩
  · exact ⟨_, rfl⟩

theorem rehashEntry_calm (s : Blobs) (fe : ScanEntry) (prev : Option FileEntry)
    (contentHash : Bytes) (skip : Bool) :
    ∃ found, rehashEntry env s fe prev contentHash skip = .ok found := by
  unfold rehashEntry
  split
  · exact ⟨_, rfl⟩
  · split
    · exact tryUnchangedEntry_calm hcalm _ s fe _ _
    · exact ⟨_, rfl⟩

omit hcalm in
theorem hashLoop_calm (p : Bytes) : ∀ (fuel i off remaining : Nat),
    ∃ data, hashLoop (.ofContent p) fuel i off remaining = .ok data
  | 0, i, off, remaining => ⟨[], rfl⟩
  | fuel + 1, i, off, remaining => by
    rw [hashLoop]
    split
    · exact ⟨_, rfl⟩
    · simp only [Pass.ofContent, Bool.false_eq_true, if_false]
      split
      · exact ⟨_, rfl⟩
      · obtain ⟨data, hdata⟩ := hashLoop_calm p fuel (i + 1)
          (off + ((p.drop off).take (min remaining defaultChunkSize)).length)
          (remaining - ((p.drop off).take (min remaining defaultChunkSize)).length)
        rw [Pass.ofContent] at hdata
        rw [hdata]
        exact ⟨_, rfl⟩

omit hcalm in
theorem cdcLoop_calm (p : Bytes) : ∀ (ds : List Bytes) (i : Nat),
    ∃ data, cdcLoop (.ofContent p) ds i = .ok data
  | [], i => ⟨[], rfl⟩
  | d :: ds, i => by
    obtain ⟨data, hdata⟩ := cdcLoop_calm p ds (i + 1)
    rw [cdcLoop, hdata]
    exact ⟨_, rfl⟩

theorem putUnlessPresent_calm (s : Blobs) (fe : ScanEntry) (prev : Option FileEntry)
    (contentHash ciphertext : Bytes) :
    ∃ r s', putUnlessPresent env s fe prev contentHash ciphertext = (.ok r, s') := by
  unfold putUnlessPresent
  rw [hcalm.existsErr_eq, hcalm.putErr_eq]
  dsimp only
  split
  · exact ⟨_, _, rfl⟩
  · exact ⟨_, _, rfl⟩

theorem checkAndUploadBlob_calm (s : Blobs) (fe : ScanEntry) (prev : Option FileEntry)
    (contentHash ciphertext : Bytes) :
    ∃ r s', checkAndUploadBlob env s fe prev contentHash ciphertext = (.ok r, s') := by
  unfold checkAndUploadBlob
  rw [hcalm.existsErr_eq]
  dsimp only
  split
  · split
    · exact ⟨_, _, rfl⟩
    · exact putUnlessPresent_calm hcalm s fe prev _ _
  · exact putUnlessPresent_calm hcalm s fe prev _ _

variable {P : Primitives} {pl : Pipeline}

theorem hashStreaming_calm (size : Nat) :
    ∃ hashed, hashStreaming P pl env.hashPass size = .ok hashed := by
  rw [hcalm.hashPass_eq]
  unfold hashStreaming
  dsimp only
  split
  · obtain ⟨data, hdata⟩ := cdcLoop_calm p (P.cdcSplit pl.cdcPolynomial p) 0
    unfold hashFileWithCDC
    rw [if_neg (by simp [Pass.ofContent]), show (Pass.ofContent p).readAll = some p from rfl]
    dsimp only
    rw [hdata]
    exact ⟨_, rfl⟩
  · obtain ⟨data, hdata⟩ := hashLoop_calm p size 0 0 size
    unfold hashFileWithChunks
    rw [if_neg (by simp [Pass.ofContent]), hdata]
    exact ⟨_, rfl⟩

theorem hashAndEncryptFile_calm (hgcm : gcmFails pl = false) (path : Bytes) {size : Nat}
    (hsize : size < defaultChunkSize) :
    ∃ contentHash ciphertext,
      hashAndEncryptFile P pl env path size = .ok (contentHash, ciphertext) := by
  unfold hashAndEncryptFile hashOnlyFile
  rw [hcalm.hashPass_eq, hcalm.uploadPass_eq, hgcm]
  simp only [Pass.ofContent, Bool.false_eq_true, if_false, if_pos hsize]
  split
  · exact ⟨_, _, rfl⟩
  · exact ⟨_, _, rfl⟩

/-- The upload loop goes through if no turn fails. -/
theorem uploadLoop_calm {path : Bytes} {turn : (i off : Nat) → ChunkRef → Turn} {ds : List Bytes}
    (hbuf : ∀ d ∈ ds, d.length ≤ uploadBufSize pl)
    (hturn : ∀ {pre d post e}, ds = pre ++ d :: post →
      turn pre.length pre.flatten.length (chunkRef P d) ≠ .fail e) :
    ∀ {post pre : List Bytes} {uploaded : Nat} {s : Blobs}, ds = pre ++ post →
      ∃ n s', uploadLoop P pl env path turn (post.map (chunkRef P)) pre.length pre.flatten.length
        uploaded s = (.ok n, s')
  | [], pre, uploaded, s, hds => ⟨_, _, rfl⟩
  | d :: post, pre, uploaded, s, hds => by
    obtain ⟨hnext, hlen, hoff⟩ := cut_next hbuf hds
    rw [List.map_cons, uploadLoop, hcalm.uploadPass_eq, if_neg (by simp [Pass.ofContent]), ← hlen,
      ← hoff]
    cases hcase : turn pre.length pre.flatten.length (chunkRef P d) with
    | fail e => exact absurd hcase (hturn hds)
    | done => exact ⟨_, _, rfl⟩
    | skip => exact uploadLoop_calm hbuf hturn hnext
    | store b =>
      dsimp only
      rw [hcalm.putErr_eq]
      exact uploadLoop_calm hbuf hturn hnext

/-- A turn on a file that did not change finds the bytes that were hashed. -/
theorem uploadTurn_calm (hC : P.CDCLaws) {h : Hashed} {present : List Bytes} {pre post : List Bytes}
    {d : Bytes} {e : UploadError} (hds : largePieces P pl p = pre ++ d :: post) :
    uploadTurn P pl env h present pre.length pre.flatten.length (chunkRef P d) ≠ .fail e := by
  have hd : d ∈ largePieces P pl p := hds ▸ List.mem_append_right pre List.mem_cons_self
  have hp : p = (pre ++ d :: post).flatten := by rw [← hds, flatten_largePieces hC]
  have hread : (Pass.ofContent p).read pre.length pre.flatten.length d.length = some d :=
    congrArg some (read_piece (i := pre.length) (Pass.ofContent_reads p) hp rfl)
  unfold uploadTurn memTurn fileTurn
  rw [hcalm.uploadPass_eq, readSize_chunkRef (length_le_uploadBufSize hC hd), hread]
  intro hfail
  split at hfail
  · split at hfail <;> cases hfail
  · dsimp only at hfail
    rw [if_neg (Nat.lt_irrefl _)] at hfail
    split at hfail
    · cases hfail
    · split at hfail
      · cases hfail
      · rw [if_neg (fun h => h rfl)] at hfail
        cases hfail

theorem uploadChangedChunks_calm (hC : P.CDCLaws) (hgcm : gcmFails pl = false) {h : Hashed}
    (hof : h.Of P (largePieces P pl p)) (s : Blobs) (path : Bytes) (prevs : List ChunkRef) :
    ∃ n s', uploadChangedChunks P pl env s path h prevs = (.ok n, s') := by
  obtain ⟨present, hpresent⟩ := blobsExist_calm hcalm .prevChunks s (prevs.map ChunkRef.hash)
  have hopen : ¬ (useMemChunks h = false ∧ env.uploadPass.openFails = true) := by
    rw [hcalm.uploadPass_eq]
    exact fun hfails => absurd hfails.2 (by simp [Pass.ofContent])
  unfold uploadChangedChunks
  rw [hpresent]
  dsimp only
  rw [if_neg hopen, hgcm, hof.chunks_eq]
  split
  · exact ⟨_, _, rfl⟩
  · have hstart : largePieces P pl p = [] ++ largePieces P pl p := rfl
    exact uploadLoop_calm hcalm (fun d hd => length_le_uploadBufSize hC hd)
      (fun hds => uploadTurn_calm hcalm hC hds) hstart

/-- **A backup in which nothing fails returns an entry**, for every content, every
store and every previous manifest, with a key and without one. -/
theorem processFile_calm (hC : P.CDCLaws) (hgcm : gcmFails pl = false) (s : Blobs) {fe : ScanEntry}
    (hsize : fe.size = p.length) (prev : Option FileEntry) :
    ∃ r s', processFile P pl env s fe prev = (.ok r, s') := by
  have hcontent : ∀ missing, ∃ r s', processContent P pl env s fe prev missing = (.ok r, s') := by
    intro missing
    unfold processContent
    by_cases hlarge : defaultChunkSize ≤ fe.size
    · rw [if_pos hlarge]
      obtain ⟨hashed, hhash⟩ := hashStreaming_calm (P := P) hcalm fe.size
      obtain ⟨found, hfound⟩ := rehashEntry_calm hcalm s fe prev hashed.contentHash missing
      have hof : hashed.Of P (largePieces P pl p) := by
        rw [hcalm.hashPass_eq, hsize] at hhash
        exact hashStreaming_of (Pass.ofContent_reads p) hhash
      obtain ⟨n, s', hup⟩ := uploadChangedChunks_calm hcalm hC hgcm hof s fe.absPath
        (prevChunks prev)
      rw [processFileStreaming, hhash]
      dsimp only
      rw [hfound, hup]
      cases found <;> exact ⟨_, _, rfl⟩
    · rw [if_neg hlarge]
      obtain ⟨contentHash, ciphertext, hfile⟩ :=
        hashAndEncryptFile_calm (P := P) hcalm hgcm fe.absPath (Nat.not_le.mp hlarge)
      rw [hfile]
      exact checkAndUploadBlob_calm hcalm s fe prev _ _
  unfold processFile fastPathEntry
  split
  · rename_i hfast
    exfalso
    split at hfast
    · cases hfast
    · rename_i prevFile
      obtain ⟨found, hfound⟩ := tryUnchangedEntry_calm hcalm .fastPath s fe prevFile
        prevFile.contentHash
      rw [hfound] at hfast
      split at hfast <;> cases hfast
  · exact ⟨_, _, rfl⟩
  · exact hcontent true
  · exact hcontent false

end

/-! ## The restore refuses the empty key -/

section
variable {P : Primitives} {dec : Decryptor} (hk : validKey dec.key = false)
include hk

theorem decrypt_invalidKey (b out : Bytes) : decrypt P dec b ≠ .ok out := by
  intro hok
  rw [← toOption_eq_some, decrypt_toOption, hk] at hok
  cases hok

theorem downloadBlob_invalidKey (s : Blobs) (hash out : Bytes) :
    downloadBlob P dec s hash ≠ .ok out := by
  intro hok
  unfold downloadBlob at hok
  split at hok
  · cases hok
  · split at hok
    · cases hok
    · rename_i plaintext hdecrypt
      exact decrypt_invalidKey hk _ _ hdecrypt

theorem openChunkBlob_invalidKey (data out : Bytes) : openChunkBlob P dec data ≠ .ok out := by
  intro hok
  unfold openChunkBlob at hok
  rw [hk] at hok
  dsimp only at hok
  split at hok
  · cases hok
  · split at hok
    · cases hok
    · rename_i plaintext hdecrypt
      exact decrypt_invalidKey hk _ _ hdecrypt

theorem restoreChunkStream_invalidKey (canStream : Bytes → Bool) (s : Blobs) (hash out : Bytes) :
    restoreChunkStream P dec canStream s hash ≠ .ok out := by
  intro hok
  unfold restoreChunkStream at hok
  split at hok
  · exact downloadBlob_invalidKey hk s hash out hok
  · rw [decryptChunkBlobStream] at hok
    split at hok
    · cases hok
    · split at hok
      · cases hok
      · rename_i plaintext hopen
        exact openChunkBlob_invalidKey hk _ _ hopen

theorem restoreChunks_invalidKey (canStream : Bytes → Bool) (s : Blobs) {chunks : List ChunkRef}
    (hne : chunks ≠ []) (dst out : Bytes) : restoreChunks P dec canStream s chunks dst ≠ .ok out := by
  obtain ⟨c, cs, rfl⟩ := List.exists_cons_of_ne_nil hne
  intro hok
  rw [restoreChunks] at hok
  split at hok
  · cases hok
  · rename_i plaintext hchunk
    exact restoreChunkStream_invalidKey hk canStream s _ _ hchunk

theorem decryptSmallStream_invalidKey (initialData src dst : Bytes) :
    (decryptSmallStream P dec initialData src dst).written = none := by
  have hsmall : ∀ data plaintext, decryptSmall P dec data ≠ .ok plaintext := by
    intro data plaintext hok
    unfold decryptSmall at hok
    rw [hk] at hok
    split at hok <;> cases hok
  unfold decryptSmallStream
  split
  · rfl
  · split
    · rfl
    · rename_i plaintext hok
      exact absurd hok (hsmall _ plaintext)

theorem decryptStreamToFile_invalidKey (b dst : Bytes) :
    (decryptStreamToFile P dec b dst).written = none := by
  by_cases hfits : FitsSmallReader b
  · rw [decryptStreamToFile_written P dec hfits, hk]
    rfl
  · -- a long small blob, which the stream reads without looking at the length
    simp only [FitsSmallReader, Classical.not_imp, Nat.not_le] at hfits
    obtain ⟨hmagic, hcount, hlong⟩ := hfits
    have hlen : magicSize + ivSize ≤ b.length :=
      Nat.le_trans (by decide) (Nat.le_of_lt hlong)
    have h4 : ¬ b.length < magicSize := by omega
    have hdata : (b.drop magicSize).length = b.length - magicSize := List.length_drop
    have hcs : chunkCountSize ≤ ivSize := by decide
    have hrest : ((b.drop magicSize).drop chunkCountSize).length =
        b.length - magicSize - chunkCountSize := by rw [List.length_drop, hdata]
    rw [decryptStreamToFile, if_neg h4]
    dsimp only
    rw [hmagic, if_neg magicGB1_ne_magicGB3, if_neg magicGB1_ne_magicGB2, if_pos rfl,
      decryptGB1StreamToFile, if_neg (by omega)]
    dsimp only
    rw [hcount, if_pos rfl, if_neg (by omega)]
    exact decryptSmallStream_invalidKey hk _ _ dst

theorem restoreFile_invalidKey (canStream : Bytes → Bool) (s : Blobs) (file : FileEntry)
    (out : Bytes) : restoreFile P dec canStream s file ≠ .ok out := by
  unfold restoreFile
  split
  · rename_i hchunks
    exact restoreChunks_invalidKey hk canStream s hchunks [] out
  · split
    · intro hok
      unfold downloadBlobToSecureDir at hok
      split at hok
      · split at hok
        · cases hok
        · rename_i plaintext hblob
          exact downloadBlob_invalidKey hk s _ _ hblob
      · rename_i data _
        have hwritten := decryptStreamToFile_invalidKey (P := P) hk data []
        dsimp only at hok
        cases herr : (decryptStreamToFile P dec data []).err with
        | some e =>
          rw [herr] at hok
          cases hok
        | none =>
          rw [Streamed.written, Streamed.finished, herr] at hwritten
          cases hwritten
    · exact downloadBlob_invalidKey hk s _ out

end

/-- **Without a key nothing that is backed up can be restored**: the backup
succeeds, and the restore of the entry fails. -/
theorem restoreFile_processFile_unencrypted {P : Primitives} (hC : P.CDCLaws) {pl : Pipeline}
    (hkey : pl.key = []) {dec : Decryptor} (hdec : dec.key = []) {env : Env} {p : Bytes}
    (hcalm : env.Calm p) {fe : ScanEntry} (hsize : fe.size = p.length) (s : Blobs)
    (prev : Option FileEntry) (canStream : Bytes → Bool) :
    ∃ r s', processFile P pl env s fe prev = (.ok r, s') ∧
      ∀ out, restoreFile P dec canStream s' r.entry ≠ .ok out := by
  have hgcm : gcmFails pl = false := by simp [gcmFails, hkey]
  obtain ⟨r, s', hrun⟩ := processFile_calm hcalm hC hgcm s hsize prev
  refine ⟨r, s', hrun, fun out => ?_⟩
  exact restoreFile_invalidKey (by rw [hdec]; rfl) canStream s' r.entry out

/-- An unencrypted pipeline with fixed-size chunks. -/
def plainPipeline : Pipeline := ⟨[], false, 0⟩

/-- A run over the content `p` in which nothing fails. -/
def calmEnv (p : Bytes) : Env := .faultless (.ofContent p) (.ofContent p)

theorem calmEnv_calm (p : Bytes) : (calmEnv p).Calm p :=
  ⟨rfl, rfl, fun _ => rfl, fun _ _ => rfl, fun _ => rfl⟩

/-- A file of four bytes in a fresh repository without a key. -/
theorem restoreFile_processFile_unencrypted_four :
    ∃ r s', processFile samplePrimitives plainPipeline (calmEnv zstdMagic) .empty (sampleScan 4)
        none = (.ok r, s') ∧
      ∀ out, restoreFile samplePrimitives (newDecryptor [] 0) (fun _ => true) s' r.entry ≠
        .ok out :=
  restoreFile_processFile_unencrypted samplePrimitives_cdc rfl rfl (calmEnv_calm zstdMagic) rfl
    .empty none fun _ => true

/-- The four bytes are stored as they are, and read as the magic of a blob. -/
theorem restoreFile_processFile_invalidMagic :
    ∃ r s', processFile samplePrimitives plainPipeline (calmEnv zstdMagic) .empty (sampleScan 4)
        none = (.ok r, s') ∧
      restoreFile samplePrimitives (newDecryptor [] 0) (fun _ => true) s' r.entry =
        .error (.decrypt (.invalidMagic zstdMagic)) :=
  ⟨_, _, rfl, by decide⟩

end GbfCore
