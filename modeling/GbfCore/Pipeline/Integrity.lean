import GbfCore.Blob.Sample
import GbfCore.Pipeline.Process

/-!
# Referential integrity of an entry

A restore of an entry fetches the blobs of `FileEntry.blobRefs`. This file
decides when they are all in the store at the moment `processFile` returns the
entry, for every behaviour of the live file and of the store.

An existence check is sound (`blobsExist_sound`), and so is an entry that
`tryUnchangedEntry` takes over. What an upload leaves in the store is the store
before it and the chunks the loop reached (`uploadLoop_has`). Three paths return
references nobody looked up or put (`uncheckedRefs`):

* a small file whose content hash is the previous one and whose content blob is
  there takes over the previous chunk list without looking at it;
* a large file whose hash pass reads nothing has no chunks, and the blob of the
  empty content is not put;
* an upload pass that reads the file again stops, without an error, at a read
  that delivers nothing; the later chunks are not put.
-/

namespace GbfCore

open List

variable {env : Env} {c : Check} {s s' : Blobs} {present : List Bytes} {fe : ScanEntry}
  {turn : (i off : Nat) → ChunkRef → Turn} {prevs : List ChunkRef}
variable {ciphertext contentHash path : Bytes} {h : Hashed} {prev : Option FileEntry}
variable {r : Processed}

/-! ## Existence checks are sound -/

theorem existsEach_sound :
    ∀ {hashes present : List Bytes}, existsEach env c s hashes = .ok present →
      ∀ h ∈ present, s.has h
  | [], _, hrun, h, hmem => by
    cases hrun
    cases hmem
  | x :: xs, present, hrun, h, hmem => by
    rw [existsEach] at hrun
    split at hrun
    · cases hrun
    · exact existsEach_sound hrun h hmem
    · cases hrest : existsEach env c s xs with
      | error e =>
        rw [hrest] at hrun
        cases hrun
      | ok rest =>
        rw [hrest] at hrun
        cases hrun
        dsimp only at hmem
        by_cases hx : s.has x
        · rw [if_pos hx] at hmem
          rcases mem_cons.mp hmem with rfl | hmem
          · exact hx
          · exact existsEach_sound hrest h hmem
        · rw [if_neg hx] at hmem
          exact existsEach_sound hrest h hmem

/-- A hash that is reported is there. -/
theorem blobsExist_sound {hashes : List Bytes} (hrun : blobsExist env c s hashes = .ok present) :
    ∀ h ∈ present, s.has h := by
  unfold blobsExist at hrun
  dsimp only at hrun
  split at hrun
  · cases hrun
    intro h hmem
    cases hmem
  · split at hrun
    · split at hrun
      · cases hrun
        intro h hmem
        exact of_decide_eq_true (mem_filter.mp hmem).2
      · cases hrun
      · exact existsEach_sound hrun
    · exact existsEach_sound hrun

/-- An entry that is taken over refers to blobs that are there. -/
theorem tryUnchangedEntry_ok {prevFile entry : FileEntry}
    (hrun : tryUnchangedEntry env c s fe prevFile contentHash = .ok (some entry)) :
    entry = { makeFileEntry fe contentHash fileStatusUnchanged with chunks := prevFile.chunks } ∧
      ∀ h ∈ entry.blobRefs, s.has h := by
  unfold tryUnchangedEntry at hrun
  generalize hhashes :
    (if prevFile.chunks = [] then [contentHash] else prevFile.chunks.map ChunkRef.hash) = hashes
    at hrun
  dsimp only at hrun
  split at hrun
  · cases hrun
  · rename_i present hpresent
    split at hrun
    · rename_i hall
      cases hrun
      refine ⟨rfl, fun h hmem => ?_⟩
      have hin := all_eq_true.mp hall h (hhashes ▸ hmem)
      exact blobsExist_sound hpresent h (contains_iff_mem.mp hin)
    · cases hrun

/-! ## What an upload leaves in the store -/

section
variable (P : Primitives) (pl : Pipeline)

/-- The turn ends the loop. -/
def Turn.isDone : Turn → Bool
  | .done => true
  | _ => false

/-- The chunks in front of the first turn that ends the loop. -/
def reachedChunks (turn : (i off : Nat) → ChunkRef → Turn) :
    (chunks : List ChunkRef) → (i off : Nat) → List ChunkRef
  | [], _, _ => []
  | c :: cs, i, off =>
    if (turn i off c).isDone then []
    else c :: reachedChunks turn cs (i + 1) (off + readSize pl c)

variable {P pl}

/-- The upload loop puts the chunks it reaches, and nothing else. The invariant
of the loop is that the chunks it may skip are in the store. -/
theorem uploadLoop_has (hskip : ∀ i off c, turn i off c = .skip → c.hash ∈ present) :
    ∀ {chunks : List ChunkRef} {i off uploaded n : Nat} {s s' : Blobs},
      (∀ h ∈ present, s.has h) →
      uploadLoop P pl env path turn chunks i off uploaded s = (.ok n, s') →
      ∀ h, s'.has h ↔ s.has h ∨ h ∈ (reachedChunks pl turn chunks i off).map ChunkRef.hash
  | [], i, off, uploaded, n, s, s', _, hrun, h => by
    cases hrun
    simp [reachedChunks]
  | c :: cs, i, off, uploaded, n, s, s', hs, hrun, h => by
    rw [uploadLoop] at hrun
    rw [reachedChunks]
    split at hrun
    · cases hrun
    · cases hturn : turn i off c with
      | fail e =>
        rw [hturn] at hrun
        cases hrun
      | done =>
        rw [hturn] at hrun
        cases hrun
        simp [Turn.isDone]
      | skip =>
        rw [hturn] at hrun
        have hc : s.has c.hash := hs _ (hskip i off c hturn)
        rw [uploadLoop_has hskip hs hrun h]
        simp only [Turn.isDone, Bool.false_eq_true, if_false, map_cons, mem_cons]
        constructor
        · rintro (h1 | h1)
          · exact .inl h1
          · exact .inr (.inr h1)
        · rintro (h1 | rfl | h1)
          · exact .inl h1
          · exact .inl hc
          · exact .inr h1
      | store b =>
        rw [hturn] at hrun
        dsimp only at hrun
        split at hrun
        · cases hrun
        · have hs' : ∀ x ∈ present, (s.put c.hash (chunkBlob P pl path (env.draws i) b)).has x :=
            fun x hx => Blobs.has_put_of_has _ (hs x hx)
          rw [uploadLoop_has hskip hs' hrun h, Blobs.has_put_iff]
          simp only [Turn.isDone, Bool.false_eq_true, if_false, map_cons, mem_cons]
          exact or_assoc

theorem uploadTurn_skip {i off : Nat} {c : ChunkRef}
    (hturn : uploadTurn P pl env h present i off c = .skip) :
    c.hash ∈ present := by
  unfold uploadTurn memTurn fileTurn at hturn
  by_cases hc : present.contains c.hash = true
  · exact contains_iff_mem.mp hc
  · rw [if_neg hc] at hturn
    exfalso
    repeat' split at hturn
    all_goals cases hturn

variable (pl) in
/-- The chunks a pass reads before a read that delivers nothing. -/
def rereadChunks (pass : Pass) : (chunks : List ChunkRef) → (i off : Nat) → List ChunkRef
  | [], _, _ => []
  | c :: cs, i, off =>
    if pass.read i off (readSize pl c) = some [] then []
    else c :: rereadChunks pass cs (i + 1) (off + readSize pl c)

variable (pl) in
/-- The chunks the upload reaches: all if the hash pass kept their bytes. -/
def uploadedChunks (env : Env) (h : Hashed) : List ChunkRef :=
  if useMemChunks h then h.chunks else rereadChunks pl env.uploadPass h.chunks 0 0

theorem reachedChunks_mem (hturn : ∀ i off c, (turn i off c).isDone = false) :
    ∀ (chunks : List ChunkRef) (i off : Nat), reachedChunks pl turn chunks i off = chunks
  | [], _, _ => rfl
  | c :: cs, i, off => by
    rw [reachedChunks, hturn, reachedChunks_mem hturn cs]
    rfl

theorem fileTurn_isDone {pass : Pass} {i off : Nat} {c : ChunkRef} :
    (fileTurn P pl pass present i off c).isDone = true ↔
      pass.read i off (readSize pl c) = some [] := by
  unfold fileTurn
  cases hread : pass.read i off (readSize pl c) with
  | none => simp [Turn.isDone]
  | some b =>
    cases b with
    | nil => simp [Turn.isDone]
    | cons x xs =>
      dsimp only [length_cons]
      repeat' split
      all_goals simp_all [Turn.isDone]

theorem reachedChunks_file {pass : Pass} :
    ∀ (chunks : List ChunkRef) (i off : Nat),
      reachedChunks pl (fileTurn P pl pass present) chunks i off =
        rereadChunks pl pass chunks i off
  | [], _, _ => rfl
  | c :: cs, i, off => by
    rw [reachedChunks, rereadChunks, reachedChunks_file cs]
    by_cases hread : pass.read i off (readSize pl c) = some []
    · rw [if_pos (fileTurn_isDone.mpr hread), if_pos hread]
    · rw [if_neg (fun h => hread (fileTurn_isDone.mp h)), if_neg hread]

theorem reachedChunks_uploadTurn :
    reachedChunks pl (uploadTurn P pl env h present) h.chunks 0 0 = uploadedChunks pl env h := by
  cases hmem : useMemChunks h with
  | true =>
    rw [uploadedChunks, if_pos hmem]
    apply reachedChunks_mem
    intro i off c
    rw [uploadTurn, if_pos hmem, memTurn]
    split <;> rfl
  | false =>
    have hturn : uploadTurn P pl env h present = fileTurn P pl env.uploadPass present := by
      funext i off c
      rw [uploadTurn, hmem]
      rfl
    rw [uploadedChunks, hmem, hturn, reachedChunks_file]
    rfl

/-- After an upload the chunks of the file are in the store, if those it did not
reach were. -/
theorem uploadChangedChunks_has_iff {n : Nat}
    (hrun : uploadChangedChunks P pl env s path h prevs = (.ok n, s')) :
    (∀ c ∈ h.chunks, s'.has c.hash) ↔
      ∀ c ∈ h.chunks, s.has c.hash ∨ c.hash ∈ (uploadedChunks pl env h).map ChunkRef.hash := by
  unfold uploadChangedChunks at hrun
  split at hrun
  · cases hrun
  · rename_i present hpresent
    have hsound := blobsExist_sound hpresent
    split at hrun
    · rename_i hall
      cases hrun
      -- every chunk was found in the store, and nothing is put
      have hhas : ∀ c ∈ h.chunks, s.has c.hash := fun c hc =>
        hsound _ (contains_iff_mem.mp (all_eq_true.mp hall c hc))
      exact ⟨fun _ c hc => .inl (hhas c hc), fun _ => hhas⟩
    · split at hrun
      · cases hrun
      · split at hrun
        · cases hrun
        · have hloop := uploadLoop_has (fun i off c => uploadTurn_skip) hsound hrun
          rw [reachedChunks_uploadTurn] at hloop
          exact forall₂_congr fun c _ => hloop c.hash

/-! ## The references nobody looked up or put -/

/-- The previous chunks, if `checkAndUploadBlob` takes them over because the blob
of the whole content is there. -/
def reusedChunks (env : Env) (s : Blobs) (prev : Option FileEntry) (contentHash : Bytes) :
    List Bytes :=
  if (prev.isSome ∧ prevHash prev = contentHash) ∧
      env.existsErr .sameHash contentHash = none ∧ s.has contentHash then
    (prevChunks prev).map ChunkRef.hash
  else []

variable (P pl) in
/-- The references of a large file that its upload does not reach: the content
hash if there are no chunks, else the chunks behind an empty read. -/
def unreachedRefs (env : Env) (s : Blobs) (fe : ScanEntry) (prev : Option FileEntry)
    (skipUnchangedEntry : Bool) : List Bytes :=
  match hashStreaming P pl env.hashPass fe.size with
  | .error _ => []
  | .ok h =>
    match rehashEntry env s fe prev h.contentHash skipUnchangedEntry with
    | .ok none =>
      if h.chunks = [] then [h.contentHash]
      else
        (h.chunks.map ChunkRef.hash).filter fun x =>
          x ∉ (uploadedChunks pl env h).map ChunkRef.hash
    | _ => []

variable (P pl) in
/-- The references a run returns without having looked them up or put them. -/
def uncheckedRefs (env : Env) (s : Blobs) (fe : ScanEntry) (prev : Option FileEntry) :
    List Bytes :=
  match fastPathEntry env s fe prev with
  | some (.ok (some _)) => []
  | fast =>
    if defaultChunkSize ≤ fe.size then unreachedRefs P pl env s fe prev fast.isSome
    else
      match env.hashPass.readAll with
      | none => []
      | some content => reusedChunks env s prev (P.contentHash content)

theorem checkAndUploadBlob_has_iff
    (hrun : checkAndUploadBlob env s fe prev contentHash ciphertext = (.ok r, s')) :
    (∀ h ∈ r.entry.blobRefs, s'.has h) ↔ ∀ h ∈ reusedChunks env s prev contentHash, s.has h := by
  have hok := checkAndUploadBlob_ok hrun
  unfold reusedChunks
  split
  · rename_i hreuse
    rw [if_pos hreuse] at hok
    obtain ⟨hentry, rfl⟩ := hok
    rw [hentry]
    by_cases hchunks : prevChunks prev = []
    · refine iff_of_true (fun h hmem => ?_) (by simp [hchunks])
      rw [FileEntry.blobRefs_single hchunks] at hmem
      rw [mem_singleton.mp hmem]
      exact hreuse.2.2
    · rw [FileEntry.blobRefs_chunked hchunks]
  · rename_i hreuse
    rw [if_neg hreuse] at hok
    obtain ⟨hentry, hs⟩ := putUnlessPresent_ok hok
    refine iff_of_true (fun h hmem => ?_) fun _ hmem => absurd hmem not_mem_nil
    rw [hentry] at hmem
    rw [mem_singleton.mp hmem]
    rcases hs with ⟨hhas, rfl⟩ | rfl
    · exact hhas
    · exact s.has_put_self _ _

theorem uploadChangedChunks_no_chunks {n : Nat} (hchunks : h.chunks = [])
    (hrun : uploadChangedChunks P pl env s path h prevs = (.ok n, s')) : s' = s := by
  unfold uploadChangedChunks at hrun
  rw [hchunks] at hrun
  split at hrun
  · cases hrun
  · cases hrun
    rfl

theorem processFileStreaming_has_iff {skip : Bool}
    (hrun : processFileStreaming P pl env s fe prev skip = (.ok r, s')) :
    (∀ h ∈ r.entry.blobRefs, s'.has h) ↔
      ∀ h ∈ unreachedRefs P pl env s fe prev skip, s.has h := by
  obtain ⟨hashed, hhash, ⟨hre, rfl⟩ | ⟨hre, hentry, n, hup⟩⟩ := processFileStreaming_ok hrun
  · rw [unreachedRefs, hhash]
    dsimp only
    rw [hre]
    obtain ⟨f, -, -, htry⟩ := rehashEntry_ok hre
    exact iff_of_true (tryUnchangedEntry_ok htry).2 fun _ hmem => absurd hmem not_mem_nil
  · rw [unreachedRefs, hhash, hentry]
    dsimp only
    rw [hre]
    dsimp only
    by_cases hchunks : hashed.chunks = []
    · rw [if_pos hchunks, FileEntry.blobRefs_single hchunks,
        uploadChangedChunks_no_chunks hchunks hup]
      rfl
    · rw [if_neg hchunks, FileEntry.blobRefs_chunked hchunks]
      rw [forall_mem_map, uploadChangedChunks_has_iff hup]
      constructor
      · intro hall h hmem
        obtain ⟨hchunk, hnew⟩ := mem_filter.mp hmem
        obtain ⟨c, hc, rfl⟩ := mem_map.mp hchunk
        exact (hall c hc).resolve_right (of_decide_eq_true hnew)
      · intro hall c hc
        by_cases hup : c.hash ∈ (uploadedChunks pl env hashed).map ChunkRef.hash
        · exact .inr hup
        · exact .inl (hall _ (mem_filter.mpr ⟨mem_map_of_mem hc, decide_eq_true hup⟩))

theorem processContent_has_iff {fastPathBlobMissing : Bool}
    (hrun : processContent P pl env s fe prev fastPathBlobMissing = (.ok r, s')) :
    (∀ h ∈ r.entry.blobRefs, s'.has h) ↔
      ∀ h ∈ if defaultChunkSize ≤ fe.size then
              unreachedRefs P pl env s fe prev fastPathBlobMissing
            else
              match env.hashPass.readAll with
              | none => []
              | some content => reusedChunks env s prev (P.contentHash content), s.has h := by
  unfold processContent at hrun
  by_cases hsize : defaultChunkSize ≤ fe.size
  · rw [if_pos hsize] at hrun ⊢
    exact processFileStreaming_has_iff hrun
  · rw [if_neg hsize] at hrun ⊢
    split at hrun
    · cases hrun
    · rename_i contentHash ciphertext hhash
      obtain ⟨content, hread, rfl, -⟩ := hashAndEncryptFile_ok hhash
      rw [hread]
      exact checkAndUploadBlob_has_iff hrun

/-- **Referential integrity**: an entry that `processFile` returns refers to blobs
that are in the store, exactly if the store held the references the run neither
looked up nor put. -/
theorem processFile_has_iff {env : Env} {s s' : Blobs} {fe : ScanEntry}
    {prev : Option FileEntry} {r : Processed}
    (hrun : processFile P pl env s fe prev = (.ok r, s')) :
    (∀ h ∈ r.entry.blobRefs, s'.has h) ↔ ∀ h ∈ uncheckedRefs P pl env s fe prev, s.has h := by
  unfold uncheckedRefs
  rcases processFile_ok hrun with ⟨hfast, rfl, f, -, -, htry⟩ | ⟨missing, hfast, hcontent⟩
  · rw [hfast]
    exact iff_of_true (tryUnchangedEntry_ok htry).2 fun _ hmem => absurd hmem not_mem_nil
  · rw [hfast]
    cases missing with
    | false => exact processContent_has_iff hcontent
    | true => exact processContent_has_iff hcontent

end

/-! ## Fixed runs -/

/-- A pass whose reads deliver the given bytes, whatever the offset. -/
def Pass.delivering (turn : Nat → Bytes) (content : Bytes) : Pass where
  openFails := false
  cancelled _ := false
  read i _ k := some ((turn i).take k)
  read_le i off k b h := by
    cases h
    exact length_take_le k (turn i)
  readAll := some content

/-- A run without failures of the store. -/
def Env.faultless (hashPass uploadPass : Pass) : Env where
  hashPass := hashPass
  uploadPass := uploadPass
  hasBatch := true
  batchErr _ := none
  existsErr _ _ := none
  putErr _ := none
  draws _ := sampleRng.smallIV

/-- An empty store. -/
def Blobs.empty : Blobs := fun _ => none

/-- An encrypted pipeline with fixed-size chunks. -/
def samplePipeline : Pipeline := ⟨sampleKey, false, 0⟩

/-- `a` of the given size. -/
def sampleScan (size : Nat) : ScanEntry := ⟨ascii "a", ascii "/a", size, ascii "0", 0o644⟩

/-- Both passes over an empty file. -/
def emptyFileEnv : Env :=
  .faultless (.delivering (fun _ => []) []) (.delivering (fun _ => []) [])

/-- Both passes over a file of four bytes. -/
def fourBytesEnv : Env :=
  .faultless (.delivering (fun _ => zstdMagic) zstdMagic) (.delivering (fun _ => zstdMagic) zstdMagic)

/-- Its entry of before: the same bytes at another time, in two chunks. -/
def twoChunks : FileEntry :=
  ⟨ascii "a", samplePrimitives.contentHash zstdMagic, 4, ascii "1", 0o644, fileStatusNew,
    [chunkRef samplePrimitives (zstdMagic.take 2), chunkRef samplePrimitives (zstdMagic.drop 2)]⟩

/-- A store with the blobs of the chunks and that of the whole file. -/
def twoChunksStore : Blobs := fun hash =>
  if hash ∈ twoChunks.contentHash :: twoChunks.chunks.map ChunkRef.hash then some [] else none

/-- Only the blob of the whole file is looked up, and the chunks are taken over. -/
theorem processFile_has_twoChunks :
    ∃ r s', processFile samplePrimitives samplePipeline fourBytesEnv twoChunksStore (sampleScan 4)
        (some twoChunks) = (.ok r, s') ∧ r.entry.chunks = twoChunks.chunks ∧
      ∀ h ∈ r.entry.blobRefs, s'.has h := by
  have hrun : processFile samplePrimitives samplePipeline fourBytesEnv twoChunksStore (sampleScan 4)
    (some twoChunks) = (.ok _, _) := rfl
  exact ⟨_, _, hrun, rfl, (processFile_has_iff hrun).mpr (by decide)⟩

/-- A file of four bytes when it is hashed, and of none when it is read again. -/
def truncatedEnv : Env :=
  .faultless (.delivering (fun i => if i = 0 then zstdMagic else []) zstdMagic)
    (.delivering (fun _ => []) [])

theorem hashLoop_truncatedEnv {size : Nat} (hsize : 5 ≤ size) :
    hashLoop truncatedEnv.hashPass size 0 0 size = .ok [zstdMagic] := by
  obtain ⟨n, rfl⟩ := Nat.exists_eq_add_of_le' hsize
  have hread : truncatedEnv.hashPass.read 0 0 (min (n + 5) defaultChunkSize) = some zstdMagic := by
    have hlen : zstdMagic.length ≤ min (n + 5) defaultChunkSize := by
      rw [show zstdMagic.length = 4 from rfl, defaultChunkSize]
      omega
    exact congrArg some (take_of_length_le hlen)
  rw [hashLoop, hread]
  show Except.map _ (hashLoop truncatedEnv.hashPass (n + 4) 1 4 (n + 1)) = _
  have hempty (k : Nat) : truncatedEnv.hashPass.read 1 4 k = some [] :=
    congrArg some take_nil
  rw [hashLoop, hempty]
  rfl

/-- The file has more than 32 MiB when it is scanned, so the chunks are not kept
for the upload. The entry refers to a chunk that is not in the store. -/
theorem processFile_not_has_truncated :
    ∃ r s', processFile samplePrimitives samplePipeline truncatedEnv .empty
        (sampleScan (inMemoryChunkThreshold + 1)) none = (.ok r, s') ∧
      ¬ ∀ h ∈ r.entry.blobRefs, s'.has h := by
  have hhash : hashStreaming samplePrimitives samplePipeline truncatedEnv.hashPass
      (inMemoryChunkThreshold + 1) =
        .ok ⟨samplePrimitives.contentHash zstdMagic, [chunkRef samplePrimitives zstdMagic], []⟩ := by
    simp only [hashStreaming, samplePipeline, hashFileWithChunks,
      hashLoop_truncatedEnv (show 5 ≤ inMemoryChunkThreshold + 1 by decide)]
    rfl
  have hrun : processFile samplePrimitives samplePipeline truncatedEnv .empty
      (sampleScan (inMemoryChunkThreshold + 1)) none =
        (.ok ⟨⟨ascii "a", samplePrimitives.contentHash zstdMagic, inMemoryChunkThreshold + 1,
          ascii "0", 0o644, fileStatusNew, [chunkRef samplePrimitives zstdMagic]⟩, 0, false, true⟩,
          .empty) := by
    show processFileStreaming samplePrimitives samplePipeline truncatedEnv .empty
      (sampleScan (inMemoryChunkThreshold + 1)) none false = _
    unfold processFileStreaming
    rw [show (sampleScan (inMemoryChunkThreshold + 1)).size = inMemoryChunkThreshold + 1 from rfl,
      hhash]
    rfl
  refine ⟨_, _, hrun, fun hall => ?_⟩
  exact absurd (hall (samplePrimitives.contentHash zstdMagic) (by decide)) (by decide)

end GbfCore
