import GbfCore.Pipeline.Addressing
import GbfCore.Pipeline.Unencrypted

/-!
# Chunk blobs and `DownloadBlobToFile` (stream.go)

`uploadChangedChunks` seals a chunk as one text behind a vector that is no chunk
count. The readers of such a blob have bounds of their own: the restore of a chunked
file allows `maxChunkBlobSize`, made for the largest chunk of the content-defined
chunker, and `DownloadBlobToFile` ends in `readBoundedSmall`, which allows
`MaxBlobSize`, made for the default chunk size. So a chunk is read back by
`DownloadBlobToFile` exactly if what is stored of it, compressed or not, stays within
the second bound (`chunk_downloadable_iff`), whatever `DownloadBlob` does with it.

As in `Restore`, the result is the content of the target file; its directory, the
staging file and the mode are not modelled.
-/

namespace GbfCore

open Prog List

variable {canStream : Bytes → Bool} {dec : Decryptor} {P : Primitives} {hash : Bytes} {s : Blobs}

section
variable (P : Primitives) (dec : Decryptor)

/-- `DownloadBlobToFile`. -/
def downloadBlobToFile (canStream : Bytes → Bool) (s : Blobs) (hash : Bytes) :
    Except RestoreError Bytes :=
  match getStream canStream s hash with
  | none => downloadBlob P dec s hash
  | some data =>
    let r := decryptStreamToFile P dec data []
    match r.err with
    | some e => .error (.streamDecrypt e)
    | none =>
      if P.contentHash r.dst ≠ hash then .error (.contentHashMismatch hash (P.contentHash r.dst))
      else .ok r.dst

end

theorem Streamed.written_eq_some {r : Streamed} {out : Bytes} :
    r.written = some out ↔ r.err = none ∧ r.dst = out := by
  rcases r with ⟨dst, src, _ | e⟩ <;> simp [Streamed.written]

section
variable {data : Bytes} (hdata : getStream canStream s hash = some data)
include hdata

theorem downloadBlobToFile_written {out : Bytes}
    (hout : (decryptStreamToFile P dec data []).written = some out)
    (hhash : P.contentHash out = hash) :
    downloadBlobToFile P dec canStream s hash = .ok out := by
  obtain ⟨herr, rfl⟩ := Streamed.written_eq_some.mp hout
  rw [downloadBlobToFile, hdata]
  dsimp only
  rw [herr]
  exact if_neg (not_not.mpr hhash)

theorem downloadBlobToFile_err {e : BlobError}
    (herr : (decryptStreamToFile P dec data []).err = some e) :
    downloadBlobToFile P dec canStream s hash = .error (.streamDecrypt e) := by
  rw [downloadBlobToFile, hdata]
  dsimp only
  rw [herr]

end

/-! ## The blob of a chunk -/

section
variable {pl : Pipeline} (hA : P.AEADLaws) (hdec : dec.key = pl.key) (hk : validKey pl.key = true)
  {path chunk : Bytes} {draws : Draws}
include hA hdec hk

/-- The bound of `readBoundedSmall` on the blob is one on the text in it. -/
theorem chunkBlob_fits_iff :
    (chunkBlob P pl path draws chunk).length ≤ magicSize + maxBlobSize ↔
      (toStore P path chunk).length ≤ defaultChunkSize + 2 ^ 20 := by
  have hlen := (chunkBlob_sealed hA hdec hk path draws chunk).length_eq
  unfold magicSize ivSize tagSize at hlen
  unfold maxBlobSize magicSize ivSize tagSize
  omega

section
variable (hstream : canStream hash = true) (hs : s hash = some (chunkBlob P pl path draws chunk))
include hstream hs

/-- Beyond the bound the blob is refused, whatever it holds. -/
theorem downloadBlobToFile_large
    (hlarge : defaultChunkSize + 2 ^ 20 < (toStore P path chunk).length) :
    downloadBlobToFile P dec canStream s hash =
      .error (.streamDecrypt .exceedsMaxBlobSize) := by
  have hdata : getStream canStream s hash = some (chunkBlob P pl path draws chunk) := by
    rw [getStream, if_pos hstream, hs]
  have hlen : ¬ (chunkBlob P pl path draws chunk).length ≤ magicSize + maxBlobSize :=
    mt (chunkBlob_fits_iff hA hdec hk).mp (Nat.not_le.mpr hlarge)
  exact downloadBlobToFile_err hdata
    ((chunkBlob_sealed hA hdec hk path draws chunk).err_of_large (Nat.not_le.mp hlen) [])

/-- Within the bound it gives the chunk. -/
theorem downloadBlobToFile_chunkBlob (hhash : P.contentHash chunk = hash)
    (hplain : smallPlaintext P (toStore P path chunk) = some chunk)
    (hfits : (toStore P path chunk).length ≤ defaultChunkSize + 2 ^ 20) :
    downloadBlobToFile P dec canStream s hash = .ok chunk := by
  have hdata : getStream canStream s hash = some (chunkBlob P pl path draws chunk) := by
    rw [getStream, if_pos hstream, hs]
  refine downloadBlobToFile_written hdata ?_ hhash
  rw [(chunkBlob_sealed hA hdec hk path draws chunk).written_eq (hdec ▸ hk)
    ((chunkBlob_fits_iff hA hdec hk).mpr hfits), hplain]

end

theorem downloadBlob_of_smallPlaintext (hs : s hash = some (chunkBlob P pl path draws chunk))
    (hhash : P.contentHash chunk = hash)
    (hplain : smallPlaintext P (toStore P path chunk) = some chunk) :
    downloadBlob P dec s hash = .ok chunk := by
  rw [downloadBlob_chunkBlob hA hdec hk hs, verifiedPlaintext, hplain]
  exact if_neg (not_not.mpr hhash)

end

/-! ## What the upload puts -/

/-- **Reading chunk blobs as single blobs**: of a chunk that does not look like a zstd
frame, whatever the upload of a large file puts under its hash, `DownloadBlob` returns
the chunk, and `DownloadBlobToFile` does so exactly if the stored text is at most
1 MiB longer than a default chunk. -/
theorem chunk_downloadable_iff {P : Primitives} (hA : P.AEADLaws) (hZ : P.ZstdLaws)
    {pl : Pipeline} (hkey : pl.key ≠ []) {dec : Decryptor} (hdec : dec.key = pl.key)
    {canStream : Bytes → Bool} (hstream : ∀ hash, canStream hash = true) {pass : Pass} {size : Nat}
    {hashed : Hashed} (hhash : hashStreaming P pl pass size = .ok hashed) (env : Env) (path : Bytes)
    (prevs : List ChunkRef) :
    (Worker.uploadChangedChunks P pl env path hashed prevs).Calls fun call =>
      ∀ hash blob, call = .put hash blob →
        ∃ chunk draws, hash = P.contentHash chunk ∧ blob = chunkBlob P pl path draws chunk ∧
          (chunk.length ≤ cdcMaxSize → isCompressed chunk = false →
            ∀ s : Blobs, s hash = some blob →
              downloadBlob P dec s hash = .ok chunk ∧
              (downloadBlobToFile P dec canStream s hash = .ok chunk ↔
                (toStore P path chunk).length ≤ defaultChunkSize + 2 ^ 20)) := by
  obtain ⟨ds, -, hof⟩ := hashStreaming_ok hhash
  refine calls_uploadChangedChunks (fun c hc hash blob heq => ?_) hof prevs fun hgcm chunk draws => ?_
  · rw [heq] at hc
    cases hc
  · rintro hash blob heq
    cases heq
    have hk : validKey pl.key = true := by
      simpa [gcmFails, hkey] using hgcm
    refine ⟨chunk, draws, rfl, rfl, fun hlen hmagic s hs => ?_⟩
    have hplain : smallPlaintext P (toStore P path chunk) = some chunk :=
      smallPlaintext_toStore hZ hlen (.inl hmagic)
    refine ⟨downloadBlob_of_smallPlaintext hA hdec hk hs rfl hplain, ?_,
      downloadBlobToFile_chunkBlob hA hdec hk (hstream _) hs rfl hplain⟩
    intro hok
    by_contra hlarge
    rw [downloadBlobToFile_large hA hdec hk (hstream _) hs (Nat.not_le.mp hlarge)] at hok
    cases hok

/-- The AES-128-GCM tag of the text `a`, for `sampleKey` and `sampleIV`. -/
def oneByteTag (p : Bytes) : Bytes :=
  if p = ascii "a" then
    [0x40, 0x57, 0x13, 0x45, 0x04, 0xf2, 0x07, 0x8a, 0x7c, 0xfa, 0xa3, 0x86, 0xe4, 0x32, 0x99, 0x65]
  else sampleTag p

theorem length_oneByteTag (p : Bytes) : (oneByteTag p).length = tagSize := by
  rw [oneByteTag]
  split
  · rfl
  · exact length_sampleTag p

def oneBytePrimitives : Primitives :=
  (samplePrimitives.withDigests
    [(ascii "a", 0xca978112ca1bbdcafac231b39a23dc4da786eff8147c4e72b9807785afee48bb)]).withCipher
    sampleKeystream oneByteTag

/-- A file of one chunk, which is the byte `a`. -/
theorem chunk_downloadable_oneByte :
    ∃ hashed, hashStreaming oneBytePrimitives samplePipeline (.ofContent (ascii "a")) 1 =
        .ok hashed ∧
      hashed.chunks = [chunkRef oneBytePrimitives (ascii "a")] ∧
      (Worker.uploadChangedChunks oneBytePrimitives samplePipeline
        (.faultless (.ofContent (ascii "a")) (.ofContent (ascii "a"))) (ascii "/a") hashed []).Calls
        fun call => ∀ hash blob, call = .put hash blob →
          ∃ chunk draws, hash = oneBytePrimitives.contentHash chunk ∧
            blob = chunkBlob oneBytePrimitives samplePipeline (ascii "/a") draws chunk ∧
            (chunk.length ≤ cdcMaxSize → isCompressed chunk = false →
              ∀ s : Blobs, s hash = some blob →
                downloadBlob oneBytePrimitives (newDecryptor sampleKey 0) s hash = .ok chunk ∧
                (downloadBlobToFile oneBytePrimitives (newDecryptor sampleKey 0) (fun _ => true) s
                    hash = .ok chunk ↔
                  (toStore oneBytePrimitives (ascii "/a") chunk).length ≤
                    defaultChunkSize + 2 ^ 20)) := by
  have hhash : hashStreaming oneBytePrimitives samplePipeline (.ofContent (ascii "a")) 1 =
      .ok ⟨oneBytePrimitives.contentHash (ascii "a"), [chunkRef oneBytePrimitives (ascii "a")],
        [ascii "a"]⟩ := rfl
  exact ⟨_, hhash, rfl, chunk_downloadable_iff
    (withCipher_aead _ sampleKeystream length_oneByteTag)
    (withCipher_zstd _ _ (withDigests_zstd _ samplePrimitives_zstd)) (by decide) rfl
    (fun _ => rfl) hhash _ _ _⟩

/-- An encrypted pipeline with content-defined chunks. -/
def cdcPipeline : Pipeline := ⟨sampleKey, true, 0x3DA3358B4DC173⟩

/-- One byte more than `DownloadBlobToFile` reads. The byte repeats, so the
fingerprint of the chunker stays the same and never makes a cut. -/
def largeChunk : Bytes := replicate (defaultChunkSize + 2 ^ 20 + 1) 1

theorem largeChunk_toStore (P : Primitives) :
    toStore P (ascii "/a.jpg") largeChunk = largeChunk := by
  rw [toStore_eq, if_neg]
  rintro ⟨hname, -⟩
  exact absurd hname (by decide)

theorem length_largeChunk : largeChunk.length = defaultChunkSize + 2 ^ 20 + 1 :=
  length_replicate

theorem replicate_not_frame (n : Nat) : isCompressed (replicate n 1) = false := by
  have hne : (replicate n 1).take 4 ≠ zstdMagic := by
    intro heq
    have hmem : (0x28 : UInt8) ∈ (replicate n 1).take 4 := by
      rw [heq]
      exact mem_cons_self
    exact absurd (eq_of_mem_replicate (mem_of_mem_take hmem)) (by decide)
  rw [isCompressed, decide_eq_false hne, Bool.and_false]

theorem largeChunk_not_frame : isCompressed largeChunk = false :=
  replicate_not_frame _

/-- A file `/a.jpg` of one chunk of 5 MiB and a byte is backed up, and its chunk
is read by `DownloadBlob` and refused by `DownloadBlobToFile`. -/
theorem largeChunk_not_downloadable :
    largeChunk.length ≤ cdcMaxSize ∧ isCompressed largeChunk = false ∧
      ∀ P : Primitives, P.AEADLaws → P.CDCLaws →
        P.cdcSplit cdcPipeline.cdcPolynomial largeChunk = [largeChunk] →
        ∃ hashed n s,
          hashStreaming P cdcPipeline (.ofContent largeChunk) largeChunk.length = .ok hashed ∧
          uploadChangedChunks P cdcPipeline
            (.faultless (.ofContent largeChunk) (.ofContent largeChunk)) .empty (ascii "/a.jpg")
            hashed [] = (.ok n, s) ∧
          downloadBlob P (newDecryptor sampleKey 0) s (P.contentHash largeChunk) =
            .ok largeChunk ∧
          downloadBlobToFile P (newDecryptor sampleKey 0) (fun _ => true) s
            (P.contentHash largeChunk) = .error (.streamDecrypt .exceedsMaxBlobSize) := by
  refine ⟨by rw [length_largeChunk]; decide, largeChunk_not_frame, fun P hA hC hsplit => ?_⟩
  have hcalm : (Env.faultless (.ofContent largeChunk) (.ofContent largeChunk)).Calm largeChunk :=
    ⟨rfl, rfl, fun _ => rfl, fun _ _ => rfl, fun _ => rfl⟩
  obtain ⟨hashed, hhash⟩ : ∃ hashed, hashStreaming P cdcPipeline (.ofContent largeChunk)
      largeChunk.length = .ok hashed := hashStreaming_calm hcalm _
  have hof := hashStreaming_of (Pass.ofContent_reads largeChunk) hhash
  obtain ⟨n, s, hup⟩ := uploadChangedChunks_calm hcalm hC (by decide) hof .empty (ascii "/a.jpg") []
  have hpieces : largePieces P cdcPipeline largeChunk = [largeChunk] := hsplit
  have hholds := uploadChangedChunks_holds hC (Pass.ofContent_reads largeChunk) hof hup
  rw [hpieces] at hholds
  obtain ⟨blob, hblob⟩ := Option.isSome_iff_exists.mp (hholds.has largeChunk mem_cons_self)
  obtain ⟨d, hd, draws, -, rfl⟩ := hholds.blobsOf _ _ hblob
  rw [mem_singleton.mp hd] at hblob
  refine ⟨hashed, n, s, hhash, hup, ?_, ?_⟩
  · refine downloadBlob_of_smallPlaintext hA rfl (by decide) hblob rfl ?_
    rw [largeChunk_toStore, smallPlaintext, largeChunk_not_frame]
    rfl
  · refine downloadBlobToFile_large hA rfl (by decide) rfl hblob ?_
    rw [largeChunk_toStore, length_largeChunk]
    exact Nat.lt_succ_self _

end GbfCore
