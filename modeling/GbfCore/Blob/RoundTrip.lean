import GbfCore.Blob.Encrypt
import GbfCore.Blob.Stream
import GbfCore.Blob.Sample

/-!
# Encoding and decoding blobs

Both encoders cut the plaintext into pieces of the chunk size and write one frame
for each; both decoders cut the frames back and decode them. The layouts are
taken one by one: what a frame is cut back to, what the header says, and then the
blob (`chunkedReading_...`).

- `blob_roundTrip_iff`: which plaintexts survive the encoders. The in-memory
  encoder refuses a plaintext of more than `2 ^ 32 - 1` chunks; the streaming one
  writes it with a header that no decoder accepts.
-/

namespace GbfCore

open List Option Nat

variable {dec : Decryptor} {p : Bytes} {n : Nat} {c : Nat} {chunk : Bytes}

/-! ## Frames -/

/-- A frame as the encoders build it. -/
structure Frame.WF (f : Frame) (maxLen : Nat) : Prop where
  length_iv : f.iv.length = ivSize
  length_le : f.ciphertext.length ≤ maxLen

theorem cutFixed_renderFixed {f : Frame} (hf : f.WF (c + tagSize)) (hplain : f.compressed = false)
    {tail : Bytes} (htail : tail = [] ∨ f.ciphertext.length = c + tagSize) :
    cutFixed c (renderFixed f ++ tail) = some (f, tail) := by
  have hiv : ¬ (renderFixed f ++ tail).length < ivSize := by
    simp only [renderFixed, length_append, hf.length_iv]
    omega
  have htake : (renderFixed f ++ tail).take ivSize = f.iv := by
    rw [renderFixed, append_assoc, take_left' hf.length_iv]
  have hdrop : (renderFixed f ++ tail).drop ivSize = f.ciphertext ++ tail := by
    rw [renderFixed, append_assoc, drop_left' hf.length_iv]
  have hbody : (f.ciphertext ++ tail).take (c + tagSize) = f.ciphertext ∧
      (f.ciphertext ++ tail).drop (c + tagSize) = tail := by
    rcases htail with rfl | hfull
    · rw [append_nil]
      exact ⟨take_of_length_le hf.length_le, drop_of_length_le hf.length_le⟩
    · exact ⟨take_left' hfull, drop_left' hfull⟩
  simp only [cutFixed, hiv, if_false, htake, hdrop, hbody, ← hplain]

/-- Rules that read the flags byte the way the encoders write it. -/
structure FrameRules.Reads (r : FrameRules) : Prop where
  compressed_flag : r.isCompressedFlag gb3FlagChunkCompressed = true
  plain_flag : r.isCompressedFlag 0 = false

theorem gb2Rules_reads : gb2Rules.Reads := ⟨by decide, by decide⟩

theorem gb3Rules_reads (c : Nat) : (gb3Rules c).Reads := ⟨by rfl, by rfl⟩

theorem cutStored_renderStored {r : FrameRules} (hr : r.Reads) {f : Frame}
    (hf : f.WF r.maxStored) (hsize : f.ciphertext.length < 2 ^ 32) (tail : Bytes) :
    cutStored r (renderStored f ++ tail) = some (f, tail) := by
  -- the frame from left to right: size, flags, vector, ciphertext
  let flag : UInt8 := if f.compressed then gb3FlagChunkCompressed else 0
  have hsplit : renderStored f ++ tail =
      beEncode chunkCountSize f.ciphertext.length ++
        (flag :: (f.iv ++ (f.ciphertext ++ tail))) := by
    simp [renderStored, flag]
  have hlen : (beEncode chunkCountSize f.ciphertext.length).length = chunkCountSize :=
    length_beEncode _ _
  have hstored : beDecode ((renderStored f ++ tail).take chunkCountSize) =
      f.ciphertext.length := by
    rw [hsplit, take_left' hlen]
    exact beDecode_beEncode hsize
  have hflag : r.isCompressedFlag ((renderStored f ++ tail).getD chunkCountSize 0) =
      f.compressed := by
    rw [hsplit, getD_append_right _ _ _ _ (Nat.le_of_eq hlen), hlen, Nat.sub_self,
      getD_cons_zero]
    cases hc : f.compressed
    · simpa [flag, hc] using hr.plain_flag
    · simpa [flag, hc] using hr.compressed_flag
  have hdrop : (renderStored f ++ tail).drop (chunkCountSize + flagsSize) =
      f.iv ++ (f.ciphertext ++ tail) := by
    rw [← drop_drop, hsplit, drop_left' hlen]
    rfl
  have h1 : ¬ (renderStored f ++ tail).length < chunkCountSize + flagsSize := by
    rw [hsplit, length_append, hlen, length_cons]
    simp only [flagsSize]
    omega
  have h3 : ¬ (f.iv ++ (f.ciphertext ++ tail)).length < ivSize := by
    rw [length_append, hf.length_iv]
    omega
  have h4 : ¬ (f.ciphertext ++ tail).length < f.ciphertext.length := by
    rw [length_append]
    omega
  simp only [cutStored, h1, hstored, hflag, hdrop, not_lt.mpr hf.length_le, h3, h4, if_false,
    take_left' hf.length_iv, drop_left' hf.length_iv, take_left, drop_left]

/-! ## The GB3 header -/

section
variable (flags alg : UInt8) (c n : Nat) (tail : Bytes)

theorem length_encodeGB3Header :
    (encodeGB3Header flags alg c n).length = gb3HeaderSize := by
  simp [encodeGB3Header, magicGB3, gb3HeaderSize]

theorem take_encodeGB3Header :
    (encodeGB3Header flags alg c n ++ tail).take magicSize = magicGB3 := rfl

/-- The header is read back field by field. -/
theorem readGB3Header_encode :
    readGB3Header (encodeGB3Header flags alg c n ++ tail) =
      ⟨gb3Version, flags, gb3HashSHA256, alg, gb3EncryptAESGCM, gb3ChunkingFixed,
        gb3KeyVersionCur, UInt32.ofNat (beDecode (beEncode 4 c)),
        UInt64.ofNat (beDecode (beEncode 8 n))⟩ := by
  have hkey : ((encodeGB3Header flags alg c n ++ tail).drop 10).take 2 =
      beEncode 2 gb3KeyVersionCur.toNat := rfl
  have hsize : ((encodeGB3Header flags alg c n ++ tail).drop 12).take 4 = beEncode 4 c := rfl
  have hplain : ((encodeGB3Header flags alg c n ++ tail).drop 16).take 8 = beEncode 8 n := rfl
  rw [readGB3Header, hkey, hsize, hplain]
  rfl

variable {flags alg c n}

theorem chunkSize_encode (hc : c < 2 ^ 32) :
    (readGB3Header (encodeGB3Header flags alg c n ++ tail)).chunkSize.toNat = c := by
  rw [readGB3Header_encode, beDecode_beEncode hc]
  exact UInt32.toNat_ofNat_of_lt' hc

/-- The chunk count of a header whose plaintext size is not cut off. -/
theorem chunkCount_encode (hpos : 0 < c) (hc : c < 2 ^ 32) (hn : n + c < 2 ^ 64) :
    (readGB3Header (encodeGB3Header flags alg c n ++ tail)).chunkCount.toNat =
      pieceCount c n := by
  have hn' : n < 2 ^ 64 := by omega
  have hsize : (readGB3Header (encodeGB3Header flags alg c n ++ tail)).chunkSize.toNat = c :=
    chunkSize_encode tail hc
  have hplain : (readGB3Header (encodeGB3Header flags alg c n ++ tail)).plaintextSize.toNat =
      n := by
    rw [readGB3Header_encode, beDecode_beEncode hc, beDecode_beEncode hn']
    exact UInt64.toNat_ofNat_of_lt' hn'
  rw [GB3Header.toNat_chunkCount (by rw [hsize]; exact hpos) (by rw [hsize, hplain]; omega),
    hsize, hplain]

/-- A header of at most `2 ^ 32 - 1` chunks is accepted. -/
theorem parseGB3Header_encode (halg : alg = gb3CompressNone ∨ alg = gb3CompressZstd)
    (hpos : 0 < c) (hc : c ≤ maxGB3ChunkSize) (hcount : pieceCount c n ≤ 2 ^ 32 - 1) :
    ∃ h, parseGB3Header (encodeGB3Header flags alg c n ++ tail) = .ok h ∧
      h.chunkCount.toNat = pieceCount c n := by
  simp only [maxGB3ChunkSize] at hc
  have hn : n + c < 2 ^ 64 := by
    have := le_pieceCount_mul hpos n
    have := mul_le_mul hcount hc
    omega
  have hlen : ¬ (encodeGB3Header flags alg c n ++ tail).length < gb3HeaderSize := by
    rw [length_append, length_encodeGB3Header]
    omega
  have hsize : (readGB3Header (encodeGB3Header flags alg c n ++ tail)).chunkSize.toNat = c :=
    chunkSize_encode tail (by omega)
  have hchunks : (readGB3Header (encodeGB3Header flags alg c n ++ tail)).chunkCount.toNat =
      pieceCount c n := chunkCount_encode tail hpos (by omega) hn
  rw [parseGB3Header, if_neg hlen, if_neg (not_not.mpr (take_encodeGB3Header flags alg c n tail))]
  have hfields := readGB3Header_encode flags alg c n tail
  generalize readGB3Header (encodeGB3Header flags alg c n ++ tail) = h at hsize hchunks hfields
  have h0 : ¬ h.chunkSize = 0 := by
    intro h0
    rw [h0] at hsize
    exact absurd hsize (Nat.ne_of_lt hpos)
  have hversion : h.version = gb3Version := by rw [hfields]
  have hhash : h.hashAlg = gb3HashSHA256 := by rw [hfields]
  have hencrypt : h.encryptionAlg = gb3EncryptAESGCM := by rw [hfields]
  have hchunking : h.chunkingAlg = gb3ChunkingFixed := by rw [hfields]
  have hcompress : ¬ (h.compressionAlg ≠ gb3CompressNone ∧ h.compressionAlg ≠ gb3CompressZstd) := by
    rw [hfields]
    rintro ⟨hnone, hzstd⟩
    exact halg.elim hnone hzstd
  refine ⟨h, ?_, hchunks⟩
  simp only [hversion, hhash, hencrypt, hchunking, hcompress, h0, hsize, hchunks,
    maxGB3ChunkSize, not_lt.mpr hc, not_lt.mpr hcount, ne_eq, not_true_eq_false, if_false]

end

/-- **The chunk count of an accepted header** is exact if and only if the addition that
rounds up does not wrap; every header of at most `2 ^ 32 - 1` chunks is accepted and read
back as it was written. -/
theorem gb3Header_chunkCount (data : Bytes) :
    (∀ h : GB3Header, parseGB3Header data = .ok h →
      ((h.chunkCount.toNat = h.plaintextSize.toNat ⌈/⌉ h.chunkSize.toNat ∧
          h.chunkCount.toNat ≤ 2 ^ 32 - 1) ↔
        h.plaintextSize.toNat + h.chunkSize.toNat - 1 < 2 ^ 64)) ∧
    ∀ (flags alg : UInt8) (c : UInt32) (n : UInt64), alg = gb3CompressNone ∨ alg = gb3CompressZstd →
      0 < c.toNat → c.toNat ≤ maxGB3ChunkSize → n.toNat ⌈/⌉ c.toNat ≤ 2 ^ 32 - 1 →
      parseGB3Header (encodeGB3Header flags alg c.toNat n.toNat) =
        .ok ⟨gb3Version, flags, gb3HashSHA256, alg, gb3EncryptAESGCM, gb3ChunkingFixed,
          gb3KeyVersionCur, c, n⟩ := by
  constructor
  · intro h hp
    obtain ⟨-, hpos, hcount⟩ := parseGB3Header_ok hp
    rw [and_iff_left hcount, ceilDiv_eq_add_pred_div]
    constructor
    · intro hexact
      by_contra hwrap
      obtain ⟨hzero, hpieces⟩ := GB3Header.toNat_chunkCount_wrapped hpos (not_lt.mp hwrap)
      rw [pieceCount, ← hexact, hzero] at hpieces
      exact lt_irrefl 0 hpieces
    · exact GB3Header.toNat_chunkCount hpos
  · intro flags alg c n halg hpos hc hcount
    rw [ceilDiv_eq_add_pred_div] at hcount
    obtain ⟨h, hp, -⟩ : ∃ h, parseGB3Header (encodeGB3Header flags alg c.toNat n.toNat ++ []) =
        .ok h ∧ h.chunkCount.toNat = pieceCount c.toNat n.toNat :=
      parseGB3Header_encode [] halg hpos hc hcount
    rw [append_nil] at hp
    rw [hp, (parseGB3Header_ok hp).1, ← append_nil (encodeGB3Header _ _ _ _),
      readGB3Header_encode, beDecode_beEncode c.toNat_lt, beDecode_beEncode n.toNat_lt,
      UInt32.ofNat_toNat, UInt64.ofNat_toNat]

/-- Two chunks of 1 byte. -/
theorem gb3Header_chunkCount_two :
    (∃ h, parseGB3Header (encodeGB3Header 0 gb3CompressNone 1 2) = .ok h ∧
      ((h.chunkCount.toNat = h.plaintextSize.toNat ⌈/⌉ h.chunkSize.toNat ∧
          h.chunkCount.toNat ≤ 2 ^ 32 - 1) ↔
        h.plaintextSize.toNat + h.chunkSize.toNat - 1 < 2 ^ 64)) ∧
    parseGB3Header (encodeGB3Header 0 gb3CompressNone 1 2) =
      .ok ⟨gb3Version, 0, gb3HashSHA256, gb3CompressNone, gb3EncryptAESGCM, gb3ChunkingFixed,
        gb3KeyVersionCur, 1, 2⟩ := by
  obtain ⟨hcount, hwritten⟩ := gb3Header_chunkCount (encodeGB3Header 0 gb3CompressNone 1 2)
  have hp := hwritten 0 gb3CompressNone 1 2 (.inl rfl) (by decide) (by decide) (by decide)
  exact ⟨⟨_, hp, hcount _ hp⟩, hp⟩

/-- A plaintext of `2 ^ 64 - 1` bytes in chunks of 2 has no chunks. -/
theorem gb3Header_wrapped_count :
    ∃ h, parseGB3Header (encodeGB3Header 0 gb3CompressNone 2 (2 ^ 64 - 1)) = .ok h ∧
      h.plaintextSize.toNat = 2 ^ 64 - 1 ∧ h.chunkSize.toNat = 2 ∧ h.chunkCount.toNat = 0 ∧
      h.plaintextSize.toNat ⌈/⌉ h.chunkSize.toNat = 2 ^ 63 :=
  ⟨⟨gb3Version, 0, gb3HashSHA256, gb3CompressNone, gb3EncryptAESGCM, gb3ChunkingFixed,
    gb3KeyVersionCur, 2, 0xffffffffffffffff⟩, by decide, by decide, by decide, by decide, by decide⟩

/-! ## What the frames of the encoders decode to -/

section
variable {P : Primitives} {e : Encryptor}

theorem plainFrame_wf (hA : P.AEADLaws) (hk : validKey e.key = true) (iv : IV)
    (h : chunk.length ≤ c) : (plainFrame P e iv chunk).WF (c + tagSize) where
  length_iv := iv.length_eq
  length_le := by
    rw [plainFrame, hA.length_seal _ _ _ hk iv.length_eq]
    omega

theorem plainFrame_decode (hA : P.AEADLaws) (hk : validKey e.key = true) (iv : IV)
    (chunk : Bytes) : (plainFrame P e iv chunk).decode P e.key = some chunk := by
  simp [plainFrame, Frame.decode, hA.open_seal _ _ _ hk iv.length_eq]

/-- What is stored is never longer than the chunk. -/
theorem length_storedChunk_le (tryCompress : Bool) (chunk : Bytes) :
    (storedChunk P tryCompress chunk).1.length ≤ chunk.length := by
  rw [storedChunk]
  split
  next h => exact le_of_lt h.2.2
  next => exact le_refl _

theorem storedFrame_wf (hA : P.AEADLaws) (hk : validKey e.key = true) (tryCompress : Bool) (iv : IV)
    (h : chunk.length ≤ c) :
    (storedFrame P e tryCompress iv chunk).WF (c + tagSize) where
  length_iv := iv.length_eq
  length_le := by
    have := length_storedChunk_le (P := P) tryCompress chunk
    rw [storedFrame, hA.length_seal _ _ _ hk iv.length_eq]
    omega

theorem storedFrame_decode (hA : P.AEADLaws) (hZ : P.ZstdLaws) (hk : validKey e.key = true)
    (tryCompress : Bool) (iv : IV) (h : chunk.length ≤ maxDecompressedSize) :
    (storedFrame P e tryCompress iv chunk).decode P e.key = some chunk := by
  simp only [storedFrame, Frame.decode, hA.open_seal _ _ _ hk iv.length_eq, storedChunk]
  split
  · simpa using hZ.decompress_compress _ _ h
  · simp

/-- Without a compressor a chunk is sealed as it is. -/
theorem storedFrame_false (iv : IV) (chunk : Bytes) :
    storedFrame P e false iv chunk = plainFrame P e iv chunk := by
  simp [storedFrame, storedChunk, plainFrame]

/-! ## Chunked blobs -/

theorem flatMap_pieceAt (hc : 0 < c) (p : Bytes) :
    (range (pieceCount c p.length)).flatMap (pieceAt c p) = p := by
  rw [flatMap_def]
  exact flatten_pieces hc p

/-- The frames of a GB1 large blob are read back. -/
theorem readFrames_fixed (hA : P.AEADLaws) (hk : validKey e.key = true) (rng : Rng)
    (p : Bytes) :
    readFrames (cutFixed e.chunkSize) (Frame.decode P e.key) (pieceCount e.chunkSize p.length)
      ((range (pieceCount e.chunkSize p.length)).flatMap fun i =>
        renderFixed (plainFrame P e (rng.chunkIV i) (pieceAt e.chunkSize p i))) =
      some (p, []) := by
  have hcut : ∀ i < pieceCount e.chunkSize p.length, ∀ t,
      (i + 1 = pieceCount e.chunkSize p.length → t = []) →
        cutFixed e.chunkSize (renderFixed (plainFrame P e (rng.chunkIV i)
          (pieceAt e.chunkSize p i)) ++ t) =
          some (plainFrame P e (rng.chunkIV i) (pieceAt e.chunkSize p i), t) := by
    intro i hi t ht
    apply cutFixed_renderFixed (plainFrame_wf hA hk _ (length_pieceAt_le _ _ _)) rfl
    by_cases hlast : i + 1 = pieceCount e.chunkSize p.length
    · exact .inl (ht hlast)
    · right
      rw [plainFrame, hA.length_seal _ _ _ hk (IV.length_eq _),
        length_pieceAt e.chunkSize_pos (by omega)]
  have h := readFrames_range hcut fun i _ => plainFrame_decode hA hk (rng.chunkIV i) _
  rwa [flatMap_pieceAt e.chunkSize_pos, append_nil] at h

/-- The frames of a GB2 or GB3 blob are read back, all of them or the first `n`,
whatever follows. -/
theorem readFrames_stored {r : FrameRules} (hr : r.Reads)
    (hmax : e.chunkSize + tagSize ≤ r.maxStored) (hA : P.AEADLaws) (hZ : P.ZstdLaws)
    (hk : validKey e.key = true) (hc : e.chunkSize ≤ defaultChunkSize) (tryCompress : Bool)
    (rng : Rng) (p : Bytes) (n : Nat) (tail : Bytes) :
    readFrames (cutStored r) (Frame.decode P e.key) n
      (((range n).flatMap fun i =>
        renderStored (storedFrame P e tryCompress (rng.chunkIV i) (pieceAt e.chunkSize p i))) ++
        tail) =
      some ((range n).flatMap (pieceAt e.chunkSize p), tail) := by
  have hwf := fun i => storedFrame_wf hA hk tryCompress (rng.chunkIV i)
    (length_pieceAt_le e.chunkSize p i)
  apply readFrames_range
  · intro i _ t _
    have hlen := (hwf i).length_le
    refine cutStored_renderStored hr ⟨(hwf i).length_iv, le_trans hlen hmax⟩ ?_ t
    simp only [defaultChunkSize, tagSize] at hc hlen
    omega
  · intro i _
    apply storedFrame_decode hA hZ hk
    have := length_pieceAt_le e.chunkSize p i
    simp only [defaultChunkSize, maxDecompressedSize] at hc ⊢
    omega

/-! ## Whole blobs -/

/-- The decryptor with the encryptor's parameters. -/
def Encryptor.decryptor (e : Encryptor) : Decryptor :=
  ⟨e.key, e.chunkSize, e.chunkSize_pos⟩

/-- Both decoders return the chunked reading of a blob that it uses up. -/
theorem decodes_of_chunkedReading (hk : validKey dec.key = true) {b : Bytes}
    (h : chunkedReading P dec b = some (p, [])) :
    decrypt P dec b = .ok p ∧ (decryptStreamToFile P dec b []).written = some p := by
  have hfits : FitsSmallReader b := by
    intro h1 hcount
    rw [chunkedReading_gb1 P dec h1, countedFrames, hcount] at h
    cases h
  constructor
  · rw [← toOption_eq_some, decrypt_toOption, if_pos hk, h]
    rfl
  · rw [decryptStreamToFile_written P dec hfits, if_pos hk, streamReading, h]
    rfl

/-- One sealed text behind a vector that is no chunk count, as the decoders see
it. -/
structure SealedText (P : Primitives) (dec : Decryptor) (b p : Bytes) : Prop where
  magic : b.take magicSize = magicGB1
  not_count : isChunkCount ((b.drop magicSize).take chunkCountSize) = false
  length_eq : b.length = magicSize + ivSize + (p.length + tagSize)
  opens : P.gcmOpen dec.key ((b.drop magicSize).take ivSize) ((b.drop magicSize).drop ivSize) =
    some p

theorem sealedText (hA : P.AEADLaws) (dec : Decryptor) (hk : validKey dec.key = true)
    (draws : Draws) (p : Bytes) :
    SealedText P dec (magicGB1 ++ (newSmallBlobIV draws).bytes ++
      P.gcmSeal dec.key (newSmallBlobIV draws).bytes p) p := by
  have hiv := (newSmallBlobIV draws).length_eq
  have hseal := hA.length_seal dec.key (newSmallBlobIV draws).bytes p hk hiv
  have hdrop : (magicGB1 ++ (newSmallBlobIV draws).bytes ++
      P.gcmSeal dec.key (newSmallBlobIV draws).bytes p).drop magicSize =
        (newSmallBlobIV draws).bytes ++ P.gcmSeal dec.key (newSmallBlobIV draws).bytes p := rfl
  refine ⟨rfl, ?_, ?_, ?_⟩
  · rw [hdrop, take_append_of_le_length (by rw [hiv]; decide)]
    exact newSmallBlobIV_not_chunkCount draws
  · simp only [length_append, hiv, hseal]
    rfl
  · rw [hdrop, take_left' hiv, drop_left' hiv]
    exact hA.open_seal _ _ _ hk hiv

namespace SealedText

variable {b : Bytes} (h : SealedText P dec b p)
include h

theorem smallReading_eq : smallReading P dec b = some p := by
  have hlen : magicSize + ivSize + tagSize ≤ b.length := by
    rw [h.length_eq]
    omega
  rw [smallReading, if_pos ⟨h.magic, hlen⟩, h.opens]

theorem chunkedReading_eq : chunkedReading P dec b = none := by
  rw [chunkedReading_gb1 P dec h.magic, countedFrames, h.not_count]
  rfl

theorem decrypt_eq (hk : validKey dec.key = true) : decrypt P dec b = .ok p := by
  rw [← toOption_eq_some, decrypt_toOption, if_pos hk, h.chunkedReading_eq, h.smallReading_eq]
  rfl

/-- The stream reads the vector and leaves the rest to `decryptSmallStream`. -/
theorem decryptStreamToFile_eq (dst : Bytes) :
    decryptStreamToFile P dec b dst =
      decryptSmallStream P dec ((b.drop magicSize).take ivSize) ((b.drop magicSize).drop ivSize)
        dst := by
  have hlen := h.length_eq
  simp only [magicSize, ivSize, tagSize] at hlen
  have hcount : ¬ (b.drop magicSize).length < chunkCountSize := by
    simp only [length_drop, magicSize, chunkCountSize]
    omega
  have hiv : ¬ ((b.drop magicSize).drop chunkCountSize).length < ivSize - chunkCountSize := by
    simp only [length_drop, magicSize, chunkCountSize, ivSize]
    omega
  have htake : (b.drop magicSize).take ivSize = (b.drop magicSize).take chunkCountSize ++
      ((b.drop magicSize).drop chunkCountSize).take (ivSize - chunkCountSize) := by
    rw [← take_add]
    rfl
  have hdrop : (b.drop magicSize).drop ivSize =
      ((b.drop magicSize).drop chunkCountSize).drop (ivSize - chunkCountSize) := by
    simp only [drop_drop]
    rfl
  rw [decryptStreamToFile, if_neg (by simp only [magicSize]; omega), h.magic]
  simp only [if_true, if_false, magicGB1_ne_magicGB2, magicGB1_ne_magicGB3]
  rw [decryptGB1StreamToFile, if_neg hcount]
  dsimp only
  rw [h.not_count, if_pos rfl, if_neg hiv, htake, hdrop]

theorem written_eq (hk : validKey dec.key = true) (hlen : b.length ≤ magicSize + maxBlobSize) :
    (decryptStreamToFile P dec b []).written = smallPlaintext P p := by
  have hdata : (b.drop magicSize).length ≤ maxBlobSize := by
    rw [length_drop]
    omega
  rw [h.decryptStreamToFile_eq, decryptSmallStream_written P dec, take_append_drop]
  · rw [← smallReading_gb1 P dec h.magic hk, h.smallReading_eq]
    simp
  · rwa [take_append_drop]

/-- A blob beyond the bound of `readBoundedSmall` is refused. -/
theorem err_of_large (hlen : magicSize + maxBlobSize < b.length) (dst : Bytes) :
    (decryptStreamToFile P dec b dst).err = some .exceedsMaxBlobSize := by
  have hdata : ivSize ≤ (b.drop magicSize).length := by
    rw [length_drop, h.length_eq]
    omega
  rw [h.decryptStreamToFile_eq, decryptSmallStream_large P dec]
  · rw [length_take, min_eq_left hdata]
    decide
  · rw [take_append_drop, length_drop]
    omega

end SealedText

theorem isChunkCount_beEncode (hpos : 0 < n) (hn : n < maxChunkCount) :
    isChunkCount (beEncode chunkCountSize n) = true := by
  have hfit : n < 256 ^ chunkCountSize := lt_trans hn (by decide)
  have htake : (beEncode chunkCountSize n).take chunkCountSize = beEncode chunkCountSize n :=
    take_of_length_le (le_of_eq (length_beEncode _ _))
  simp [isChunkCount, htake, beDecode_beEncode hfit, hpos, hn]

/-- A count that was written in front of the frames is read. -/
theorem countedFrames_beEncode {cut : Bytes → Option (Frame × Bytes)} (hpos : 0 < n)
    (hn : n < maxChunkCount) (body : Bytes) :
    countedFrames P dec cut (beEncode chunkCountSize n ++ body) =
      readFrames cut (Frame.decode P dec.key) n body := by
  have hfit : n < 256 ^ chunkCountSize := lt_trans hn (by decide)
  rw [countedFrames, take_left' (length_beEncode _ _), drop_left' (length_beEncode _ _),
    isChunkCount_beEncode hpos hn, if_pos rfl, beDecode_beEncode hfit]

theorem chunkedReading_magicGB1 (hpos : 0 < n) (hn : n < maxChunkCount) (body : Bytes) :
    chunkedReading P dec (magicGB1 ++ beEncode chunkCountSize n ++ body) =
      readFrames (cutFixed dec.chunkSize) (Frame.decode P dec.key) n body :=
  (chunkedReading_gb1 P dec rfl).trans (countedFrames_beEncode hpos hn body)

theorem chunkedReading_magicGB2 (hpos : 0 < n) (hn : n < maxChunkCount) (body : Bytes) :
    chunkedReading P dec (magicGB2 ++ beEncode chunkCountSize n ++ body) =
      readFrames (cutStored gb2Rules) (Frame.decode P dec.key) n body :=
  (chunkedReading_gb2 P dec rfl).trans (countedFrames_beEncode hpos hn body)

/-- A GB3 blob is read as many frames as its header announces. -/
theorem chunkedReading_header {flags alg : UInt8} (hc : c < 2 ^ 32) {body : Bytes} {h : GB3Header}
    (hp : parseGB3Header (encodeGB3Header flags alg c n ++ body) = .ok h) :
    chunkedReading P dec (encodeGB3Header flags alg c n ++ body) =
      readFrames (cutStored (gb3Rules c)) (Frame.decode P dec.key) h.chunkCount.toNat body := by
  have hsize : h.chunkSize.toNat = c := by
    rw [(parseGB3Header_ok hp).1]
    exact chunkSize_encode body hc
  rw [chunkedReading_gb3 P dec (take_encodeGB3Header flags alg c n body), hp,
    drop_left' (length_encodeGB3Header flags alg c n)]
  simp only [Except.toOption, bind_some, hsize]

/-! ## The streaming encoder's loop -/

/-- On a file that does not change the loop writes one frame for each piece and
hashes the file. -/
theorem encryptFileLoop_eq (tryCompress useGB3 : Bool) (rng : Rng) :
    ∀ (n i : Nat) (src : Bytes), pieceCount e.chunkSize src.length = n →
      encryptFileLoop P e tryCompress useGB3 rng n i src =
        ((range n).flatMap fun j =>
          (if tryCompress || useGB3 then renderStored else renderFixed)
            (storedFrame P e tryCompress (rng.chunkIV (i + j)) (pieceAt e.chunkSize src j)), src)
  | 0, i, src, h => by
    have hnil : src = [] := by
      have := le_pieceCount_mul e.chunkSize_pos src.length
      rw [h, zero_mul] at this
      exact length_eq_zero_iff.mp (le_zero.mp this)
    rw [hnil]
    rfl
  | n + 1, i, src, h => by
    have hfirst : pieceAt e.chunkSize src 0 = src.take e.chunkSize := by
      simp [pieceAt]
    have hne : ¬ (src.take e.chunkSize).length = 0 := by
      rw [← hfirst, length_eq_zero_iff]
      exact pieceAt_ne_nil e.chunkSize_pos (h ▸ succ_pos n)
    have ih := encryptFileLoop_eq tryCompress useGB3 rng n (i + 1) (src.drop e.chunkSize)
      (pieceCount_drop e.chunkSize_pos h)
    rw [encryptFileLoop, if_neg hne]
    simp only [ih, take_append_drop]
    rw [range_succ_eq_map, flatMap_cons, flatMap_map]
    simp only [hfirst, pieceAt_succ, add_zero, succ_eq_add_one, add_assoc,
      add_comm 1]
    cases tryCompress <;> cases useGB3 <;> rfl

/-! ## Which plaintexts survive -/

/-- The frames of a GB3 blob, as both encoders write them. -/
def gb3Body (P : Primitives) (e : Encryptor) (tryCompress : Bool) (rng : Rng) (p : Bytes) :
    Bytes :=
  (range (pieceCount e.chunkSize p.length)).flatMap fun i =>
    renderStored (storedFrame P e tryCompress (rng.chunkIV i) (pieceAt e.chunkSize p i))

/-- A GB3 blob of at most `2 ^ 32 - 1` chunks is read back. -/
theorem chunkedReading_gb3Body (hA : P.AEADLaws) (hZ : P.ZstdLaws) (hk : validKey e.key = true)
    (hc : e.chunkSize ≤ defaultChunkSize) {flags alg : UInt8}
    (halg : alg = gb3CompressNone ∨ alg = gb3CompressZstd) (tryCompress : Bool) (rng : Rng)
    (hcount : pieceCount e.chunkSize p.length ≤ 2 ^ 32 - 1) :
    chunkedReading P e.decryptor (encodeGB3Header flags alg e.chunkSize p.length ++
      gb3Body P e tryCompress rng p) = some (p, []) := by
  have hmax : e.chunkSize ≤ maxGB3ChunkSize := le_trans hc (by decide)
  have hlt : e.chunkSize < 2 ^ 32 := lt_of_le_of_lt hmax (by decide)
  have hread := readFrames_stored (gb3Rules_reads e.chunkSize)
    (show e.chunkSize + tagSize ≤ (gb3Rules e.chunkSize).maxStored from le_add_right _ _)
    hA hZ hk hc tryCompress rng p (pieceCount e.chunkSize p.length) []
  rw [append_nil, flatMap_pieceAt e.chunkSize_pos] at hread
  obtain ⟨h, hp, hchunks⟩ : ∃ h, parseGB3Header (encodeGB3Header flags alg e.chunkSize p.length ++
      gb3Body P e tryCompress rng p) = .ok h ∧
        h.chunkCount.toNat = pieceCount e.chunkSize p.length :=
    parseGB3Header_encode _ halg e.chunkSize_pos hmax hcount
  rw [chunkedReading_header hlt hp, hchunks]
  exact hread

/-- A GB3 blob of more chunks is rejected: whatever the header announces, it is
less than what follows. -/
theorem decrypt_gb3Body_none (hA : P.AEADLaws) (hZ : P.ZstdLaws) (hk : validKey e.key = true)
    (hc : e.chunkSize ≤ defaultChunkSize) {flags alg : UInt8} (tryCompress : Bool) (rng : Rng)
    (hcount : 2 ^ 32 - 1 < pieceCount e.chunkSize p.length) :
    (decrypt P e.decryptor (encodeGB3Header flags alg e.chunkSize p.length ++
      gb3Body P e tryCompress rng p)).toOption = none := by
  have hlt : e.chunkSize < 2 ^ 32 := lt_of_le_of_lt hc (by decide)
  have hmagic := take_encodeGB3Header flags alg e.chunkSize p.length
    (gb3Body P e tryCompress rng p)
  have hsmall := smallReading_other P e.decryptor
    (show _ ≠ magicGB1 by rw [hmagic]; decide)
  suffices hnone : usedUp (chunkedReading P e.decryptor (encodeGB3Header flags alg e.chunkSize
      p.length ++ gb3Body P e tryCompress rng p)) = none by
    rw [decrypt_toOption, hnone, hsmall]
    split <;> rfl
  cases hp : parseGB3Header (encodeGB3Header flags alg e.chunkSize p.length ++
      gb3Body P e tryCompress rng p) with
  | error err =>
    rw [chunkedReading_gb3 P _ hmagic, hp]
    rfl
  | ok h =>
    -- the frames past the announced ones stay in the tail
    have hle : h.chunkCount.toNat ≤ 2 ^ 32 - 1 := (parseGB3Header_ok hp).2.2
    obtain ⟨k, hk'⟩ := Nat.exists_eq_add_of_lt (Nat.lt_of_le_of_lt hle hcount)
    have hread := readFrames_stored (gb3Rules_reads e.chunkSize)
      (show e.chunkSize + tagSize ≤ (gb3Rules e.chunkSize).maxStored from le_add_right _ _)
      hA hZ hk hc tryCompress rng p h.chunkCount.toNat
      ((range (k + 1)).flatMap fun i => renderStored (storedFrame P e tryCompress
        (rng.chunkIV (h.chunkCount.toNat + i))
        (pieceAt e.chunkSize p (h.chunkCount.toNat + i))))
    rw [chunkedReading_header hlt hp, gb3Body, hk', add_assoc, range_add,
      flatMap_append, flatMap_map]
    refine (congrArg usedUp hread).trans ?_
    rw [range_succ_eq_map, flatMap_cons]
    rfl

/-- The in-memory encoder round-trips `p`: a small blob through
`writeSmallPlaintext`, as the stream treats it. -/
def EncryptRoundTrips (P : Primitives) (e : Encryptor) (rng : Rng) (p : Bytes) : Prop :=
  ∃ b, encrypt P e rng p = .ok b ∧ decrypt P e.decryptor b = .ok p ∧
    (decryptStreamToFile P e.decryptor b []).written =
      if p.length < e.chunkSize then smallPlaintext P p else some p

/-- The streaming encoder round-trips a file with content `p`. -/
def FileRoundTrips (P : Primitives) (e : Encryptor) (tryCompress : Bool) (rng : Rng)
    (p : Bytes) : Prop :=
  ∃ b hashed, encryptFileToWriter P e tryCompress rng p.length p = .ok (b, hashed) ∧
    decrypt P e.decryptor b = .ok p ∧ (decryptStreamToFile P e.decryptor b []).written = some p

theorem smallBlob_le_maxBlobSize (h : n < defaultChunkSize) :
    magicSize + ivSize + (n + tagSize) ≤ maxBlobSize := by
  unfold maxBlobSize magicSize ivSize tagSize
  omega

/-- Below the chunk size: one sealed text behind a vector that is no chunk
count. -/
theorem encryptRoundTrips_small (hA : P.AEADLaws) (hk : validKey e.key = true)
    (hc : e.chunkSize ≤ defaultChunkSize) (rng : Rng) (hp : p.length < e.chunkSize) :
    EncryptRoundTrips P e rng p := by
  have hsealed := sealedText hA e.decryptor hk rng.smallIV p
  have hrun : encrypt P e rng p = .ok (magicGB1 ++ (newSmallBlobIV rng.smallIV).bytes ++
      P.gcmSeal e.key (newSmallBlobIV rng.smallIV).bytes p) := by
    rw [encrypt, if_pos hp, encryptSmall, hk]
    rfl
  refine ⟨_, hrun, hsealed.decrypt_eq hk, ?_⟩
  rw [if_pos hp]
  apply hsealed.written_eq hk
  rw [hsealed.length_eq]
  exact le_add_left_of_le (smallBlob_le_maxBlobSize (lt_of_lt_of_le hp hc))

theorem pieceCount_le_one (h : n < c) : pieceCount c n ≤ 1 :=
  Nat.le_of_lt_succ (Nat.div_lt_of_lt_mul (by omega))

theorem pieceCount_pos (hc : 0 < c) (h : c ≤ n) : 0 < pieceCount c n :=
  div_pos (by omega) hc

/-- From the chunk size on, as long as the count fits a header. -/
theorem encryptRoundTrips_large (hA : P.AEADLaws) (hZ : P.ZstdLaws) (hk : validKey e.key = true)
    (hc : e.chunkSize ≤ defaultChunkSize) (rng : Rng) (hp : ¬ p.length < e.chunkSize)
    (hcount : pieceCount e.chunkSize p.length ≤ 2 ^ 32 - 1) : EncryptRoundTrips P e rng p := by
  have hpos := pieceCount_pos e.chunkSize_pos (not_lt.mp hp)
  simp only [EncryptRoundTrips, encrypt, hp, if_false, encryptLarge]
  by_cases hgb3 : maxChunkCount ≤ pieceCount e.chunkSize p.length
  · have hread : chunkedReading P e.decryptor (encodeGB3Header 0 gb3CompressNone e.chunkSize
        p.length ++ gb3Body P e false rng p) = some (p, []) :=
      chunkedReading_gb3Body hA hZ hk hc (.inl rfl) false rng hcount
    refine ⟨_, ?_, decodes_of_chunkedReading hk hread⟩
    simp only [hgb3, if_true, encryptLargeV3, not_lt.mpr hcount, hk, if_false, gb3Body,
      storedFrame_false, Bool.true_eq_false]
  · have hread : chunkedReading P e.decryptor _ = some (p, []) :=
      (chunkedReading_magicGB1 hpos (not_le.mp hgb3) _).trans (readFrames_fixed hA hk rng p)
    refine ⟨_, ?_, decodes_of_chunkedReading hk hread⟩
    simp only [hgb3, hk, if_false, Bool.true_eq_false]

/-- Past that count the in-memory encoder gives up. -/
theorem encrypt_tooMany (rng : Rng) (hp : ¬ p.length < e.chunkSize)
    (hcount : 2 ^ 32 - 1 < pieceCount e.chunkSize p.length) :
    encrypt P e rng p = .error (.v3ChunkCount (pieceCount e.chunkSize p.length) e.chunkSize) := by
  have hmax : maxChunkCount ≤ pieceCount e.chunkSize p.length :=
    le_trans (by decide) (le_of_lt hcount)
  simp only [encrypt, hp, if_false, encryptLarge, hmax, if_true, encryptLargeV3, hcount]

/-- The blob the streaming encoder writes for a file that does not change. -/
theorem encryptFileToWriter_eq (hk : validKey e.key = true) (tryCompress : Bool) (rng : Rng)
    (p : Bytes) :
    encryptFileToWriter P e tryCompress rng p.length p = .ok
      (if maxChunkCount ≤ pieceCount e.chunkSize p.length then
        encodeGB3Header (if tryCompress then gb3FlagChunkCompressed else 0)
          (if tryCompress then gb3CompressZstd else gb3CompressNone) e.chunkSize p.length ++
          gb3Body P e tryCompress rng p
      else if tryCompress then
        magicGB2 ++ beEncode chunkCountSize (pieceCount e.chunkSize p.length) ++
          gb3Body P e true rng p
      else
        magicGB1 ++ beEncode chunkCountSize (pieceCount e.chunkSize p.length) ++
          (range (pieceCount e.chunkSize p.length)).flatMap fun i =>
            renderFixed (plainFrame P e (rng.chunkIV i) (pieceAt e.chunkSize p i)), p) := by
  simp only [encryptFileToWriter, hk, Bool.true_eq_false, if_false, gb3Body,
    encryptFileLoop_eq tryCompress _ rng _ 0 p rfl, zero_add]
  by_cases hgb3 : maxChunkCount ≤ pieceCount e.chunkSize p.length
  · simp [hgb3]
  · cases tryCompress <;> simp [hgb3, storedFrame_false]

/-- A file of at least one chunk, as long as the count fits a header. -/
theorem fileRoundTrips (hA : P.AEADLaws) (hZ : P.ZstdLaws) (hk : validKey e.key = true)
    (hc : e.chunkSize ≤ defaultChunkSize) (tryCompress : Bool) (rng : Rng)
    (hp : e.chunkSize ≤ p.length) (hcount : pieceCount e.chunkSize p.length ≤ 2 ^ 32 - 1) :
    FileRoundTrips P e tryCompress rng p := by
  have hpos := pieceCount_pos e.chunkSize_pos hp
  refine ⟨_, p, encryptFileToWriter_eq hk tryCompress rng p, ?_⟩
  by_cases hgb3 : maxChunkCount ≤ pieceCount e.chunkSize p.length
  · rw [if_pos hgb3]
    apply decodes_of_chunkedReading hk
    apply chunkedReading_gb3Body hA hZ hk hc _ tryCompress rng hcount
    cases tryCompress
    · exact .inl rfl
    · exact .inr rfl
  · rw [if_neg hgb3]
    have hlt := not_le.mp hgb3
    cases tryCompress with
    | false =>
      exact decodes_of_chunkedReading hk
        ((chunkedReading_magicGB1 hpos hlt _).trans (readFrames_fixed hA hk rng p))
    | true =>
      have hmax : e.chunkSize + tagSize ≤ gb2Rules.maxStored :=
        Nat.le_trans (Nat.add_le_add_right hc tagSize) (Nat.le_add_right _ _)
      have hread := readFrames_stored gb2Rules_reads hmax hA hZ hk hc true rng p
        (pieceCount e.chunkSize p.length) []
      rw [append_nil, flatMap_pieceAt e.chunkSize_pos] at hread
      exact decodes_of_chunkedReading hk ((chunkedReading_magicGB2 hpos hlt _).trans hread)

/-- Past that count the streaming encoder writes a blob that is rejected. -/
theorem not_fileRoundTrips (hA : P.AEADLaws) (hZ : P.ZstdLaws) (hk : validKey e.key = true)
    (hc : e.chunkSize ≤ defaultChunkSize) (tryCompress : Bool) (rng : Rng)
    (hcount : 2 ^ 32 - 1 < pieceCount e.chunkSize p.length) :
    ¬ FileRoundTrips P e tryCompress rng p := by
  rintro ⟨b, hashed, hb, hdec, -⟩
  have hgb3 : maxChunkCount ≤ pieceCount e.chunkSize p.length :=
    le_trans (by decide) (le_of_lt hcount)
  rw [encryptFileToWriter_eq hk, if_pos hgb3] at hb
  cases hb
  have hsome := toOption_eq_some.mpr hdec
  rw [decrypt_gb3Body_none hA hZ hk hc tryCompress rng hcount] at hsome
  cases hsome

/-- **A GB1 small blob is opened whatever its vector looks like**: if the vector
starts like a chunk count, no cut of the blob into chunks is a sealed text, and
the small reading is tried next. -/
theorem decrypt_anyIV (hk : validKey dec.key = true) {iv : IV}
    (hS : P.SealedOnly dec.key iv.bytes p) :
    decrypt P dec (magicGB1 ++ iv.bytes ++ P.gcmSeal dec.key iv.bytes p) = .ok p := by
  let b := magicGB1 ++ iv.bytes ++ P.gcmSeal dec.key iv.bytes p
  have hmagic : b.take magicSize = magicGB1 := rfl
  have hdrop : b.drop magicSize = iv.bytes ++ P.gcmSeal dec.key iv.bytes p := rfl
  have hsmall : smallReading P dec b = some p := by
    have hle : magicSize + ivSize + tagSize ≤ b.length := by
      simp only [b, length_append, iv.length_eq, hS.length_seal]
      change _ ≤ magicSize + _ + _
      omega
    rw [smallReading, if_pos ⟨hmagic, hle⟩, hdrop, take_left' iv.length_eq,
      drop_left' iv.length_eq]
    exact (hS.open_iff _ _ _).mpr ⟨rfl, rfl, rfl⟩
  have hopen : ∀ iv' ct, ct.length < (P.gcmSeal dec.key iv.bytes p).length →
      P.gcmOpen dec.key iv' ct = none := by
    intro iv' ct hlt
    cases h : P.gcmOpen dec.key iv' ct with
    | none => rfl
    | some q =>
      obtain ⟨-, rfl, -⟩ := (hS.open_iff iv' ct q).mp h
      exact absurd hlt (lt_irrefl _)
  have hchunked : chunkedReading P dec b = none := by
    rw [chunkedReading_gb1 P dec hmagic, countedFrames]
    split
    · next hcount =>
      obtain ⟨n, hn⟩ := exists_eq_add_one.mpr (pos_of_isChunkCount hcount)
      rw [hn, readFrames_succ, cutFixed]
      split
      · rfl
      -- chunk 0 is shorter than the one text that was sealed
      have hshort : ((((b.drop magicSize).drop chunkCountSize).drop ivSize).take
          (dec.chunkSize + tagSize)).length < (P.gcmSeal dec.key iv.bytes p).length := by
        have hle := length_take_le' (dec.chunkSize + tagSize)
          (((b.drop magicSize).drop chunkCountSize).drop ivSize)
        rw [hdrop, length_drop, length_drop, length_append, iv.length_eq] at hle
        rw [hdrop]
        simp only [hS.length_seal, chunkCountSize, ivSize, tagSize] at hle ⊢
        omega
      simp only [bind_some, Frame.decode, hopen _ _ hshort, bind_none]
    · rfl
  rw [← toOption_eq_some, decrypt_toOption, if_pos hk]
  show (usedUp (chunkedReading P dec b)).or (smallReading P dec b) = some p
  rw [hchunked, hsmall]
  rfl

/-- **The encoders round-trip exactly the plaintexts whose chunk count fits 32
bits**: the in-memory encoder refuses the others, the streaming encoder writes
them as blobs that are rejected. A small blob is opened whatever its vector. -/
theorem blob_roundTrip_iff (hA : P.AEADLaws) (hZ : P.ZstdLaws) (hk : validKey e.key = true)
    (hc : e.chunkSize ≤ defaultChunkSize) (rng : Rng) (p : Bytes) :
    (EncryptRoundTrips P e rng p ↔ pieceCount e.chunkSize p.length ≤ 2 ^ 32 - 1) ∧
    (e.chunkSize ≤ p.length → ∀ tryCompress,
      (FileRoundTrips P e tryCompress rng p ↔ pieceCount e.chunkSize p.length ≤ 2 ^ 32 - 1)) ∧
    ∀ (Q : Primitives) (iv : IV), Q.SealedOnly e.key iv.bytes p →
      decrypt Q e.decryptor (magicGB1 ++ iv.bytes ++ Q.gcmSeal e.key iv.bytes p) = .ok p := by
  refine ⟨⟨fun hrt => ?_, fun hcount => ?_⟩, fun hp tryCompress => ⟨fun hrt => ?_, ?_⟩, ?_⟩
  · by_contra hcount
    have hp : ¬ p.length < e.chunkSize := by
      intro hp
      have := pieceCount_le_one hp
      omega
    obtain ⟨b, hb, -⟩ := hrt
    rw [encrypt_tooMany rng hp (not_le.mp hcount)] at hb
    cases hb
  · by_cases hp : p.length < e.chunkSize
    · exact encryptRoundTrips_small hA hk hc rng hp
    · exact encryptRoundTrips_large hA hZ hk hc rng hp hcount
  · by_contra hcount
    exact not_fileRoundTrips hA hZ hk hc tryCompress rng (not_le.mp hcount) hrt
  · exact fileRoundTrips hA hZ hk hc tryCompress rng hp
  · intro Q iv hS
    exact (decrypt_anyIV hk hS : decrypt Q e.decryptor _ = _)

end

/-- A vector that starts like the chunk count 1. -/
def ambiguousIV : IV := ⟨beEncode chunkCountSize 1 ++ replicate 8 0, rfl⟩

/-- The AES-128-GCM tag of the empty text for `sampleKey` and `ambiguousIV`. -/
def ambiguousTag : Bytes :=
  [0x3e, 0x09, 0xc7, 0x19, 0x36, 0x00, 0xff, 0x04, 0x33, 0x38, 0x2d, 0x6f, 0x3a, 0x9b, 0xe8, 0x78]

/-- The empty text sealed once, with `ambiguousIV` under `sampleKey`. -/
def sealedOnce : Primitives :=
  { samplePrimitives with
    gcmSeal := fun _ _ _ => ambiguousTag
    gcmOpen := fun _ iv ct =>
      if iv = ambiguousIV.bytes ∧ ct = ambiguousTag then some [] else none }

theorem sealedOnce_sealedOnly : sealedOnce.SealedOnly sampleKey ambiguousIV.bytes [] where
  open_iff iv' ct q := by
    by_cases h : iv' = ambiguousIV.bytes ∧ ct = ambiguousTag
    · simp [sealedOnce, h, eq_comm]
    · simp only [sealedOnce, h, if_false, reduceCtorEq, false_iff]
      exact fun h' => h ⟨h'.1, h'.2.1⟩
  length_seal := rfl

/-- The four bytes of the zstd magic are one chunk of size four. -/
theorem blob_roundTrip_zstdMagic :
    EncryptRoundTrips samplePrimitives (newEncryptor sampleKey 4) sampleRng zstdMagic ∧
      (∀ tryCompress, FileRoundTrips samplePrimitives (newEncryptor sampleKey 4) tryCompress
        sampleRng zstdMagic) ∧
      decrypt sealedOnce (newEncryptor sampleKey 4).decryptor
        (magicGB1 ++ ambiguousIV.bytes ++ sealedOnce.gcmSeal sampleKey ambiguousIV.bytes []) =
          .ok [] := by
  have hroundTrip := blob_roundTrip_iff (e := newEncryptor sampleKey 4) samplePrimitives_aead
    samplePrimitives_zstd (by decide) (by decide) sampleRng
  obtain ⟨hmem, hfile, -⟩ := hroundTrip zstdMagic
  exact ⟨hmem.mpr (by decide), fun tc => (hfile (by decide) tc).mpr (by decide),
    (hroundTrip []).2.2 sealedOnce ambiguousIV sealedOnce_sealedOnly⟩

/-- A file of `2 ^ 32` bytes in chunks of one byte is written without an error
and cannot be read back. -/
theorem not_fileRoundTrips_oversized :
    (encryptFileToWriter samplePrimitives (newEncryptor sampleKey 1) false sampleRng (2 ^ 32)
        (replicate (2 ^ 32) 0)).toOption.isSome ∧
      ¬ FileRoundTrips samplePrimitives (newEncryptor sampleKey 1) false sampleRng
        (replicate (2 ^ 32) 0) := by
  have hcount : 2 ^ 32 - 1 <
      pieceCount (newEncryptor sampleKey 1).chunkSize (replicate (2 ^ 32) (0 : UInt8)).length := by
    rw [length_replicate]
    decide
  exact ⟨rfl, not_fileRoundTrips samplePrimitives_aead samplePrimitives_zstd (by decide)
    (by decide) false sampleRng hcount⟩

end GbfCore
