import GbfCore.Lib.Checks
import GbfCore.Blob.Primitives
import GbfCore.Lib.Frames

/-!
# The blob format (crypto.go)

A stored blob has one of four layouts:

- GB1 small: `magic ‖ iv ‖ ciphertext`;
- GB1 large: `magic ‖ count ‖ (iv ‖ ciphertext)*`, chunk boundaries implied by
  the chunk size of the reader;
- GB2: `magic ‖ count ‖ (size ‖ flags ‖ iv ‖ ciphertext)*`;
- GB3: a 24 byte header and frames like those of GB2.

This module has the parts both codecs share: the errors, the GB3 header, and the
frames of the chunked layouts. A `Frame` is one chunk on the wire; `cutFixed`
(GB1 large) and `cutStored` (GB2, GB3) split one off the front of the data, and
`Frame.decode` is what it decodes to.
-/

namespace GbfCore

open Nat

variable {h : GB3Header} {data : Bytes}

/-- The layouts of a chunked blob. -/
inductive Layout where
  | gb1
  | gb2
  | gb3
deriving DecidableEq, Repr

/-- The errors of the blob codecs, with the values their messages carry. The
buffered GB3 decoder says `gb3 chunk %d` where the others say `chunk %d`; a
constructor with a `Layout` stands for the messages of that layout. -/
inductive BlobError where
  /-- `data too short: %d bytes` -/
  | dataTooShort (n : Nat)
  /-- `invalid magic: %q` -/
  | invalidMagic (magic : Bytes)
  /-- `aes cipher: %w`, the key size being the cause -/
  | aesCipher (keyLen : Nat)
  /-- `small blob too short: %d bytes` -/
  | smallTooShort (n : Nat)
  /-- `decrypt: %w` -/
  | decrypt
  /-- `gb1 invalid chunk count: %d`, `gb2 invalid chunk count: %d` -/
  | invalidChunkCount (l : Layout) (n : Nat)
  /-- `chunk %d: missing IV`, `gb3 chunk %d: missing IV` -/
  | missingIV (l : Layout) (chunk : Nat)
  /-- `decrypt chunk %d: %w`, `gb3 decrypt chunk %d: %w` -/
  | decryptChunk (l : Layout) (chunk : Nat)
  /-- `gb1 trailing data after final chunk: %d bytes`, and for gb2 and gb3 -/
  | trailingData (l : Layout) (n : Nat)
  /-- `gb2 data too short: %d bytes` -/
  | gb2TooShort (n : Nat)
  /-- `chunk %d: missing size header`, `gb3 chunk %d: missing size header` -/
  | missingSizeHeader (l : Layout) (chunk : Nat)
  /-- `chunk %d: storedSize %d exceeds max %d`, with `gb3` in front for GB3 -/
  | storedSize (l : Layout) (chunk size max : Nat)
  /-- `chunk %d: missing ciphertext`, `gb3 chunk %d: missing ciphertext` -/
  | missingCiphertext (l : Layout) (chunk : Nat)
  /-- `decompress chunk %d: %w`, `gb3 decompress chunk %d: %w` -/
  | decompressChunk (l : Layout) (chunk : Nat)
  /-- `gb3 header too short: %d bytes` -/
  | gb3HeaderTooShort (n : Nat)
  /-- `not a GB3 blob: magic %q` -/
  | notGB3 (magic : Bytes)
  /-- `unsupported gb3 version %d` -/
  | gb3Version (v : UInt8)
  /-- `unsupported gb3 hash algorithm %d` -/
  | gb3HashAlg (v : UInt8)
  /-- `unsupported gb3 encryption algorithm %d` -/
  | gb3EncryptionAlg (v : UInt8)
  /-- `unsupported gb3 chunking algorithm %d` -/
  | gb3ChunkingAlg (v : UInt8)
  /-- `unsupported gb3 compression algorithm %d` -/
  | gb3CompressionAlg (v : UInt8)
  /-- `gb3 invalid chunk size 0` -/
  | gb3ChunkSizeZero
  /-- `gb3 chunk size %d exceeds max %d` -/
  | gb3ChunkSize (n max : Nat)
  /-- `gb3 chunk count overflows uint32` -/
  | gb3ChunkCount
  /-- `encryptLargeV3: chunk count %d overflows uint32 for chunk size %d` -/
  | v3ChunkCount (count chunkSize : Nat)
  /-- `read magic: %w` -/
  | readMagic
  /-- `read iv: %w` -/
  | readSmallIV
  /-- `read chunk count: %w` -/
  | readChunkCount
  /-- `read gb3 header: %w` -/
  | readGB3Header
  /-- `invalid chunk count: %d` -/
  | streamChunkCount (n : Nat)
  /-- `read chunk %d header: %w` -/
  | readChunkHeader (chunk : Nat)
  /-- `read iv chunk %d: %w` -/
  | readIV (chunk : Nat)
  /-- `read chunk %d: %w` -/
  | readChunk (chunk : Nat)
  /-- `blob exceeds MaxBlobSize %d` -/
  | exceedsMaxBlobSize
  /-- `decompress: %w` -/
  | decompress
  /-- `write small blob: decompress: %w` -/
  | writeSmallBlob
deriving DecidableEq

/-! ## The GB3 header -/

def gb3HeaderSize : Nat := 24
def gb3Version : UInt8 := 1
def maxGB3ChunkSize : Nat := 64 * 1024 * 1024
def gb3FlagChunkCompressed : UInt8 := 1
def gb3HashSHA256 : UInt8 := 1
def gb3CompressNone : UInt8 := 0
def gb3CompressZstd : UInt8 := 1
def gb3EncryptAESGCM : UInt8 := 1
def gb3ChunkingFixed : UInt8 := 1
def gb3KeyVersionCur : UInt16 := 1

/-- `GB3Header`. -/
structure GB3Header where
  version : UInt8
  flags : UInt8
  hashAlg : UInt8
  compressionAlg : UInt8
  encryptionAlg : UInt8
  chunkingAlg : UInt8
  keyVersion : UInt16
  chunkSize : UInt32
  plaintextSize : UInt64
deriving DecidableEq

/-- `GB3Header.ChunkCount`, in 64-bit arithmetic. -/
def GB3Header.chunkCount (h : GB3Header) : UInt64 :=
  if h.chunkSize = 0 then 0
  else (h.plaintextSize + h.chunkSize.toUInt64 - 1) / h.chunkSize.toUInt64

/-- The count in the arithmetic of natural numbers. -/
theorem GB3Header.toNat_chunkCount_mod (hpos : 0 < h.chunkSize.toNat) :
    h.chunkCount.toNat =
      (h.plaintextSize.toNat + h.chunkSize.toNat - 1) % 2 ^ 64 / h.chunkSize.toNat := by
  have h0 : ¬ h.chunkSize = 0 := by
    intro h0
    rw [h0] at hpos
    exact lt_irrefl _ hpos
  have hsum : (h.plaintextSize + h.chunkSize.toUInt64 - 1).toNat =
      (h.plaintextSize.toNat + h.chunkSize.toNat - 1) % 2 ^ 64 := by
    rw [UInt64.toNat_sub, UInt64.toNat_add, UInt32.toNat_toUInt64, UInt64.toNat_one]
    omega
  rw [GB3Header.chunkCount, if_neg h0, UInt64.toNat_div, hsum, UInt32.toNat_toUInt64]

/-- The count does not wrap unless the plaintext size is close to `2 ^ 64`. -/
theorem GB3Header.toNat_chunkCount (hpos : 0 < h.chunkSize.toNat)
    (hfit : h.plaintextSize.toNat + h.chunkSize.toNat - 1 < 2 ^ 64) :
    h.chunkCount.toNat = pieceCount h.chunkSize.toNat h.plaintextSize.toNat := by
  rw [toNat_chunkCount_mod hpos, mod_eq_of_lt hfit]
  rfl

/-- Where it wraps it is 0, and some pieces are there. -/
theorem GB3Header.toNat_chunkCount_wrapped (hpos : 0 < h.chunkSize.toNat)
    (hwrap : 2 ^ 64 ≤ h.plaintextSize.toNat + h.chunkSize.toNat - 1) :
    h.chunkCount.toNat = 0 ∧ 0 < pieceCount h.chunkSize.toNat h.plaintextSize.toNat := by
  have hplain := h.plaintextSize.toNat_lt
  have hsize := h.chunkSize.toNat_lt
  constructor
  · have hmod : (h.plaintextSize.toNat + h.chunkSize.toNat - 1) % 2 ^ 64 < h.chunkSize.toNat := by
      rw [mod_eq_sub_mod hwrap, mod_eq_of_lt] <;> omega
    rw [toNat_chunkCount_mod hpos, div_eq_of_lt hmod]
  · exact div_pos (by omega) hpos

/-- `encodeGB3Header`. Byte 11 is the low byte of the key version. -/
def encodeGB3Header (flags compressAlg : UInt8) (chunkSize plaintextSize : Nat) : Bytes :=
  magicGB3 ++ [gb3Version, flags, gb3HashSHA256, compressAlg, gb3EncryptAESGCM, gb3ChunkingFixed]
    ++ beEncode 2 gb3KeyVersionCur.toNat ++ beEncode 4 chunkSize ++ beEncode 8 plaintextSize

/-- The fields of a GB3 header at their offsets, before any check. -/
def readGB3Header (data : Bytes) : GB3Header where
  version := data.getD 4 0
  flags := data.getD 5 0
  hashAlg := data.getD 6 0
  compressionAlg := data.getD 7 0
  encryptionAlg := data.getD 8 0
  chunkingAlg := data.getD 9 0
  keyVersion := UInt16.ofNat (beDecode ((data.drop 10).take 2))
  chunkSize := UInt32.ofNat (beDecode ((data.drop 12).take 4))
  plaintextSize := UInt64.ofNat (beDecode ((data.drop 16).take 8))

/-- `ParseGB3Header`. -/
def parseGB3Header (data : Bytes) : Except BlobError GB3Header :=
  if data.length < gb3HeaderSize then .error (.gb3HeaderTooShort data.length)
  else if data.take magicSize ≠ magicGB3 then .error (.notGB3 (data.take magicSize))
  else
    let h := readGB3Header data
    if h.version ≠ gb3Version then .error (.gb3Version h.version)
    else if h.hashAlg ≠ gb3HashSHA256 then .error (.gb3HashAlg h.hashAlg)
    else if h.encryptionAlg ≠ gb3EncryptAESGCM then .error (.gb3EncryptionAlg h.encryptionAlg)
    else if h.chunkingAlg ≠ gb3ChunkingFixed then .error (.gb3ChunkingAlg h.chunkingAlg)
    else if h.compressionAlg ≠ gb3CompressNone ∧ h.compressionAlg ≠ gb3CompressZstd then
      .error (.gb3CompressionAlg h.compressionAlg)
    else if h.chunkSize = 0 then .error .gb3ChunkSizeZero
    else if maxGB3ChunkSize < h.chunkSize.toNat then
      .error (.gb3ChunkSize h.chunkSize.toNat maxGB3ChunkSize)
    else if 2 ^ 32 - 1 < h.chunkCount.toNat then .error .gb3ChunkCount
    else .ok h

/-- A header that is accepted announces at most `2 ^ 32 - 1` chunks. -/
theorem parseGB3Header_ok (hp : parseGB3Header data = .ok h) :
    h = readGB3Header data ∧ 0 < h.chunkSize.toNat ∧ h.chunkCount.toNat ≤ 2 ^ 32 - 1 := by
  simp only [parseGB3Header, guard_eq_ok] at hp
  obtain ⟨-, -, -, -, -, -, -, hsize, -, hcount, hok⟩ := hp
  cases hok
  refine ⟨rfl, pos_of_ne_zero fun h0 => hsize ?_, not_lt.mp hcount⟩
  exact UInt32.toNat_inj.mp h0

/-- A field inside the first part of the data is read from that part. -/
theorem field_append {k w : Nat} (h : k + w ≤ data.length) (tail : Bytes) :
    ((data ++ tail).drop k).take w = (data.drop k).take w := by
  rw [List.take_drop, List.take_drop, List.take_append_of_le_length h]

/-- Only the first `GB3HeaderSize` bytes matter to the header. -/
theorem parseGB3Header_append (h : data.length = gb3HeaderSize) (tail : Bytes) :
    parseGB3Header (data ++ tail) = parseGB3Header data := by
  have hle : gb3HeaderSize ≤ data.length := le_of_eq h.symm
  have hhead : readGB3Header (data ++ tail) = readGB3Header data := by
    simp only [gb3HeaderSize] at h
    have hget : ∀ i < 24, (data ++ tail).getD i 0 = data.getD i 0 := fun i hi => by
      exact List.getD_append _ _ _ _ (by omega)
    simp only [readGB3Header, hget 4 (by decide), hget 5 (by decide), hget 6 (by decide),
      hget 7 (by decide), hget 8 (by decide), hget 9 (by decide)]
    rw [field_append (by omega), field_append (by omega), field_append (by omega)]
  have hmagic : (data ++ tail).take magicSize = data.take magicSize :=
    List.take_append_of_le_length (le_trans (by decide) hle)
  have hlen : ¬ (data ++ tail).length < gb3HeaderSize := by
    rw [List.length_append]
    omega
  simp only [parseGB3Header, hlen, not_lt.mpr hle, hmagic, hhead, if_false]

/-! ## Frames -/

/-- One chunk on the wire: its vector, its ciphertext and whether the sealed
text is a zstd frame. -/
structure Frame where
  compressed : Bool
  iv : Bytes
  ciphertext : Bytes
deriving DecidableEq

/-- What a frame decodes to. -/
def Frame.decode (P : Primitives) (key : Bytes) (f : Frame) : Option Bytes :=
  match P.gcmOpen key f.iv f.ciphertext with
  | none => none
  | some p => if f.compressed then P.zstdDecompress maxDecompressedSize p else some p

/-- A GB1 large frame: a vector and as much ciphertext as a chunk can have. -/
def cutFixed (chunkSize : Nat) (data : Bytes) : Option (Frame × Bytes) :=
  if data.length < ivSize then none
  else
    let body := data.drop ivSize
    some (⟨false, data.take ivSize, body.take (chunkSize + tagSize)⟩,
      body.drop (chunkSize + tagSize))

/-- How GB2 and GB3 read a frame: the largest size accepted, and the test of the
flags byte. -/
structure FrameRules where
  layout : Layout
  maxStored : Nat
  isCompressedFlag : UInt8 → Bool

/-- GB2: any non-zero flags byte marks a compressed chunk. -/
def gb2Rules : FrameRules := ⟨.gb2, maxStoredSize, fun b => decide (b ≠ 0)⟩

/-- GB3: bit 0 marks a compressed chunk, and the bound comes from the header. -/
def gb3Rules (chunkSize : Nat) : FrameRules :=
  ⟨.gb3, chunkSize + tagSize + 1024, fun b => decide (b &&& gb3FlagChunkCompressed ≠ 0)⟩

/-- A GB2 or GB3 frame: size, flags, vector and ciphertext. -/
def cutStored (r : FrameRules) (data : Bytes) : Option (Frame × Bytes) :=
  if data.length < chunkCountSize + flagsSize then none
  else
    let storedSize := beDecode (data.take chunkCountSize)
    let compressed := r.isCompressedFlag (data.getD chunkCountSize 0)
    let data := data.drop (chunkCountSize + flagsSize)
    if r.maxStored < storedSize then none
    else if data.length < ivSize then none
    else
      let iv := data.take ivSize
      let data := data.drop ivSize
      if data.length < storedSize then none
      else some (⟨compressed, iv, data.take storedSize⟩, data.drop storedSize)

end GbfCore
