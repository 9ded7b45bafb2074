import GbfCore.Lib.Bytes

/-!
# Primitives the engine is built on

The engine's own logic starts above four primitives that are not part of the
repository: AES-GCM (`crypto/aes`, `crypto/cipher`), SHA-256
(`crypto/sha256`), zstd (`klauspost/compress`) and the content-defined chunker
(`restic/chunker`). They are the fields of `Primitives`; what the engine relies
on is stated in the `...Laws` structures, one for each primitive, and every
theorem names the laws it needs.

Randomness is an argument too: `Rng` holds the initialisation vectors that
`rand.Read` returns for one blob. `newSmallBlobIV` keeps drawing until a draw does not look
like a chunk count (crypto.go), so a `Draws` comes with the evidence that such a
draw turns up.
-/

namespace GbfCore

/-! ## Constants (crypto.go, config.go, chunk_cdc.go, zstd.go) -/

def magicSize : Nat := 4
def ivSize : Nat := 12
def tagSize : Nat := 16
def chunkCountSize : Nat := 4
def flagsSize : Nat := 1
def maxChunkCount : Nat := 100000
def defaultChunkSize : Nat := 4 * 1024 * 1024
def maxStoredSize : Nat := defaultChunkSize + tagSize + 1024
def maxBlobSize : Nat := defaultChunkSize + ivSize + tagSize + 2 ^ 20
def cdcMaxSize : Nat := 16 * 1024 * 1024
def maxDecompressedSize : Nat := 128 * 1024 * 1024
def maxManifestDecompressedSize : Nat := 256 * 1024 * 1024

theorem defaultChunkSize_pos : 0 < defaultChunkSize := by decide

theorem chunkSize_toNat_pos {chunkSize : Int} (h : ¬ chunkSize ≤ 0) : 0 < chunkSize.toNat := by
  omega

/-- `"GB1\x00"` -/
def magicGB1 : Bytes := [0x47, 0x42, 0x31, 0x00]

/-- `"GB2\x00"` -/
def magicGB2 : Bytes := [0x47, 0x42, 0x32, 0x00]

/-- `"GB3\x00"` -/
def magicGB3 : Bytes := [0x47, 0x42, 0x33, 0x00]

@[simp] theorem magicGB1_ne_magicGB2 : magicGB1 ≠ magicGB2 := by decide

@[simp] theorem magicGB1_ne_magicGB3 : magicGB1 ≠ magicGB3 := by decide

@[simp] theorem magicGB2_ne_magicGB3 : magicGB2 ≠ magicGB3 := by decide

/-- The first four bytes of a zstd frame (zstd.go). -/
def zstdMagic : Bytes := [0x28, 0xb5, 0x2f, 0xfd]

/-- `ZstdCompressor.IsCompressed`. -/
def isCompressed (data : Bytes) : Bool :=
  decide (4 ≤ data.length) && decide (data.take 4 = zstdMagic)

/-! ## The primitives and their laws -/

/-- `aes.NewCipher` accepts 16, 24 and 32 byte keys. -/
def validKey (key : Bytes) : Bool :=
  decide (key.length = 16 ∨ key.length = 24 ∨ key.length = 32)

/-- The functions the engine takes from outside the repository. -/
structure Primitives where
  /-- `gcm.Seal(nil, iv, plaintext, nil)` for the cipher of a key. -/
  gcmSeal : (key iv plaintext : Bytes) → Bytes
  /-- `gcm.Open(nil, iv, ciphertext, nil)`; `none` is an authentication failure. -/
  gcmOpen : (key iv ciphertext : Bytes) → Option Bytes
  /-- `sha256.Sum256` -/
  sha256 : Bytes → Bytes
  /-- `ZstdCompressor.Compress`, which never returns an error. -/
  zstdCompress : Bytes → Bytes
  /-- `ZstdCompressor.Decompress` of a compressor with the given output limit. -/
  zstdDecompress : (limit : Nat) → Bytes → Option Bytes
  /-- The pieces `chunker.Next` returns for a stream, for a polynomial. -/
  cdcSplit : (pol : Nat) → Bytes → List Bytes

namespace Primitives

variable (P : Primitives)

/-- AES-GCM with a `validKey` and a nonce of `ivSize` bytes: opening inverts
sealing, and a sealed text is a tag longer. -/
structure AEADLaws : Prop where
  open_seal : ∀ key iv p, validKey key = true → iv.length = ivSize →
    P.gcmOpen key iv (P.gcmSeal key iv p) = some p
  length_seal : ∀ key iv p, validKey key = true → iv.length = ivSize →
    (P.gcmSeal key iv p).length = p.length + tagSize

/-- The authenticity of AES-GCM, for a key under which `p` was sealed with `iv`
and nothing else was sealed: opening succeeds on that pair and on no other. -/
structure SealedOnly (key iv p : Bytes) : Prop where
  open_iff : ∀ iv' ct q, P.gcmOpen key iv' ct = some q ↔
    iv' = iv ∧ ct = P.gcmSeal key iv p ∧ q = p
  length_seal : (P.gcmSeal key iv p).length = p.length + tagSize

/-- zstd: decompression inverts compression within the output limit, and what
a non-empty text compresses to starts with the frame magic. -/
structure ZstdLaws : Prop where
  decompress_compress : ∀ limit d, d.length ≤ limit →
    P.zstdDecompress limit (P.zstdCompress d) = some d
  isCompressed_compress : ∀ d, d ≠ [] → isCompressed (P.zstdCompress d) = true

/-- The chunker cuts a stream into consecutive non-empty pieces of bounded
size. -/
structure CDCLaws : Prop where
  flatten_split : ∀ pol b, (P.cdcSplit pol b).flatten = b
  split_ne_nil : ∀ pol b, ∀ d ∈ P.cdcSplit pol b, d ≠ []
  length_split_le : ∀ pol b, ∀ d ∈ P.cdcSplit pol b, d.length ≤ cdcMaxSize

/-- `SHA256Bytes`: the blob name of a content. -/
def contentHash (data : Bytes) : Bytes :=
  hexEncode (P.sha256 data)

end Primitives

/-! ## Random initialisation vectors -/

/-- An initialisation vector: `IVSize` random bytes. -/
structure IV where
  bytes : Bytes
  length_eq : bytes.length = ivSize
deriving DecidableEq

/-- `isChunkCount`: could these bytes be the chunk count of a large blob? -/
def isChunkCount (buf : Bytes) : Bool :=
  if buf.length < chunkCountSize then false
  else
    let v := beDecode (buf.take chunkCountSize)
    decide (0 < v) && decide (v < maxChunkCount)

/-- The draws of one `newSmallBlobIV` call. The rejection loop stops because
some draw is accepted. -/
structure Draws where
  draw : Nat → IV
  accepted : ∃ n, isChunkCount ((draw n).bytes.take chunkCountSize) = false

/-- `newSmallBlobIV`: the first draw whose head is not a chunk count. -/
def newSmallBlobIV (d : Draws) : IV :=
  d.draw (Nat.find d.accepted)

theorem newSmallBlobIV_not_chunkCount (d : Draws) :
    isChunkCount ((newSmallBlobIV d).bytes.take chunkCountSize) = false :=
  Nat.find_spec d.accepted

/-- The random values drawn for one blob: a rejection loop if it is small, a
vector for each chunk if it is not. -/
structure Rng where
  smallIV : Draws
  chunkIV : Nat → IV

end GbfCore
