import GbfCore.Blob.Wire

/-!
# The encoders (crypto.go, stream.go)

`encrypt` is the in-memory encoder: GB1 small below the chunk size, GB1 large
above it, and GB3 when the chunk count does not fit the legacy layouts.
`encryptFileToWriter` is the streaming one: GB1 large without a compressor, GB2
with one, and GB3 for large counts. It takes the chunk count from the size the
file had when it was opened, and writes what it reads after that.
-/

namespace GbfCore

/-- An encryptor: a key and a positive chunk size. -/
structure Encryptor where
  key : Bytes
  chunkSize : Nat
  chunkSize_pos : 0 < chunkSize

/-- `NewEncryptor`: a chunk size that is not positive becomes the default. -/
def newEncryptor (key : Bytes) (chunkSize : Int) : Encryptor :=
  if h : chunkSize ≤ 0 then ⟨key, defaultChunkSize, defaultChunkSize_pos⟩
  else ⟨key, chunkSize.toNat, chunkSize_toNat_pos h⟩

/-! ## Frames on the wire -/

/-- A chunk in a GB1 large blob. -/
def renderFixed (f : Frame) : Bytes :=
  f.iv ++ f.ciphertext

/-- A chunk in a GB2 or GB3 blob. -/
def renderStored (f : Frame) : Bytes :=
  beEncode chunkCountSize f.ciphertext.length ++
    [if f.compressed then gb3FlagChunkCompressed else 0] ++ f.iv ++ f.ciphertext

section
variable (P : Primitives) (e : Encryptor)

/-- A chunk sealed as it is. -/
def plainFrame (iv : IV) (chunk : Bytes) : Frame :=
  ⟨false, iv.bytes, P.gcmSeal e.key iv.bytes chunk⟩

/-- `encryptSmall`. -/
def encryptSmall (draws : Draws) (plaintext : Bytes) : Except BlobError Bytes :=
  if validKey e.key = false then .error (.aesCipher e.key.length)
  else
    let iv := newSmallBlobIV draws
    .ok (magicGB1 ++ iv.bytes ++ P.gcmSeal e.key iv.bytes plaintext)

/-- `encryptLargeV3`. -/
def encryptLargeV3 (rng : Rng) (plaintext : Bytes) : Except BlobError Bytes :=
  let chunkCount := pieceCount e.chunkSize plaintext.length
  if 2 ^ 32 - 1 < chunkCount then .error (.v3ChunkCount chunkCount e.chunkSize)
  else if validKey e.key = false then .error (.aesCipher e.key.length)
  else
    .ok (encodeGB3Header 0 gb3CompressNone e.chunkSize plaintext.length ++
      (List.range chunkCount).flatMap fun i =>
        renderStored (plainFrame P e (rng.chunkIV i) (pieceAt e.chunkSize plaintext i)))

/-- `encryptLarge`. -/
def encryptLarge (rng : Rng) (plaintext : Bytes) : Except BlobError Bytes :=
  let chunkCount := pieceCount e.chunkSize plaintext.length
  if maxChunkCount ≤ chunkCount then encryptLargeV3 P e rng plaintext
  else if validKey e.key = false then .error (.aesCipher e.key.length)
  else
    .ok (magicGB1 ++ beEncode chunkCountSize chunkCount ++
      (List.range chunkCount).flatMap fun i =>
        renderFixed (plainFrame P e (rng.chunkIV i) (pieceAt e.chunkSize plaintext i)))

/-- `Encrypt`. -/
def encrypt (rng : Rng) (plaintext : Bytes) : Except BlobError Bytes :=
  if plaintext.length < e.chunkSize then encryptSmall P e rng.smallIV plaintext
  else encryptLarge P e rng plaintext

/-! ## The streaming encoder -/

/-- Chunks shorter than this are not worth compressing. -/
def minCompressSize : Nat := 65536

/-- The chunk as `encryptFileToWriter` stores it: compressed if that is asked
for, worth trying and a gain. -/
def storedChunk (tryCompress : Bool) (chunk : Bytes) : Bytes × Bool :=
  if tryCompress ∧ minCompressSize ≤ chunk.length ∧
      (P.zstdCompress chunk).length < chunk.length then (P.zstdCompress chunk, true)
  else (chunk, false)

/-- The chunk sealed the way `encryptFileToWriter` stores it. -/
def storedFrame (tryCompress : Bool) (iv : IV) (chunk : Bytes) : Frame :=
  let stored := storedChunk P tryCompress chunk
  ⟨stored.2, iv.bytes, P.gcmSeal e.key iv.bytes stored.1⟩

/-- The chunk loop of `encryptFileToWriter`: `n` chunks announced and not yet
written, chunk `i` next, `src` what further reads deliver. The result is what is
written and what is fed to the plaintext hash. -/
def encryptFileLoop (tryCompress useGB3 : Bool) (rng : Rng) :
    (n i : Nat) → (src : Bytes) → Bytes × Bytes
  | 0, _, _ => ([], [])
  | n + 1, i, src =>
    let chunk := src.take e.chunkSize
    -- a read at the end of the file ends the loop before the announced count
    if chunk.length = 0 then ([], [])
    else
      let frame := storedFrame P e tryCompress (rng.chunkIV i) chunk
      let written := if tryCompress || useGB3 then renderStored frame else renderFixed frame
      let rest := encryptFileLoop tryCompress useGB3 rng n (i + 1) (src.drop e.chunkSize)
      (written ++ rest.1, chunk ++ rest.2)

/-- `encryptFileToWriter` on a file whose size is `size` when it is opened and
whose reads deliver `src`: the bytes written and the bytes hashed. -/
def encryptFileToWriter (tryCompress : Bool) (rng : Rng) (size : Nat) (src : Bytes) :
    Except BlobError (Bytes × Bytes) :=
  if validKey e.key = false then .error (.aesCipher e.key.length)
  else
    let chunkCount := pieceCount e.chunkSize size
    let useGB3 := decide (maxChunkCount ≤ chunkCount)
    let header :=
      if useGB3 then
        encodeGB3Header (if tryCompress then gb3FlagChunkCompressed else 0)
          (if tryCompress then gb3CompressZstd else gb3CompressNone) e.chunkSize size
      else (if tryCompress then magicGB2 else magicGB1) ++ beEncode chunkCountSize chunkCount
    let body := encryptFileLoop P e tryCompress useGB3 rng chunkCount 0 src
    .ok (header ++ body.1, body.2)

end

end GbfCore
