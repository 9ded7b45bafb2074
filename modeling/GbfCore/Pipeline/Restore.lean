import GbfCore.Blob.Stream
import GbfCore.Pipeline.Process

/-!
# Restoring one file (restore.go, hash.go)

`restoreFile` is what `SimpleRestore.Run` does for an entry: a file with chunks is
put together from its chunk blobs, a large file without chunks is streamed from
its one blob, and a small one is decoded in memory. No blob says whether its
plaintext was compressed; every reader looks at the first four bytes.

The result is the content that is committed to the target file. The staging file,
the mode and the modification time are not modelled; a store may be unable to
stream a blob (`canStream`), and every reader then falls back to `downloadBlob`.
-/

namespace GbfCore

/-- The errors of a restore. -/
inductive RestoreError where
  /-- `get: %w` -/
  | get
  /-- `decrypt: %w` -/
  | decrypt (e : BlobError)
  /-- `decompress: %w` -/
  | decompress
  /-- `hash mismatch: expected %s, got %s` -/
  | hashMismatch (expected got : Bytes)
  /-- `read chunk blob: blob exceeds max size %d` -/
  | readChunkBlob (limit : Nat)
  /-- `aes cipher: %w`, the key size being the cause -/
  | aesCipher (keyLen : Nat)
  /-- `decrypt chunk blob: %w` -/
  | decryptChunkBlob (e : BlobError)
  /-- `decompress chunk blob: %w` -/
  | decompressChunkBlob
  /-- `download chunk %s: %w` -/
  | downloadChunk (hashLog : Bytes) (e : RestoreError)
  /-- `stream decrypt: %w` -/
  | streamDecrypt (e : BlobError)
  /-- `restored content hash mismatch: expected %s, got %s` -/
  | contentHashMismatch (expected got : Bytes)
  /-- `restored content size mismatch: manifest says %d bytes, blob restored %d` -/
  | sizeMismatch (expected : Int) (got : Nat)
deriving DecidableEq

/-- `maxChunkBlobSize` -/
def maxChunkBlobSize : Nat := cdcMaxSize + magicSize + ivSize + tagSize + 2 ^ 20

section
variable (P : Primitives) (dec : Decryptor)

/-- The end of `DownloadBlob` and of `decryptChunkBlobStream`: decompress a
plaintext that looks like a zstd frame and check the hash. -/
def verifiedPlaintext (failed : RestoreError) (expectedHash plaintext : Bytes) :
    Except RestoreError Bytes :=
  match smallPlaintext P plaintext with
  | none => .error failed
  | some plaintext =>
    if P.contentHash plaintext ≠ expectedHash then
      .error (.hashMismatch expectedHash (P.contentHash plaintext))
    else .ok plaintext

/-- `DownloadBlob`. -/
def downloadBlob (s : Blobs) (hash : Bytes) : Except RestoreError Bytes :=
  match s hash with
  | none => .error .get
  | some ciphertext =>
    match decrypt P dec ciphertext with
    | .error e => .error (.decrypt e)
    | .ok plaintext => verifiedPlaintext P .decompress hash plaintext

/-- The blob has the layout of one sealed text. -/
def isSingleBlob (data : Bytes) : Bool :=
  decide (magicSize + ivSize + tagSize < data.length) && decide (data.take magicSize = magicGB1) &&
    !isChunkCount ((data.drop magicSize).take chunkCountSize)

/-- How `decryptChunkBlobStream` opens a blob. -/
def openChunkBlob (data : Bytes) : Except RestoreError Bytes :=
  let fullDecrypt : Except RestoreError Bytes :=
    match decrypt P dec data with
    | .error e => .error (.decryptChunkBlob e)
    | .ok plaintext => .ok plaintext
  if isSingleBlob data then
    if validKey dec.key = false then .error (.aesCipher dec.key.length)
    else
      match P.gcmOpen dec.key ((data.drop magicSize).take ivSize)
          ((data.drop magicSize).drop ivSize) with
      | none => fullDecrypt
      | some opened => .ok opened
  else fullDecrypt

/-- `decryptChunkBlobStream`: the plaintext appended to the destination. -/
def decryptChunkBlobStream (data expectedHash : Bytes) : Except RestoreError Bytes :=
  if maxChunkBlobSize < data.length then .error (.readChunkBlob maxChunkBlobSize)
  else
    match openChunkBlob P dec data with
    | .error e => .error e
    | .ok plaintext => verifiedPlaintext P .decompressChunkBlob expectedHash plaintext

variable (canStream : Bytes → Bool)

/-- `GetStream` fails for a blob that is not there or cannot be streamed. -/
def getStream (s : Blobs) (hash : Bytes) : Option Bytes :=
  if canStream hash then s hash else none

/-- `restoreChunkStream`. -/
def restoreChunkStream (s : Blobs) (hash : Bytes) : Except RestoreError Bytes :=
  match getStream canStream s hash with
  | none => downloadBlob P dec s hash
  | some data => decryptChunkBlobStream P dec data hash

/-- The loop of `restoreChunkedFile`. -/
def restoreChunks (s : Blobs) : (chunks : List ChunkRef) → (dst : Bytes) →
    Except RestoreError Bytes
  | [], dst => .ok dst
  | c :: cs, dst =>
    match restoreChunkStream P dec canStream s c.hash with
    | .error e => .error (.downloadChunk (c.hash.take 12) e)
    | .ok plaintext => restoreChunks s cs (dst ++ plaintext)

/-- `restoreChunkedFile`. -/
def restoreChunkedFile (s : Blobs) (file : FileEntry) : Except RestoreError Bytes :=
  restoreChunks P dec canStream s file.chunks []

/-- `downloadBlobToSecureDir`. -/
def downloadBlobToSecureDir (s : Blobs) (hash : Bytes) (expectedSize : Int) :
    Except RestoreError Bytes :=
  match getStream canStream s hash with
  | none =>
    match downloadBlob P dec s hash with
    | .error e => .error e
    | .ok plaintext =>
      if (plaintext.length : Int) ≠ expectedSize then
        .error (.sizeMismatch expectedSize plaintext.length)
      else .ok plaintext
  | some data =>
    let r := decryptStreamToFile P dec data []
    match r.err with
    | some e => .error (.streamDecrypt e)
    | none =>
      if P.contentHash r.dst ≠ hash then .error (.contentHashMismatch hash (P.contentHash r.dst))
      else if (r.dst.length : Int) ≠ expectedSize then
        .error (.sizeMismatch expectedSize r.dst.length)
      else .ok r.dst

/-- The branch of `SimpleRestore.Run` for an entry. -/
def restoreFile (s : Blobs) (file : FileEntry) : Except RestoreError Bytes :=
  if file.chunks ≠ [] then restoreChunkedFile P dec canStream s file
  else if (defaultChunkSize : Int) ≤ file.size then
    downloadBlobToSecureDir P dec canStream s file.contentHash file.size
  else downloadBlob P dec s file.contentHash

end

end GbfCore
