import GbfCore.Blob.Primitives

/-!
# An instance of the primitives

`samplePrimitives` satisfies every law of `Primitives`, so the laws are
consistent, and it gives fixed inputs to evaluate the engine on. It is a stream
cipher with a tag table, and on the two texts of the table (the empty one and the
four bytes of the zstd magic) it agrees with AES-128-GCM under the zero key and
the zero vector, and with SHA-256.
-/

namespace GbfCore

open List

/-- Sixteen zero bytes. -/
def sampleKey : Bytes := replicate 16 0

/-- Twelve zero bytes. -/
def sampleIV : IV := ⟨replicate 12 0, rfl⟩

/-- The first keystream block of AES-128-GCM for `sampleKey` and `sampleIV`. -/
def sampleKeystream : Bytes :=
  [0x03, 0x88, 0xda, 0xce, 0x60, 0xb6, 0xa3, 0x92, 0xf3, 0x28, 0xc2, 0xb9, 0x71, 0xb2, 0xfe, 0x78]

/-- The AES-128-GCM tags of the empty text and of `zstdMagic`. -/
def sampleTag (p : Bytes) : Bytes :=
  if p = [] then
    [0x58, 0xe2, 0xfc, 0xce, 0xfa, 0x7e, 0x30, 0x61, 0x36, 0x7f, 0x1d, 0x57, 0xa4, 0xe7, 0x45, 0x5a]
  else if p = zstdMagic then
    [0xea, 0x28, 0x93, 0xe6, 0x68, 0x51, 0xf4, 0x49, 0xf3, 0x66, 0x49, 0x82, 0x36, 0xa1, 0xd8, 0xf0]
  else replicate 16 0

theorem length_sampleTag (p : Bytes) : (sampleTag p).length = tagSize := by
  rw [sampleTag]
  split
  · rfl
  · split <;> rfl

/-- The SHA-256 digests of the empty text and of `zstdMagic`. -/
def sampleSHA256 (p : Bytes) : Bytes :=
  if p = [] then
    [0xe3, 0xb0, 0xc4, 0x42, 0x98, 0xfc, 0x1c, 0x14, 0x9a, 0xfb, 0xf4, 0xc8, 0x99, 0x6f, 0xb9, 0x24,
     0x27, 0xae, 0x41, 0xe4, 0x64, 0x9b, 0x93, 0x4c, 0xa4, 0x95, 0x99, 0x1b, 0x78, 0x52, 0xb8, 0x55]
  else if p = zstdMagic then
    [0x1c, 0x98, 0x6d, 0xc0, 0x83, 0xde, 0x2f, 0x3d, 0x01, 0x81, 0x1c, 0xcf, 0x5f, 0xeb, 0xa7, 0xbb,
     0xf9, 0x33, 0x65, 0x95, 0x91, 0xbf, 0x72, 0x9c, 0x68, 0x7c, 0x11, 0x77, 0xdf, 0x4c, 0xb4, 0x7d]
  else p

theorem sampleSHA256_ne_nil (p : Bytes) : sampleSHA256 p ≠ [] := by
  unfold sampleSHA256
  split
  · exact cons_ne_nil _ _
  · split
    · exact cons_ne_nil _ _
    · assumption

/-- A text and a keystream, byte by byte. -/
def xorStream : Bytes → Bytes → Bytes
  | _, [] => []
  | [], p => p
  | k :: ks, b :: p => (k ^^^ b) :: xorStream ks p

theorem length_xorStream : ∀ ks p : Bytes, (xorStream ks p).length = p.length
  | [], [] => rfl
  | [], _ :: _ => rfl
  | _ :: _, [] => rfl
  | _ :: ks, _ :: p => congrArg (· + 1) (length_xorStream ks p)

theorem xorStream_xorStream : ∀ ks p : Bytes, xorStream ks (xorStream ks p) = p
  | [], [] => rfl
  | [], _ :: _ => rfl
  | _ :: _, [] => rfl
  | k :: ks, b :: p => by
    rw [xorStream, xorStream, xorStream_xorStream ks p, ← UInt8.xor_assoc, UInt8.xor_self,
      UInt8.zero_xor]

/-- A cipher that satisfies `AEADLaws`, a compressor that satisfies `ZstdLaws`
and a chunker that satisfies `CDCLaws`. -/
def samplePrimitives : Primitives where
  gcmSeal _ _ p := xorStream sampleKeystream p ++ sampleTag p
  gcmOpen _ _ ct :=
    let p := xorStream sampleKeystream (ct.take (ct.length - tagSize))
    if ct.drop (ct.length - tagSize) = sampleTag p then some p else none
  sha256 := sampleSHA256
  zstdCompress d := zstdMagic ++ 0 :: d
  zstdDecompress limit d :=
    if d.take 5 = zstdMagic ++ [0] ∧ (d.drop 5).length ≤ limit then some (d.drop 5) else none
  cdcSplit _ b := pieces cdcMaxSize b

/-- The primitives with another stream cipher. -/
def Primitives.withCipher (P : Primitives) (keystream : Bytes) (tag : Bytes → Bytes) :
    Primitives :=
  { P with
    gcmSeal := fun _ _ p => xorStream keystream p ++ tag p
    gcmOpen := fun _ _ ct =>
      let p := xorStream keystream (ct.take (ct.length - tagSize))
      if ct.drop (ct.length - tagSize) = tag p then some p else none }

theorem withCipher_aead (P : Primitives) (keystream : Bytes) {tag : Bytes → Bytes}
    (htag : ∀ p, (tag p).length = tagSize) : (P.withCipher keystream tag).AEADLaws where
  open_seal key iv p _ _ := by
    have hlen : (xorStream keystream p ++ tag p).length - tagSize =
        (xorStream keystream p).length := by
      rw [length_append, htag, Nat.add_sub_cancel]
    simp only [Primitives.withCipher, hlen, take_left, drop_left, xorStream_xorStream,
      if_true]
  length_seal key iv p _ _ := by
    simp only [Primitives.withCipher, length_append, length_xorStream, htag]

theorem withCipher_zstd {P : Primitives} (keystream : Bytes) (tag : Bytes → Bytes)
    (h : P.ZstdLaws) : (P.withCipher keystream tag).ZstdLaws :=
  ⟨h.decompress_compress, h.isCompressed_compress⟩

/-- The primitives with the SHA-256 digests of more texts, each as a number. -/
def Primitives.withDigests (P : Primitives) (digests : List (Bytes × Nat)) : Primitives :=
  { P with sha256 := fun d =>
      match digests.lookup d with
      | some n => beEncode 32 n
      | none => P.sha256 d }

theorem withDigests_zstd {P : Primitives} (digests : List (Bytes × Nat)) (h : P.ZstdLaws) :
    (P.withDigests digests).ZstdLaws :=
  ⟨h.decompress_compress, h.isCompressed_compress⟩

theorem samplePrimitives_aead : samplePrimitives.AEADLaws :=
  withCipher_aead samplePrimitives sampleKeystream length_sampleTag

theorem samplePrimitives_zstd : samplePrimitives.ZstdLaws where
  decompress_compress limit d h := by
    simp [samplePrimitives, zstdMagic, h]
  isCompressed_compress d _ := by
    simp [samplePrimitives, isCompressed, zstdMagic]

theorem samplePrimitives_cdc : samplePrimitives.CDCLaws where
  flatten_split _ b := flatten_pieces (by decide) b
  split_ne_nil _ _ _ hd := ne_nil_of_mem_pieces (by decide) hd
  length_split_le _ _ _ hd := length_le_of_mem_pieces hd

/-- Every draw is `sampleIV`. -/
def sampleRng : Rng where
  smallIV := ⟨fun _ => sampleIV, 0, by decide⟩
  chunkIV _ := sampleIV

end GbfCore
