import GbfCore.Blob.Stream
import GbfCore.Blob.Sample

/-!
# Streaming against buffered decoding

The engine parses every layout twice, once on a slice (`decrypt`) and once on a
reader (`decryptStreamToFile`). Both parsers walk over the same frames, and they
differ in two places only:

- the buffered decoder rejects bytes after the last announced chunk, the stream
  never looks at them;
- a GB1 small blob that starts like a chunk count is read as small by the
  buffered decoder whenever the chunked reading fails, by the stream only when
  it fails in chunk 0 and the blob ends within that chunk.

`decryptStreamToFile_agrees_iff` says that the decoders agree on a blob exactly
when it avoids both (`StreamSafe`).
-/

namespace GbfCore

open Option

section
variable (P : Primitives) (dec : Decryptor)

/-- `Decrypt` decodes this blob, if it does, as a GB1 small blob. -/
def DecodesSmall (b : Bytes) : Prop :=
  b.take magicSize = magicGB1 ∧ (decryptLarge P dec (b.drop magicSize)).toOption = none

instance (b : Bytes) : Decidable (DecodesSmall P dec b) :=
  inferInstanceAs (Decidable (_ ∧ _))

/-- What the buffered decoder stands for in a stream: its plaintext, except that
a GB1 small blob is written by `writeSmallPlaintext`. -/
def bufferedOutcome (b : Bytes) : Option Bytes :=
  (decrypt P dec b).toOption.bind fun p =>
    if DecodesSmall P dec b then smallPlaintext P p else some p

/-- The blobs on which the stream's two shortcuts make no difference. -/
structure StreamSafe (b : Bytes) : Prop where
  /-- Nothing follows the announced chunks (or, whatever follows, the small
  reading happens to be the same text). -/
  nothing_after : ∀ p tail, chunkedReading P dec b = some (p, tail) →
    tail = [] ∨ (smallReading P dec b).bind (smallPlaintext P) = some p
  /-- A blob without a chunked reading gets to its small one, if it has one. -/
  small_tried : ∀ p, chunkedReading P dec b = none →
    (smallReading P dec b).bind (smallPlaintext P) = some p → SmallTried P dec b

/-- The chunked reading of a GB1 blob uses the blob up exactly when `Decrypt`
decodes it as a large one. -/
theorem usedUp_chunkedReading_gb1 {b : Bytes} (h : b.take magicSize = magicGB1)
    (hk : validKey dec.key = true) :
    usedUp (chunkedReading P dec b) = (decryptLarge P dec (b.drop magicSize)).toOption := by
  rw [chunkedReading_gb1 P dec h, decryptLarge_toOption, if_pos hk]

/-- The two readings of the buffered decoder, as a stream would write them. -/
theorem bufferedOutcome_eq (b : Bytes) :
    bufferedOutcome P dec b =
      if validKey dec.key = true then
        (usedUp (chunkedReading P dec b)).or ((smallReading P dec b).bind (smallPlaintext P))
      else none := by
  rw [bufferedOutcome, decrypt_toOption]
  cases hk : validKey dec.key with
  | false => rfl
  | true =>
    simp only [if_true]
    cases hu : usedUp (chunkedReading P dec b) with
    | some p =>
      have hlarge : ¬ DecodesSmall P dec b := by
        rintro ⟨h1, hnone⟩
        rw [← usedUp_chunkedReading_gb1 P dec h1 hk, hu] at hnone
        cases hnone
      simp [hlarge]
    | none =>
      by_cases h1 : b.take magicSize = magicGB1
      · have hsmall : DecodesSmall P dec b :=
          ⟨h1, by rw [← usedUp_chunkedReading_gb1 P dec h1 hk, hu]⟩
        simp [hsmall]
      · simp [smallReading_other P dec h1]

/-- **The two decoders agree on a blob exactly when it is safe to stream**: the
stream succeeds and writes `w` if and only if the buffered decoder succeeds and
stands for `w`. -/
theorem decryptStreamToFile_agrees_iff {b : Bytes} (hb : b.length ≤ maxBlobSize) :
    (∀ w, (decryptStreamToFile P dec b []).written = some w ↔ bufferedOutcome P dec b = some w) ↔
      (validKey dec.key = true → StreamSafe P dec b) := by
  rw [decryptStreamToFile_written P dec fun _ _ => hb, bufferedOutcome_eq]
  cases hk : validKey dec.key with
  | false => simp
  | true =>
    simp only [if_true, List.nil_append, map_id_fun', id_eq, true_implies, streamReading]
    rw [← Option.ext_iff]
    cases hc : chunkedReading P dec b with
    | none =>
      -- neither decoder has a chunked reading; the small one is left
      simp only [map_none, none_or, usedUp]
      constructor
      · intro h
        refine ⟨fun p tail hp => ?_, fun p _ hp => ?_⟩
        · rw [hc] at hp
          cases hp
        · by_contra htried
          rw [if_neg htried, hp] at h
          cases h
      · intro safe
        cases hp : (smallReading P dec b).bind (smallPlaintext P) with
        | none => simp
        | some p => rw [if_pos (safe.small_tried p hc hp)]
    | some r =>
      obtain ⟨p, tail⟩ := r
      simp only [map_some, some_or]
      constructor
      · intro h
        refine ⟨fun q tail' hq => ?_, fun q hq _ => ?_⟩
        · rw [hc] at hq
          cases hq
          cases tail with
          | nil => exact .inl rfl
          | cons x xs => exact .inr h.symm
        · rw [hc] at hq
          cases hq
      · intro safe
        cases tail with
        | nil => rfl
        | cons x xs =>
          rcases safe.nothing_after p _ hc with hnil | hsmall
          · cases hnil
          · exact hsmall.symm

end

/-- The empty text as a GB1 small blob: `magic ‖ iv ‖ tag`. -/
def emptyBlob : Bytes :=
  magicGB1 ++ sampleIV.bytes ++ samplePrimitives.gcmSeal sampleKey sampleIV.bytes []

/-- A GB3 header that announces no chunk, and one byte after it. -/
def trailingBlob : Bytes :=
  encodeGB3Header 0 gb3CompressNone defaultChunkSize 0 ++ [0]

/-- The blob of the empty text is safe to stream. -/
theorem decryptStreamToFile_agrees_emptyBlob :
    emptyBlob.length ≤ maxBlobSize ∧
      ∀ w, (decryptStreamToFile samplePrimitives (newDecryptor sampleKey 0) emptyBlob []).written =
          some w ↔
        bufferedOutcome samplePrimitives (newDecryptor sampleKey 0) emptyBlob = some w := by
  have hlen : emptyBlob.length ≤ maxBlobSize := by decide
  refine ⟨hlen, (decryptStreamToFile_agrees_iff _ _ hlen).mpr fun _ => ⟨?_, ?_⟩⟩
  · intro p tail h
    have hnone : chunkedReading samplePrimitives (newDecryptor sampleKey 0) emptyBlob = none := by
      decide
    rw [hnone] at h
    cases h
  · intro _ _ _
    exact .inl (by decide)

/-- The buffered decoder rejects the byte after the header, the stream does not
see it. -/
theorem decryptStreamToFile_disagrees_trailingBlob :
    decryptStreamToFile samplePrimitives (newDecryptor sampleKey 0) trailingBlob [] =
        ⟨[], [0], none⟩ ∧
      decrypt samplePrimitives (newDecryptor sampleKey 0) trailingBlob =
        .error (.trailingData .gb3 1) ∧
      ¬ ∀ w, (decryptStreamToFile samplePrimitives (newDecryptor sampleKey 0)
          trailingBlob []).written = some w ↔
        bufferedOutcome samplePrimitives (newDecryptor sampleKey 0) trailingBlob = some w := by
  have hstream : decryptStreamToFile samplePrimitives (newDecryptor sampleKey 0) trailingBlob [] =
      ⟨[], [0], none⟩ := by decide
  have hbuffered : decrypt samplePrimitives (newDecryptor sampleKey 0) trailingBlob =
      .error (.trailingData .gb3 1) := by rfl
  refine ⟨hstream, hbuffered, fun h => ?_⟩
  have hw := (h []).mp (by rw [hstream]; rfl)
  rw [bufferedOutcome, hbuffered] at hw
  cases hw

end GbfCore
