import GbfCore.Blob.Decrypt

/-!
# The streaming decoder (stream.go)

`decryptStreamToFile` reads a blob from a reader and writes the plaintext of
each chunk as soon as it is authenticated. A reader is the bytes it still has to
deliver and a writer the bytes written to it; `io.ReadFull` of `n` bytes takes
`n` of them or fails when fewer are left. The writer itself does not fail.

`decryptStreamToFile_written` says which blobs the decoder gets through and
what it writes, in terms of the two readings of a blob: the chunked reading
whatever follows it, and the small reading of a GB1 blob that either does not
start with a chunk count or ends within its first chunk, which does not open.
-/

namespace GbfCore

open List Function Option

/-- A streaming decoder's effect: what was written, what was left unread, and
the error it returned. -/
structure Streamed where
  dst : Bytes
  src : Bytes
  err : Option BlobError
deriving DecidableEq

/-- The output and the unread rest of a decoder that returned no error. -/
def Streamed.finished (r : Streamed) : Option (Bytes × Bytes) :=
  match r.err with
  | none => some (r.dst, r.src)
  | some _ => none

@[simp] theorem Streamed.finished_ok (dst src : Bytes) :
    Streamed.finished ⟨dst, src, none⟩ = some (dst, src) := rfl

@[simp] theorem Streamed.finished_err (dst src : Bytes) (e : BlobError) :
    Streamed.finished ⟨dst, src, some e⟩ = none := rfl

section
variable (P : Primitives) (dec : Decryptor)

/-- What `writeSmallPlaintext` writes: a plaintext that looks like a zstd frame
is decompressed first. -/
def smallPlaintext (plaintext : Bytes) : Option Bytes :=
  if isCompressed plaintext then P.zstdDecompress maxDecompressedSize plaintext
  else some plaintext

/-- `writeSmallPlaintext`, with the error a failing decompression is reported as. -/
def writeSmallPlaintext (e : BlobError) (src dst plaintext : Bytes) : Streamed :=
  match smallPlaintext P plaintext with
  | none => ⟨dst, src, some e⟩
  | some plaintext => ⟨dst ++ plaintext, src, none⟩

/-- `readBoundedSmall`: the rest of the stream after `initialData`, within
`MaxBlobSize`. -/
def readBoundedSmall (initialData src : Bytes) : Except BlobError Bytes × Bytes :=
  let limit := maxBlobSize + 1 - initialData.length
  let all := initialData ++ src.take limit
  if maxBlobSize < all.length then (.error .exceedsMaxBlobSize, src.drop limit)
  else (.ok all, src.drop limit)

/-- `decryptSmallStream` and `decryptSmallStreamFromIV`, which have one body. -/
def decryptSmallStream (initialData src dst : Bytes) : Streamed :=
  match readBoundedSmall initialData src with
  | (.error e, src) => ⟨dst, src, some e⟩
  | (.ok all, src) =>
    match decryptSmall P dec all with
    | .error e => ⟨dst, src, some e⟩
    | .ok plaintext => writeSmallPlaintext P .decompress src dst plaintext

/-- The GB1 chunk loop of `decryptStreamToFile`. When chunk 0 does not open and
the stream ended within it, what was read is tried as a small blob. -/
def decryptStreamLoop (countBuf : Bytes) : (n i : Nat) → (src dst : Bytes) → Streamed
  | 0, _, src, dst => ⟨dst, src, none⟩
  | n + 1, i, src, dst =>
    if src.length < ivSize then ⟨dst, [], some (.readIV i)⟩
    else
      let iv := src.take ivSize
      let src := src.drop ivSize
      let encrypted := src.take (dec.chunkSize + tagSize)
      let rest := src.drop (dec.chunkSize + tagSize)
      match P.gcmOpen dec.key iv encrypted with
      | some decrypted => decryptStreamLoop countBuf n (i + 1) rest (dst ++ decrypted)
      | none =>
        if i = 0 ∧ src.length < dec.chunkSize + tagSize then
          match decryptSmall P dec (countBuf ++ iv ++ encrypted) with
          | .ok plaintext => writeSmallPlaintext P .writeSmallBlob rest dst plaintext
          | .error _ => ⟨dst, rest, some (.decryptChunk .gb1 i)⟩
        else ⟨dst, rest, some (.decryptChunk .gb1 i)⟩

/-- The chunk loop that `decryptGB2StreamToFile` and `decryptGB3StreamToFile`
share, messages included. -/
def decryptStoredStreamLoop (r : FrameRules) : (n i : Nat) → (src dst : Bytes) → Streamed
  | 0, _, src, dst => ⟨dst, src, none⟩
  | n + 1, i, src, dst =>
    if src.length < chunkCountSize + flagsSize then ⟨dst, [], some (.readChunkHeader i)⟩
    else
      let storedSize := beDecode (src.take chunkCountSize)
      let compressed := r.isCompressedFlag (src.getD chunkCountSize 0)
      let src := src.drop (chunkCountSize + flagsSize)
      if r.maxStored < storedSize then
        ⟨dst, src, some (.storedSize .gb2 i storedSize r.maxStored)⟩
      else if src.length < ivSize then ⟨dst, [], some (.readIV i)⟩
      else
        let iv := src.take ivSize
        let src := src.drop ivSize
        if src.length < storedSize then ⟨dst, [], some (.readChunk i)⟩
        else
          match P.gcmOpen dec.key iv (src.take storedSize) with
          | none => ⟨dst, src.drop storedSize, some (.decryptChunk .gb2 i)⟩
          | some decrypted =>
            if compressed then
              match P.zstdDecompress maxDecompressedSize decrypted with
              | none => ⟨dst, src.drop storedSize, some (.decompressChunk .gb2 i)⟩
              | some decompressed =>
                decryptStoredStreamLoop r n (i + 1) (src.drop storedSize) (dst ++ decompressed)
            else decryptStoredStreamLoop r n (i + 1) (src.drop storedSize) (dst ++ decrypted)

/-- `decryptGB2StreamToFile`, on the stream after the magic. -/
def decryptGB2StreamToFile (src dst : Bytes) : Streamed :=
  if src.length < chunkCountSize then ⟨dst, [], some .readChunkCount⟩
  else
    let chunkCount := beDecode (src.take chunkCountSize)
    let src := src.drop chunkCountSize
    if chunkCount = 0 ∨ maxChunkCount ≤ chunkCount then
      ⟨dst, src, some (.streamChunkCount chunkCount)⟩
    else if validKey dec.key = false then ⟨dst, src, some (.aesCipher dec.key.length)⟩
    else decryptStoredStreamLoop P dec gb2Rules chunkCount 0 src dst

/-- `decryptGB3StreamToFile`, on the stream after the magic. -/
def decryptGB3StreamToFile (src dst : Bytes) : Streamed :=
  if src.length < gb3HeaderSize - magicSize then ⟨dst, [], some .readGB3Header⟩
  else
    let full := magicGB3 ++ src.take (gb3HeaderSize - magicSize)
    let src := src.drop (gb3HeaderSize - magicSize)
    match parseGB3Header full with
    | .error e => ⟨dst, src, some e⟩
    | .ok hdr =>
      if validKey dec.key = false then ⟨dst, src, some (.aesCipher dec.key.length)⟩
      else decryptStoredStreamLoop P dec (gb3Rules hdr.chunkSize.toNat) hdr.chunkCount.toNat 0
        src dst

/-- The GB1 branch of `decryptStreamToFile`, on the stream after the magic. A
short read of the count leaves zeros in the rest of its buffer. -/
def decryptGB1StreamToFile (src dst : Bytes) : Streamed :=
  if src.length < chunkCountSize then
    decryptSmallStream P dec (src ++ List.replicate (chunkCountSize - src.length) 0) [] dst
  else
    let countBuf := src.take chunkCountSize
    let src := src.drop chunkCountSize
    if isChunkCount countBuf = false then
      if src.length < ivSize - chunkCountSize then ⟨dst, [], some .readSmallIV⟩
      else
        let ivData := countBuf ++ src.take (ivSize - chunkCountSize)
        decryptSmallStream P dec ivData (src.drop (ivSize - chunkCountSize)) dst
    else if validKey dec.key = false then ⟨dst, src, some (.aesCipher dec.key.length)⟩
    else decryptStreamLoop P dec countBuf (beDecode countBuf) 0 src dst

/-- `decryptStreamToFile`. -/
def decryptStreamToFile (src dst : Bytes) : Streamed :=
  if src.length < magicSize then ⟨dst, [], some .readMagic⟩
  else
    let magic := src.take magicSize
    let src := src.drop magicSize
    if magic = magicGB3 then decryptGB3StreamToFile P dec src dst
    else if magic = magicGB2 then decryptGB2StreamToFile P dec src dst
    else if magic = magicGB1 then decryptGB1StreamToFile P dec src dst
    else ⟨dst, src, some (.invalidMagic magic)⟩

/-! ## What the decoder gets through -/

theorem decryptStoredStreamLoop_frameLoop (r : FrameRules) :
    FrameLoop (cutStored r) (Frame.decode P dec.key)
      fun n i src dst => (decryptStoredStreamLoop P dec r n i src dst).finished where
  run_zero _ _ _ := rfl
  run_succ n i src dst := by
    simp only [decryptStoredStreamLoop, cutStored]
    -- as in the buffered loop, the guards are those of `cutStored`
    split
    · rfl
    split
    · rfl
    split
    · rfl
    split
    · rfl
    simp only [bind_some, Frame.decode]
    cases P.gcmOpen dec.key _ _ with
    | none => rfl
    | some p =>
      cases r.isCompressedFlag (src.getD chunkCountSize 0) with
      | false => rfl
      | true => cases hz : P.zstdDecompress maxDecompressedSize p <;> simp [hz]

/-- After chunk 0 the GB1 loop has no second reading. -/
theorem decryptStreamLoop_frameLoop (countBuf : Bytes) :
    FrameLoop (cutFixed dec.chunkSize) (Frame.decode P dec.key)
      fun n i src dst => (decryptStreamLoop P dec countBuf n (i + 1) src dst).finished where
  run_zero _ _ _ := rfl
  run_succ n i src dst := by
    simp only [decryptStreamLoop, cutFixed]
    split
    · rfl
    simp only [bind_some, Frame.decode]
    cases P.gcmOpen dec.key _ _ <;> simp

/-- What a finished decoder has written. -/
def Streamed.written (r : Streamed) : Option Bytes :=
  r.finished.map Prod.fst

theorem writeSmallPlaintext_written (e : BlobError) (src dst plaintext : Bytes) :
    (writeSmallPlaintext P e src dst plaintext).written =
      (smallPlaintext P plaintext).map (dst ++ ·) := by
  rw [writeSmallPlaintext]
  cases smallPlaintext P plaintext <;> rfl

theorem decryptSmallStream_written {initialData src : Bytes}
    (h : (initialData ++ src).length ≤ maxBlobSize) (dst : Bytes) :
    (decryptSmallStream P dec initialData src dst).written =
      ((decryptSmall P dec (initialData ++ src)).toOption.bind (smallPlaintext P)).map
        (dst ++ ·) := by
  have htake : src.take (maxBlobSize + 1 - initialData.length) = src := by
    apply take_of_length_le
    rw [length_append] at h
    omega
  simp only [decryptSmallStream, readBoundedSmall, htake, Nat.not_lt.mpr h, if_false]
  cases decryptSmall P dec (initialData ++ src) with
  | error e => rfl
  | ok p => exact writeSmallPlaintext_written P _ _ _ p

theorem decryptSmallStream_large {initialData src : Bytes} (hinit : initialData.length ≤ maxBlobSize)
    (h : maxBlobSize < (initialData ++ src).length) (dst : Bytes) :
    (decryptSmallStream P dec initialData src dst).err = some .exceedsMaxBlobSize := by
  have hall : maxBlobSize <
      (initialData ++ src.take (maxBlobSize + 1 - initialData.length)).length := by
    rw [length_append] at h ⊢
    rw [length_take]
    omega
  rw [decryptSmallStream, readBoundedSmall, if_pos hall]

/-- The stream ends within chunk 0, and chunk 0 does not open. -/
def FirstChunkCut (src : Bytes) : Prop :=
  ivSize ≤ src.length ∧ (src.drop ivSize).length < dec.chunkSize + tagSize ∧
    P.gcmOpen dec.key (src.take ivSize) (src.drop ivSize) = none

instance (src : Bytes) : Decidable (FirstChunkCut P dec src) :=
  inferInstanceAs (Decidable (_ ∧ _ ∧ _))

/-- The GB1 loop from chunk 0: the announced chunks, or the small reading when
the stream ends within chunk 0 and chunk 0 does not open. -/
theorem decryptStreamLoop_written (countBuf src dst : Bytes) (n : Nat) :
    (decryptStreamLoop P dec countBuf (n + 1) 0 src dst).written =
      (((readFrames (cutFixed dec.chunkSize) (Frame.decode P dec.key) (n + 1) src).map
          Prod.fst).or
        (if FirstChunkCut P dec src then
          (decryptSmall P dec (countBuf ++ src)).toOption.bind (smallPlaintext P)
        else none)).map (dst ++ ·) := by
  rw [readFrames_succ]
  simp only [decryptStreamLoop, cutFixed]
  by_cases hiv : src.length < ivSize
  · simp [hiv, FirstChunkCut, Nat.not_le.mpr hiv, Streamed.written]
  have hle : ivSize ≤ src.length := Nat.not_lt.mp hiv
  simp only [hiv, if_false, bind_some, Frame.decode, true_and]
  cases hopen : P.gcmOpen dec.key (src.take ivSize)
      ((src.drop ivSize).take (dec.chunkSize + tagSize)) with
  | some p =>
    -- chunk 0 opens, so it is too late for the small reading
    have hcut : ¬ FirstChunkCut P dec src := by
      rintro ⟨-, hlt, hnone⟩
      rw [take_of_length_le (Nat.le_of_lt hlt), hnone] at hopen
      cases hopen
    have hrest := (decryptStreamLoop_frameLoop P dec countBuf).run_eq n 0
      ((src.drop ivSize).drop (dec.chunkSize + tagSize)) (dst ++ p)
    simp only [Streamed.written, Nat.zero_add] at hrest ⊢
    rw [hrest, if_neg hcut]
    cases readFrames (cutFixed dec.chunkSize) (Frame.decode P dec.key) n
      ((src.drop ivSize).drop (dec.chunkSize + tagSize)) <;> simp
  | none =>
    simp only [bind_none]
    by_cases hlt : (src.drop ivSize).length < dec.chunkSize + tagSize
    · rw [take_of_length_le (Nat.le_of_lt hlt)] at hopen ⊢
      rw [if_pos hlt, if_pos ⟨hle, hlt, hopen⟩, append_assoc, take_append_drop]
      cases decryptSmall P dec (countBuf ++ src) with
      | error e => rfl
      | ok q => exact writeSmallPlaintext_written P _ _ _ q
    · have hcut : ¬ FirstChunkCut P dec src := fun h => hlt h.2.1
      rw [if_neg hlt, if_neg hcut]
      rfl

/-- The stream gets to the small reading of a GB1 blob. -/
def SmallTried (b : Bytes) : Prop :=
  isChunkCount ((b.drop magicSize).take chunkCountSize) = false ∨
    FirstChunkCut P dec ((b.drop magicSize).drop chunkCountSize)

instance (b : Bytes) : Decidable (SmallTried P dec b) :=
  inferInstanceAs (Decidable (_ ∨ _))

/-- What the stream writes for a blob with these readings. -/
def streamReading (b : Bytes) : Option Bytes :=
  ((chunkedReading P dec b).map Prod.fst).or
    (if SmallTried P dec b then (smallReading P dec b).bind (smallPlaintext P) else none)

theorem decryptGB2StreamToFile_written (src dst : Bytes) :
    (decryptGB2StreamToFile P dec src dst).written =
      if validKey dec.key = true then
        (countedFrames P dec (cutStored gb2Rules) src).map fun r => dst ++ r.1
      else none := by
  rw [decryptGB2StreamToFile, countedFrames]
  by_cases hlen : src.length < chunkCountSize
  · simp [hlen, isChunkCount_short hlen, Streamed.written]
  have hcount := isChunkCount_take (Nat.not_lt.mp hlen)
  cases hc : isChunkCount (src.take chunkCountSize) with
  | false => simp [hlen, hcount.mp hc, Streamed.written]
  | true =>
    have hbad := mt hcount.mpr (ne_false_of_eq_true hc)
    cases hk : validKey dec.key with
    | false => simp [hlen, hbad, Streamed.written]
    | true =>
      simp only [hlen, hbad, if_false, Bool.true_eq_false, if_true, Streamed.written,
        (decryptStoredStreamLoop_frameLoop P dec gb2Rules).run_eq, Option.map_map,
        comp_def]

theorem decryptGB3StreamToFile_written (src dst : Bytes) :
    (decryptGB3StreamToFile P dec src dst).written =
      if validKey dec.key = true then
        (parseGB3Header (magicGB3 ++ src)).toOption.bind fun h =>
          (readFrames (cutStored (gb3Rules h.chunkSize.toNat)) (Frame.decode P dec.key)
            h.chunkCount.toNat ((magicGB3 ++ src).drop gb3HeaderSize)).map fun r => dst ++ r.1
      else none := by
  rw [decryptGB3StreamToFile]
  by_cases hlen : src.length < gb3HeaderSize - magicSize
  · have hshort : (magicGB3 ++ src).length < gb3HeaderSize := by
      rw [length_append]
      simp only [gb3HeaderSize, magicSize] at hlen ⊢
      change 4 + src.length < 24
      omega
    have hparse : parseGB3Header (magicGB3 ++ src) =
        .error (.gb3HeaderTooShort (magicGB3 ++ src).length) := by
      rw [parseGB3Header, if_pos hshort]
    simp [hlen, hparse, Streamed.written, Except.toOption]
  -- the header the stream rebuilds is the head of the blob
  have hfull : (magicGB3 ++ src.take (gb3HeaderSize - magicSize)).length = gb3HeaderSize := by
    rw [length_append, length_take, Nat.min_eq_left (Nat.not_lt.mp hlen)]
    rfl
  have hsplit : magicGB3 ++ src = (magicGB3 ++ src.take (gb3HeaderSize - magicSize)) ++
      src.drop (gb3HeaderSize - magicSize) := by
    rw [append_assoc, take_append_drop]
  have hparse := parseGB3Header_append hfull (src.drop (gb3HeaderSize - magicSize))
  have hdrop : (magicGB3 ++ src).drop gb3HeaderSize = src.drop (gb3HeaderSize - magicSize) := by
    rw [hsplit, drop_left' hfull]
  rw [← hsplit] at hparse
  rw [hparse, hdrop]
  simp only [hlen, if_false]
  cases hp : parseGB3Header (magicGB3 ++ src.take (gb3HeaderSize - magicSize)) with
  | error e => simp [Streamed.written, Except.toOption]
  | ok h =>
    cases hk : validKey dec.key with
    | false => simp [Streamed.written]
    | true =>
      have hopt : (Except.ok h : Except BlobError GB3Header).toOption = some h := rfl
      simp only [if_false, Bool.true_eq_false, if_true, Streamed.written, hopt, Option.bind_some,
        (decryptStoredStreamLoop_frameLoop P dec _).run_eq, Option.map_map, comp_def]

theorem decryptGB1StreamToFile_written {src : Bytes}
    (hsrc : isChunkCount (src.take chunkCountSize) = false → src.length ≤ maxBlobSize)
    (dst : Bytes) :
    (decryptGB1StreamToFile P dec src dst).written =
      (((if validKey dec.key = true then countedFrames P dec (cutFixed dec.chunkSize) src
        else none).map Prod.fst).or
        (if isChunkCount (src.take chunkCountSize) = false ∨
            FirstChunkCut P dec (src.drop chunkCountSize) then
          (decryptSmall P dec src).toOption.bind (smallPlaintext P)
        else none)).map (dst ++ ·) := by
  have hshort : ∀ data : Bytes, data.length < ivSize + tagSize →
      (decryptSmall P dec data).toOption = none := fun data h => by
    rw [decryptSmall_toOption, if_neg fun h' => Nat.not_le.mpr h h'.2]
  rw [decryptGB1StreamToFile]
  by_cases hlen : src.length < chunkCountSize
  · -- too short for a vector, padded or not
    have hpad : (src ++ List.replicate (chunkCountSize - src.length) 0 ++ []).length =
        chunkCountSize := by
      simp only [length_append, length_replicate, length_nil]
      omega
    rw [if_pos hlen, decryptSmallStream_written P dec (by rw [hpad]; decide),
      hshort _ (by rw [hpad]; decide), countedFrames, isChunkCount_short hlen,
      hshort src (Nat.lt_of_lt_of_le hlen (by decide))]
    simp
  rw [if_neg hlen, countedFrames]
  dsimp only
  cases hc : isChunkCount (src.take chunkCountSize) with
  | false =>
    simp only [if_true, Bool.false_eq_true, if_false, ite_self, true_or, map_none,
      none_or]
    by_cases hiv : (src.drop chunkCountSize).length < ivSize - chunkCountSize
    · have hsmall : src.length < ivSize + tagSize := by
        rw [length_drop] at hiv
        simp only [chunkCountSize, ivSize, tagSize] at hiv ⊢
        omega
      rw [if_pos hiv, hshort src hsmall]
      rfl
    · have hsrc' : src.take chunkCountSize ++
          (src.drop chunkCountSize).take (ivSize - chunkCountSize) ++
          (src.drop chunkCountSize).drop (ivSize - chunkCountSize) = src := by
        rw [append_assoc, take_append_drop, take_append_drop]
      rw [if_neg hiv, decryptSmallStream_written P dec (by rw [hsrc']; exact hsrc hc), hsrc']
  | true =>
    cases hk : validKey dec.key with
    | false =>
      simp [decryptSmall_toOption, hk, Streamed.written]
    | true =>
      obtain ⟨n, hn⟩ := Nat.exists_eq_add_one.mpr (pos_of_isChunkCount hc)
      simp only [Bool.true_eq_false, if_false, if_true, false_or, hn,
        decryptStreamLoop_written, take_append_drop]

/-- The one reader with a bound on its input is `readBoundedSmall`. -/
def FitsSmallReader (b : Bytes) : Prop :=
  b.take magicSize = magicGB1 → isChunkCount ((b.drop magicSize).take chunkCountSize) = false →
    b.length ≤ maxBlobSize

/-- **The stream writes its reading of the blob** and returns no error exactly
when there is one. -/
theorem decryptStreamToFile_written {b : Bytes} (hb : FitsSmallReader b) (dst : Bytes) :
    (decryptStreamToFile P dec b dst).written =
      if validKey dec.key = true then (streamReading P dec b).map (dst ++ ·) else none := by
  rw [decryptStreamToFile]
  by_cases hlen : b.length < magicSize
  · have h1 := take_magicSize_ne hlen (m := magicGB1) rfl
    have h2 := take_magicSize_ne hlen (m := magicGB2) rfl
    have h3 := take_magicSize_ne hlen (m := magicGB3) rfl
    simp [hlen, streamReading, chunkedReading_other P dec h1 h2 h3, smallReading_other P dec h1,
      Streamed.written]
  rw [if_neg hlen]
  by_cases h3 : b.take magicSize = magicGB3
  · have hsmall : smallReading P dec b = none :=
      smallReading_other P dec (by rw [h3]; decide)
    have hb3 : magicGB3 ++ b.drop magicSize = b := by
      rw [← h3, take_append_drop]
    simp only [h3, if_true, decryptGB3StreamToFile_written, streamReading,
      chunkedReading_gb3 P dec h3, hsmall, hb3]
    cases parseGB3Header b <;> simp [Except.toOption, comp_def]
  by_cases h2 : b.take magicSize = magicGB2
  · have hsmall : smallReading P dec b = none :=
      smallReading_other P dec (by rw [h2]; decide)
    simp only [h2, if_true, if_false, magicGB2_ne_magicGB3, decryptGB2StreamToFile_written,
      streamReading, chunkedReading_gb2 P dec h2, hsmall]
    simp [comp_def]
  by_cases h1 : b.take magicSize = magicGB1
  · simp only [h1, if_true, if_false, magicGB1_ne_magicGB2, magicGB1_ne_magicGB3]
    have hdata : isChunkCount ((b.drop magicSize).take chunkCountSize) = false →
        (b.drop magicSize).length ≤ maxBlobSize := fun hc => by
      have := hb h1 hc
      rw [length_drop]
      omega
    rw [decryptGB1StreamToFile_written P dec hdata]
    cases hk : validKey dec.key with
    | false => simp [decryptSmall_toOption, hk]
    | true =>
      rw [if_pos rfl, streamReading, chunkedReading_gb1 P dec h1, smallReading_gb1 P dec h1 hk]
      rfl
  · simp [h1, h2, h3, streamReading, chunkedReading_other P dec h1 h2 h3,
      smallReading_other P dec h1, Streamed.written]

end

end GbfCore
