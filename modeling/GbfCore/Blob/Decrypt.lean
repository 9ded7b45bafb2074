import GbfCore.Blob.Wire

/-!
# The buffered decoder (crypto.go)

GB1 small and GB1 large share a magic. `Decrypt` guesses from the four bytes
after it and tries the other reading when the first one fails.

A blob has a chunked reading (`chunkedReading`: what the chunks its header
announces decode to, and the bytes after them) and, if it is GB1, a small one
(`smallReading`). `decrypt_toOption` says what `Decrypt` makes of them: the
chunked reading when it uses up the blob, else the small one.
-/

namespace GbfCore

open List Option Nat

variable {b data : Bytes}

/-- A decryptor: a key and a positive chunk size. -/
structure Decryptor where
  key : Bytes
  chunkSize : Nat
  chunkSize_pos : 0 < chunkSize

/-- `NewDecryptor`: a chunk size that is not positive becomes the default. -/
def newDecryptor (key : Bytes) (chunkSize : Int) : Decryptor :=
  if h : chunkSize ≤ 0 then ⟨key, defaultChunkSize, defaultChunkSize_pos⟩
  else ⟨key, chunkSize.toNat, chunkSize_toNat_pos h⟩

/-! ## The buffered decoder -/

section
variable (P : Primitives) (d : Decryptor)

/-- `decryptSmall`. -/
def decryptSmall (data : Bytes) : Except BlobError Bytes :=
  if data.length < ivSize + tagSize then .error (.smallTooShort data.length)
  else if validKey d.key = false then .error (.aesCipher d.key.length)
  else
    match P.gcmOpen d.key (data.take ivSize) (data.drop ivSize) with
    | none => .error .decrypt
    | some plaintext => .ok plaintext

/-- The chunk loop of `decryptLarge`: `n` chunks left, chunk `i` next. -/
def decryptLargeLoop : (n i : Nat) → (data plaintext : Bytes) → Except BlobError (Bytes × Bytes)
  | 0, _, data, plaintext => .ok (plaintext, data)
  | n + 1, i, data, plaintext =>
    if data.length < ivSize then .error (.missingIV .gb1 i)
    else
      let iv := data.take ivSize
      let data := data.drop ivSize
      let chunkEnd := min (d.chunkSize + tagSize) data.length
      match P.gcmOpen d.key iv (data.take chunkEnd) with
      | none => .error (.decryptChunk .gb1 i)
      | some decrypted =>
        decryptLargeLoop n (i + 1) (data.drop chunkEnd) (plaintext ++ decrypted)

/-- The blob must be used up by the chunk loop. -/
def rejectTrailing (l : Layout) : Except BlobError (Bytes × Bytes) → Except BlobError Bytes
  | .error e => .error e
  | .ok (plaintext, data) =>
    if data.length ≠ 0 then .error (.trailingData l data.length) else .ok plaintext

/-- `decryptLarge`, on the bytes after the magic. -/
def decryptLarge (data : Bytes) : Except BlobError Bytes :=
  let chunkCount := beDecode (data.take chunkCountSize)
  if chunkCount = 0 ∨ maxChunkCount ≤ chunkCount then
    .error (.invalidChunkCount .gb1 chunkCount)
  else if validKey d.key = false then .error (.aesCipher d.key.length)
  else rejectTrailing .gb1 (decryptLargeLoop P d chunkCount 0 (data.drop chunkCountSize) [])

/-- The chunk loop that `decryptLargeV2` and `decryptLargeV3` share. -/
def decryptStoredLoop (r : FrameRules) :
    (n i : Nat) → (data plaintext : Bytes) → Except BlobError (Bytes × Bytes)
  | 0, _, data, plaintext => .ok (plaintext, data)
  | n + 1, i, data, plaintext =>
    if data.length < chunkCountSize + flagsSize then .error (.missingSizeHeader r.layout i)
    else
      let storedSize := beDecode (data.take chunkCountSize)
      let compressed := r.isCompressedFlag (data.getD chunkCountSize 0)
      let data := data.drop (chunkCountSize + flagsSize)
      if r.maxStored < storedSize then .error (.storedSize r.layout i storedSize r.maxStored)
      else if data.length < ivSize then .error (.missingIV r.layout i)
      else
        let iv := data.take ivSize
        let data := data.drop ivSize
        if data.length < storedSize then .error (.missingCiphertext r.layout i)
        else
          match P.gcmOpen d.key iv (data.take storedSize) with
          | none => .error (.decryptChunk r.layout i)
          | some decrypted =>
            if compressed then
              match P.zstdDecompress maxDecompressedSize decrypted with
              | none => .error (.decompressChunk r.layout i)
              | some decompressed =>
                decryptStoredLoop r n (i + 1) (data.drop storedSize) (plaintext ++ decompressed)
            else decryptStoredLoop r n (i + 1) (data.drop storedSize) (plaintext ++ decrypted)

/-- `decryptLargeV2`, on the bytes after the magic. -/
def decryptLargeV2 (data : Bytes) : Except BlobError Bytes :=
  if data.length < chunkCountSize then .error (.gb2TooShort data.length)
  else
    let chunkCount := beDecode (data.take chunkCountSize)
    if chunkCount = 0 ∨ maxChunkCount ≤ chunkCount then
      .error (.invalidChunkCount .gb2 chunkCount)
    else if validKey d.key = false then .error (.aesCipher d.key.length)
    else rejectTrailing .gb2
      (decryptStoredLoop P d gb2Rules chunkCount 0 (data.drop chunkCountSize) [])

/-- `decryptLargeV3`, on the whole blob. -/
def decryptLargeV3 (full : Bytes) : Except BlobError Bytes :=
  match parseGB3Header full with
  | .error e => .error e
  | .ok hdr =>
    if validKey d.key = false then .error (.aesCipher d.key.length)
    else rejectTrailing .gb3 (decryptStoredLoop P d (gb3Rules hdr.chunkSize.toNat)
      hdr.chunkCount.toNat 0 (full.drop gb3HeaderSize) [])

/-- The GB1 branch of `Decrypt`: the likelier reading first, then the other. -/
def decryptGB1 (data : Bytes) : Except BlobError Bytes :=
  if chunkCountSize < data.length ∧ isChunkCount (data.take chunkCountSize) then
    match decryptLarge P d data with
    | .ok plaintext => .ok plaintext
    | .error e =>
      match decryptSmall P d data with
      | .ok plaintext => .ok plaintext
      | .error _ => .error e
  else
    match decryptSmall P d data with
    | .ok plaintext => .ok plaintext
    | .error e =>
      if chunkCountSize < data.length then
        match decryptLarge P d data with
        | .ok plaintext => .ok plaintext
        | .error _ => .error e
      else .error e

/-- `Decrypt`. -/
def decrypt (ciphertext : Bytes) : Except BlobError Bytes :=
  if ciphertext.length < magicSize then .error (.dataTooShort ciphertext.length)
  else
    let magic := ciphertext.take magicSize
    let data := ciphertext.drop magicSize
    if magic = magicGB3 then decryptLargeV3 P d ciphertext
    else if magic = magicGB2 then decryptLargeV2 P d data
    else if magic = magicGB1 then decryptGB1 P d data
    else .error (.invalidMagic magic)

/-! ## What the decoder accepts -/

/-- The chunked reading of a blob: the payload of the chunks its header
announces, and the bytes after the last of them. -/
def chunkedReading (b : Bytes) : Option (Bytes × Bytes) :=
  let data := b.drop magicSize
  let count := beDecode (data.take chunkCountSize)
  if b.take magicSize = magicGB3 then
    match parseGB3Header b with
    | .error _ => none
    | .ok h => readFrames (cutStored (gb3Rules h.chunkSize.toNat)) (Frame.decode P d.key)
        h.chunkCount.toNat (b.drop gb3HeaderSize)
  else if isChunkCount (data.take chunkCountSize) = false then none
  else if b.take magicSize = magicGB2 then
    readFrames (cutStored gb2Rules) (Frame.decode P d.key) count (data.drop chunkCountSize)
  else if b.take magicSize = magicGB1 then
    readFrames (cutFixed d.chunkSize) (Frame.decode P d.key) count (data.drop chunkCountSize)
  else none

/-- The small reading of a GB1 blob. -/
def smallReading (b : Bytes) : Option Bytes :=
  if b.take magicSize = magicGB1 ∧ magicSize + ivSize + tagSize ≤ b.length then
    P.gcmOpen d.key ((b.drop magicSize).take ivSize) ((b.drop magicSize).drop ivSize)
  else none

/-- The payload of a reading that leaves nothing over. -/
def usedUp : Option (Bytes × Bytes) → Option Bytes
  | some (p, []) => some p
  | _ => none

theorem usedUp_eq_some {r : Option (Bytes × Bytes)} {p : Bytes} :
    usedUp r = some p ↔ r = some (p, []) := by
  rcases r with _ | ⟨q, _ | ⟨x, tail⟩⟩ <;> simp [usedUp]

/-- The chunks behind a chunk count. -/
def countedFrames (cut : Bytes → Option (Frame × Bytes)) (data : Bytes) : Option (Bytes × Bytes) :=
  if isChunkCount (data.take chunkCountSize) = true then
    readFrames cut (Frame.decode P d.key) (beDecode (data.take chunkCountSize))
      (data.drop chunkCountSize)
  else none

theorem chunkedReading_gb3 (h : b.take magicSize = magicGB3) :
    chunkedReading P d b = (parseGB3Header b).toOption.bind fun h =>
      readFrames (cutStored (gb3Rules h.chunkSize.toNat)) (Frame.decode P d.key)
        h.chunkCount.toNat (b.drop gb3HeaderSize) := by
  rw [chunkedReading, if_pos h]
  cases parseGB3Header b <;> rfl

theorem chunkedReading_gb2 (h : b.take magicSize = magicGB2) :
    chunkedReading P d b = countedFrames P d (cutStored gb2Rules) (b.drop magicSize) := by
  cases hc : isChunkCount ((b.drop magicSize).take chunkCountSize) <;>
    simp [chunkedReading, countedFrames, h, hc]

theorem chunkedReading_gb1 (h : b.take magicSize = magicGB1) :
    chunkedReading P d b = countedFrames P d (cutFixed d.chunkSize) (b.drop magicSize) := by
  cases hc : isChunkCount ((b.drop magicSize).take chunkCountSize) <;>
    simp [chunkedReading, countedFrames, h, hc]

theorem chunkedReading_other (h1 : b.take magicSize ≠ magicGB1) (h2 : b.take magicSize ≠ magicGB2)
    (h3 : b.take magicSize ≠ magicGB3) :
    chunkedReading P d b = none := by
  simp [chunkedReading, h1, h2, h3]

theorem smallReading_other (h : b.take magicSize ≠ magicGB1) :
    smallReading P d b = none := by
  simp [smallReading, h]

theorem decryptLargeLoop_frameLoop :
    FrameLoop (cutFixed d.chunkSize) (Frame.decode P d.key)
      fun n i data acc => (decryptLargeLoop P d n i data acc).toOption where
  run_zero _ _ _ := rfl
  run_succ n i data acc := by
    by_cases hlen : data.length < ivSize
    · simp [decryptLargeLoop, cutFixed, hlen, Except.toOption]
    · have hmin : ∀ l : Bytes, l.take (min (d.chunkSize + tagSize) l.length) =
          l.take (d.chunkSize + tagSize) := fun l => by simp [take_eq_take_iff]
      have hdrop : ∀ l : Bytes, l.drop (min (d.chunkSize + tagSize) l.length) =
          l.drop (d.chunkSize + tagSize) := fun l => by
        rcases le_total (d.chunkSize + tagSize) l.length with h | h
        · rw [min_eq_left h]
        · rw [min_eq_right h, drop_length, drop_of_length_le h]
      simp only [decryptLargeLoop, cutFixed, hlen, if_false, hmin, hdrop, bind_some,
        Frame.decode]
      cases P.gcmOpen d.key (data.take ivSize) ((data.drop ivSize).take (d.chunkSize + tagSize)) <;>
        simp [Except.toOption]

theorem decryptStoredLoop_frameLoop (r : FrameRules) :
    FrameLoop (cutStored r) (Frame.decode P d.key)
      fun n i data acc => (decryptStoredLoop P d r n i data acc).toOption where
  run_zero _ _ _ := rfl
  run_succ n i data acc := by
    simp only [decryptStoredLoop, cutStored]
    -- the guards of the loop are those of `cutStored`, in the same order
    split
    · rfl
    split
    · rfl
    split
    · rfl
    split
    · rfl
    simp only [bind_some, Frame.decode]
    cases P.gcmOpen d.key _ _ with
    | none => rfl
    | some p =>
      cases r.isCompressedFlag (data.getD chunkCountSize 0) with
      | false => rfl
      | true => cases hz : P.zstdDecompress maxDecompressedSize p <;> simp [hz, Except.toOption]

/-- `decryptSmall` opens the blob as one ciphertext. -/
theorem decryptSmall_toOption (data : Bytes) :
    (decryptSmall P d data).toOption =
      if validKey d.key = true ∧ ivSize + tagSize ≤ data.length then
        P.gcmOpen d.key (data.take ivSize) (data.drop ivSize)
      else none := by
  rw [decryptSmall]
  by_cases hlen : data.length < ivSize + tagSize
  · simp [hlen, not_le.mpr hlen, Except.toOption]
  · cases hk : validKey d.key with
    | false => simp [hlen, Except.toOption]
    | true =>
      have hle : ivSize + tagSize ≤ data.length := not_lt.mp hlen
      simp only [hlen, hle, if_false, Bool.true_eq_false, and_self, if_true]
      cases P.gcmOpen d.key (data.take ivSize) (data.drop ivSize) <;> rfl

/-- For a usable key, the small reading is what `decryptSmall` returns. -/
theorem smallReading_gb1 (h : b.take magicSize = magicGB1) (hk : validKey d.key = true) :
    smallReading P d b = (decryptSmall P d (b.drop magicSize)).toOption := by
  have hlen : magicSize + ivSize + tagSize ≤ b.length ↔
      ivSize + tagSize ≤ (b.drop magicSize).length := by
    rw [length_drop]
    simp only [magicSize, ivSize, tagSize]
    omega
  simp only [smallReading, h, hlen, true_and, decryptSmall_toOption, hk]

/-- A chunk loop followed by the check for trailing data. -/
theorem rejectTrailing_toOption (l : Layout) (r : Except BlobError (Bytes × Bytes)) :
    (rejectTrailing l r).toOption = usedUp r.toOption := by
  rcases r with e | ⟨p, _ | ⟨x, tail⟩⟩ <;> rfl

theorem isChunkCount_short (h : data.length < chunkCountSize) :
    isChunkCount (data.take chunkCountSize) = false := by
  have hlen : (data.take chunkCountSize).length < chunkCountSize := by
    rw [length_take]
    exact lt_of_le_of_lt (min_le_right _ _) h
  rw [isChunkCount, if_pos hlen]

/-- A chunk count field is valid exactly when `isChunkCount` says so. -/
theorem isChunkCount_take (h : chunkCountSize ≤ data.length) :
    isChunkCount (data.take chunkCountSize) = false ↔
      beDecode (data.take chunkCountSize) = 0 ∨
        maxChunkCount ≤ beDecode (data.take chunkCountSize) := by
  have hlen : ¬ (data.take chunkCountSize).length < chunkCountSize := by
    rw [length_take, min_eq_left h]
    exact lt_irrefl _
  simp only [isChunkCount, hlen, if_false, take_take, min_self, Bool.and_eq_false_iff,
    decide_eq_false_iff_not, not_lt, le_zero]

theorem pos_of_isChunkCount (h : isChunkCount (data.take chunkCountSize) = true) :
    0 < beDecode (data.take chunkCountSize) := by
  apply pos_of_ne_zero
  intro h0
  by_cases hshort : data.length < chunkCountSize
  · rw [isChunkCount_short hshort] at h
    cases h
  · rw [(isChunkCount_take (not_lt.mp hshort)).mpr (.inl h0)] at h
    cases h

/-- The chunked GB1 layout without its magic. -/
theorem decryptLarge_toOption (data : Bytes) :
    (decryptLarge P d data).toOption =
      if validKey d.key = true then usedUp (countedFrames P d (cutFixed d.chunkSize) data)
      else none := by
  rw [decryptLarge, countedFrames]
  by_cases hlen : data.length < chunkCountSize
  · -- `Decrypt` does not call it here; there is no chunk to read
    have hnil : data.drop chunkCountSize = [] := drop_of_length_le (le_of_lt hlen)
    simp only [isChunkCount_short hlen, Bool.false_eq_true, if_false, hnil, usedUp, ite_self]
    split
    · rfl
    split
    · rfl
    obtain ⟨n, hn⟩ := exists_eq_succ_of_ne_zero
      (show beDecode (data.take chunkCountSize) ≠ 0 by omega)
    rw [hn]
    rfl
  have hcount := isChunkCount_take (not_lt.mp hlen)
  cases hc : isChunkCount (data.take chunkCountSize) with
  | false => simp [hcount.mp hc, Except.toOption, usedUp]
  | true =>
    have hbad := mt hcount.mpr (ne_false_of_eq_true hc)
    cases hk : validKey d.key with
    | false => simp [hbad, Except.toOption]
    | true =>
      simp only [hbad, if_false, Bool.true_eq_false, if_true, rejectTrailing_toOption,
        (decryptLargeLoop_frameLoop P d).run_eq, nil_append, Option.map_id_fun', id_eq]

/-- The GB2 layout without its magic. -/
theorem decryptLargeV2_toOption (data : Bytes) :
    (decryptLargeV2 P d data).toOption =
      if validKey d.key = true then usedUp (countedFrames P d (cutStored gb2Rules) data)
      else none := by
  rw [decryptLargeV2, countedFrames]
  by_cases hlen : data.length < chunkCountSize
  · simp [hlen, isChunkCount_short hlen, Except.toOption, usedUp]
  have hcount := isChunkCount_take (not_lt.mp hlen)
  cases hc : isChunkCount (data.take chunkCountSize) with
  | false => simp [hlen, hcount.mp hc, Except.toOption, usedUp]
  | true =>
    have hbad := mt hcount.mpr (ne_false_of_eq_true hc)
    cases hk : validKey d.key with
    | false => simp [hlen, hbad, Except.toOption]
    | true =>
      simp only [hlen, hbad, if_false, Bool.true_eq_false, if_true,
        rejectTrailing_toOption, (decryptStoredLoop_frameLoop P d gb2Rules).run_eq,
        nil_append, Option.map_id_fun', id_eq]

/-- The GB3 layout. -/
theorem decryptLargeV3_toOption (full : Bytes) :
    (decryptLargeV3 P d full).toOption =
      if validKey d.key = true then
        (parseGB3Header full).toOption.bind fun h =>
          usedUp (readFrames (cutStored (gb3Rules h.chunkSize.toNat)) (Frame.decode P d.key)
            h.chunkCount.toNat (full.drop gb3HeaderSize))
      else none := by
  rw [decryptLargeV3]
  cases hp : parseGB3Header full with
  | error e => simp [Except.toOption]
  | ok h =>
    have hopt : (Except.ok h : Except BlobError GB3Header).toOption = some h := rfl
    cases hk : validKey d.key with
    | false => simp [Except.toOption]
    | true =>
      simp only [Bool.true_eq_false, if_false, if_true, rejectTrailing_toOption, hopt,
        (decryptStoredLoop_frameLoop P d _).run_eq, nil_append, Option.map_id_fun', id_eq,
        bind_some]

theorem take_magicSize_ne {m : Bytes} (h : b.length < magicSize) (hm : m.length = magicSize) :
    b.take magicSize ≠ m := by
  intro heq
  rw [← heq, length_take] at hm
  omega

/-- A chunk count with nothing after it announces chunks that are not there. -/
theorem countedFrames_short (hlen : data.length ≤ chunkCountSize) :
    countedFrames P d (cutFixed d.chunkSize) data = none := by
  rw [countedFrames]
  split
  · next hc =>
    obtain ⟨n, hn⟩ := exists_eq_add_one.mpr (pos_of_isChunkCount hc)
    rw [drop_of_length_le hlen, hn]
    rfl
  · rfl

/-- The GB1 branch, on the bytes after the magic. -/
theorem decryptGB1_toOption (data : Bytes) :
    (decryptGB1 P d data).toOption =
      ((if chunkCountSize < data.length then (decryptLarge P d data).toOption else none).or
        (decryptSmall P d data).toOption) := by
  rw [decryptGB1]
  by_cases hlen : chunkCountSize < data.length
  · cases hc : isChunkCount (data.take chunkCountSize) with
    | true =>
      simp only [hlen, and_self, if_true]
      cases decryptLarge P d data with
      | ok p => rfl
      | error e => cases decryptSmall P d data <;> rfl
    | false =>
      -- the chunked reading needs a chunk count, so trying it second changes nothing
      have hlarge : (decryptLarge P d data).toOption = none := by
        rw [decryptLarge_toOption P d, countedFrames, hc]
        exact ite_self _
      simp only [hlen, Bool.false_eq_true, and_false, if_false, if_true, hlarge]
      cases decryptSmall P d data with
      | ok p => rfl
      | error e =>
        cases hl : decryptLarge P d data with
        | ok p => simp [hl, Except.toOption] at hlarge
        | error e' => rfl
  · simp only [hlen, false_and, if_false]
    cases decryptSmall P d data <;> rfl

/-- **`Decrypt` takes the chunked reading when it uses up the blob, and the small
one otherwise.** -/
theorem decrypt_toOption (b : Bytes) :
    (decrypt P d b).toOption =
      if validKey d.key = true then (usedUp (chunkedReading P d b)).or (smallReading P d b)
      else none := by
  rw [decrypt]
  by_cases hlen : b.length < magicSize
  · have h1 := take_magicSize_ne hlen (m := magicGB1) rfl
    have h2 := take_magicSize_ne hlen (m := magicGB2) rfl
    have h3 := take_magicSize_ne hlen (m := magicGB3) rfl
    simp [hlen, chunkedReading_other P d h1 h2 h3, smallReading_other P d h1, usedUp,
      Except.toOption]
  rw [if_neg hlen]
  by_cases h3 : b.take magicSize = magicGB3
  · have hsmall : smallReading P d b = none :=
      smallReading_other P d (by rw [h3]; decide)
    simp only [h3, if_true, decryptLargeV3_toOption, hsmall, chunkedReading_gb3 P d h3,
      or_none]
    cases parseGB3Header b <;> rfl
  by_cases h2 : b.take magicSize = magicGB2
  · have hsmall : smallReading P d b = none :=
      smallReading_other P d (by rw [h2]; decide)
    simp only [h2, if_true, if_false, decryptLargeV2_toOption, hsmall, chunkedReading_gb2 P d h2,
      or_none, magicGB2_ne_magicGB3]
  by_cases h1 : b.take magicSize = magicGB1
  · simp only [h1, if_true, if_false, decryptGB1_toOption, magicGB1_ne_magicGB2,
      magicGB1_ne_magicGB3, chunkedReading_gb1 P d h1]
    cases hk : validKey d.key with
    | false =>
      rw [decryptSmall_toOption, hk]
      split
      · rw [decryptLarge_toOption P d, hk]
        simp
      · simp
    | true =>
      rw [if_pos rfl, smallReading_gb1 P d h1 hk]
      congr 1
      by_cases hlen : chunkCountSize < (b.drop magicSize).length
      · rw [if_pos hlen, decryptLarge_toOption P d, if_pos hk]
      · rw [if_neg hlen, countedFrames_short P d (not_lt.mp hlen)]
        rfl
  · simp [h1, h2, h3, chunkedReading_other P d h1 h2 h3, smallReading_other P d h1, usedUp,
      Except.toOption]

end

end GbfCore
