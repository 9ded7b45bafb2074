import GbfCore.Blob.RoundTrip

/-!
# Blobs that are cut off or extended

Each chunk of a blob is authenticated on its own, and the header is not. What keeps a blob
from being shortened or extended is that the announced chunks have to be there, one after
another, and that the last one ends with the blob. `blob_not_resized` takes the layouts one by
one, for a cipher that opens nothing but what was sealed for the blob.
-/

namespace GbfCore

open List Option Nat

variable {b x : Bytes} {f : Frame} {n : Nat} {r : FrameRules}

/-! ## A cipher that opens only what was sealed -/

/-- An ideal cipher under a key: it opens nothing but these pairs of a vector and a ciphertext,
and their vectors are distinct. A sealed text is a tag longer. -/
structure Primitives.OpensOnly (P : Primitives) (key : Bytes) (pairs : List (Bytes × Bytes)) :
    Prop where
  opens : ∀ iv ct q, P.gcmOpen key iv ct = some q → (iv, ct) ∈ pairs
  distinct : (pairs.map Prod.fst).Nodup
  length_seal : ∀ iv p : Bytes, iv.length = ivSize →
    (P.gcmSeal key iv p).length = p.length + tagSize

/-- The pair that was sealed for a frame. -/
def Frame.sealedPair (f : Frame) : Bytes × Bytes := (f.iv, f.ciphertext)

section
variable {P : Primitives} {key : Bytes} {pairs : List (Bytes × Bytes)}

/-- A vector opens its own ciphertext only. -/
theorem Primitives.OpensOnly.open_ne (h : P.OpensOnly key pairs) {iv ct ct' : Bytes}
    (hmem : (iv, ct) ∈ pairs) (hne : ct' ≠ ct) : P.gcmOpen key iv ct' = none := by
  cases hopen : P.gcmOpen key iv ct' with
  | none => rfl
  | some q =>
    have heq := inj_on_of_nodup_map h.distinct (h.opens iv ct' q hopen) hmem rfl
    exact absurd (Prod.mk.inj heq).2 hne

/-- A vector that was not used opens nothing. -/
theorem Primitives.OpensOnly.open_unused (h : P.OpensOnly key pairs) {iv : Bytes}
    (hiv : iv ∉ pairs.map Prod.fst) (ct : Bytes) : P.gcmOpen key iv ct = none := by
  cases hopen : P.gcmOpen key iv ct with
  | none => rfl
  | some q => exact absurd (mem_map.mpr ⟨_, h.opens iv ct q hopen, rfl⟩) hiv

/-! ## Single frames -/

/-- A GB1 frame: what is cut off it is not what was sealed. -/
theorem unreadable_of_cutFixed (h : P.OpensOnly key pairs) {c : Nat} (hf : f.WF (c + tagSize))
    (hmem : f.sealedPair ∈ pairs) (hx : x <+: renderFixed f) (hne : x ≠ renderFixed f) :
    Unreadable (cutFixed c) (Frame.decode P key) x := by
  unfold Unreadable cutFixed
  split
  · rfl
  · rename_i hlen
    -- the vector is whole, so it is the ciphertext that is not
    have hiv : f.iv <+: x := by
      refine prefix_of_prefix_length_le (prefix_append _ _) hx ?_
      rw [hf.length_iv]
      exact not_lt.mp hlen
    obtain ⟨ct, rfl⟩ := hiv
    have hct : ct <+: f.ciphertext := (prefix_append_right_inj _).mp hx
    have hshort : ct.take (c + tagSize) = ct :=
      take_of_length_le (le_trans hct.length_le hf.length_le)
    have hcut : ct ≠ f.ciphertext := by
      rintro rfl
      exact hne rfl
    dsimp only
    rw [take_left' hf.length_iv, drop_left' hf.length_iv, hshort, bind_some,
      Frame.decode, h.open_ne hmem hcut]

/-- A GB1 frame ends after a full chunk, or with the blob. -/
theorem delimited_fixed (h : P.OpensOnly key pairs) {c : Nat} (hf : f.WF (c + tagSize))
    (hplain : f.compressed = false) (hmem : f.sealedPair ∈ pairs) :
    Delimited (cutFixed c) (Frame.decode P key) renderFixed f := by
  intro t
  by_cases hfits : t = [] ∨ f.ciphertext.length = c + tagSize
  · exact .inl (cutFixed_renderFixed hf hplain hfits)
  · right
    obtain ⟨ht, hfull⟩ := not_or.mp hfits
    have hlen : ¬ (renderFixed f ++ t).length < ivSize := by
      rw [renderFixed, length_append, length_append, hf.length_iv]
      omega
    -- a part of what follows is taken for the end of the ciphertext
    have hlonger : (f.ciphertext ++ t).take (c + tagSize) ≠ f.ciphertext := by
      intro heq
      have hlt := congrArg length heq
      have hpos := length_pos_of_ne_nil ht
      have hle := hf.length_le
      rw [length_take, length_append] at hlt
      omega
    unfold Unreadable cutFixed
    rw [if_neg hlen]
    dsimp only
    rw [bind_some, renderFixed, append_assoc,
      take_left' hf.length_iv, drop_left' hf.length_iv, Frame.decode,
      h.open_ne hmem hlonger]

/-- A frame that was read is there in full. -/
theorem length_of_cutStored {s : Frame × Bytes} (h : cutStored r x = some s) :
    chunkCountSize + flagsSize + ivSize + beDecode (x.take chunkCountSize) ≤ x.length := by
  unfold cutStored at h
  split at h
  · cases h
  dsimp only at h
  split at h
  · cases h
  split at h
  · cases h
  split at h
  · cases h
  · rename_i hflags _ hiv hstored
    simp only [length_drop] at hiv hstored
    omega

theorem length_renderStored (hiv : f.iv.length = ivSize) :
    (renderStored f).length = chunkCountSize + flagsSize + ivSize + f.ciphertext.length := by
  simp only [renderStored, length_append, length_beEncode, hiv, length_singleton,
    flagsSize]

/-- A GB2 or GB3 frame says how long it is. -/
theorem unreadable_of_cutStored (hiv : f.iv.length = ivSize) (hsize : f.ciphertext.length < 2 ^ 32)
    (hx : x <+: renderStored f) (hne : x ≠ renderStored f) (decode : Frame → Option Bytes) :
    Unreadable (cutStored r) decode x := by
  unfold Unreadable
  cases hcut : cutStored r x with
  | none => rfl
  | some s =>
    have hlen := length_of_cutStored hcut
    have htake : x.take chunkCountSize = beEncode chunkCountSize f.ciphertext.length := by
      have hcount : beEncode chunkCountSize f.ciphertext.length <+: x := by
        refine prefix_of_prefix_length_le ?_ hx ?_
        · exact ⟨_, by rw [renderStored, append_assoc, append_assoc]⟩
        · rw [length_beEncode]
          simp only [chunkCountSize, flagsSize, ivSize] at hlen ⊢
          omega
      obtain ⟨rest, rfl⟩ := hcount
      exact take_left' (length_beEncode _ _)
    rw [htake, beDecode_beEncode hsize, ← length_renderStored hiv] at hlen
    exact absurd (hx.eq_of_length_le hlen) hne

end

/-! ## Blobs -/

section
variable (P : Primitives) (dec : Decryptor)

/-- No reading of the bytes; the stream has nothing to read either. -/
structure NotRead (x : Bytes) : Prop where
  chunked : chunkedReading P dec x = none
  small : smallReading P dec x = none
  fits : FitsSmallReader x

/-- What is cut off a blob has no reading, and what extends it none that uses it up. -/
structure Resists (b : Bytes) : Prop where
  shorter : ∀ x, x <+: b → x ≠ b → NotRead P dec x
  longer : ∀ t, t ≠ [] → (∀ p, chunkedReading P dec (b ++ t) ≠ some (p, [])) ∧
    smallReading P dec (b ++ t) = none

variable {P dec}

theorem NotRead.decrypt (h : NotRead P dec x) (q : Bytes) :
    decrypt P dec x ≠ .ok q := by
  intro hok
  have hsome := toOption_eq_some.mpr hok
  rw [decrypt_toOption, h.chunked, h.small] at hsome
  split at hsome <;> cases hsome

theorem NotRead.decryptStreamToFile (h : NotRead P dec x) (dst : Bytes) :
    (decryptStreamToFile P dec x dst).err ≠ none := by
  have hwritten : (GbfCore.decryptStreamToFile P dec x dst).written = none := by
    rw [decryptStreamToFile_written P dec h.fits, streamReading, h.chunked, h.small]
    simp
  intro hok
  rw [Streamed.written, Streamed.finished, hok] at hwritten
  cases hwritten

theorem Resists.extended {t : Bytes} (h : Resists P dec b) (ht : t ≠ []) (q : Bytes) :
    decrypt P dec (b ++ t) ≠ .ok q := by
  intro hok
  obtain ⟨hchunked, hsmall⟩ := h.longer t ht
  have hsome := toOption_eq_some.mpr hok
  rw [decrypt_toOption, hsmall, or_none] at hsome
  split at hsome
  · exact hchunked q (usedUp_eq_some.mp hsome)
  · cases hsome

/-! ## Headers -/

theorem prefix_take (h : x <+: b) (hn : n ≤ x.length) :
    x.take n = b.take n := by
  obtain ⟨s, rfl⟩ := h
  exact (take_append_of_le_length hn).symm

/-- The magic of a part of a blob, if it has one. -/
theorem prefix_magic {m : Bytes} (hm : m.length = magicSize) (h : x <+: b)
    (hx : x.take magicSize = m) : b.take magicSize = m := by
  by_cases hlen : x.length < magicSize
  · exact absurd hx (take_magicSize_ne hlen hm)
  · rw [← prefix_take h (not_lt.mp hlen), hx]

theorem chunkedReading_short (h : x.length < magicSize + chunkCountSize) :
    chunkedReading P dec x = none := by
  have hcount : isChunkCount ((x.drop magicSize).take chunkCountSize) = false := by
    refine isChunkCount_short ?_
    rw [length_drop]
    simp only [magicSize, chunkCountSize] at h ⊢
    omega
  have hparse : parseGB3Header x = .error (.gb3HeaderTooShort x.length) := by
    rw [parseGB3Header, if_pos]
    exact lt_trans h (by decide)
  unfold chunkedReading
  dsimp only
  rw [hparse, hcount, if_pos rfl, ite_self]

theorem prefix_length_lt (h : x <+: b) (hne : x ≠ b) : x.length < b.length :=
  lt_of_le_of_ne h.length_le fun heq => hne (h.eq_of_length heq)

/-- A blob that is not GB1 is not read as a small one, whatever is cut off or appended. -/
theorem not_small (hlen : magicSize ≤ b.length) (hb : b.take magicSize ≠ magicGB1)
    (hx : x <+: b ∨ b <+: x) : x.take magicSize ≠ magicGB1 := by
  intro hmagic
  rcases hx with hx | hx
  · exact hb (prefix_magic rfl hx hmagic)
  · exact hb ((prefix_take hx hlen).trans hmagic)

/-- A blob of frames behind a header. -/
theorem resists_frames {hd : Bytes} {cut : Bytes → Option (Frame × Bytes)} (render : Frame → Bytes)
    {frame : Nat → Frame}
    (hread : (∀ y, chunkedReading P dec (hd ++ y) = none) ∨
      ∀ y, chunkedReading P dec (hd ++ y) = readFrames cut (Frame.decode P dec.key) n y)
    (hheader : ∀ x, x <+: hd → x ≠ hd → chunkedReading P dec x = none)
    (hsmall : ∀ x, x <+: hd ++ (range n).flatMap (fun i => render (frame i)) ∨
      hd ++ (range n).flatMap (fun i => render (frame i)) <+: x →
        smallReading P dec x = none)
    (hfits : ∀ x, x <+: hd ++ (range n).flatMap (fun i => render (frame i)) →
      FitsSmallReader x) (hcut : ∀ i < n, Delimited cut (Frame.decode P dec.key) render (frame i))
    (hshort : ∀ i < n, ∀ y, y <+: render (frame i) → y ≠ render (frame i) →
      Unreadable cut (Frame.decode P dec.key) y) :
    Resists P dec (hd ++ (range n).flatMap fun i => render (frame i)) := by
  refine ⟨fun x hx hne => ⟨?_, hsmall x (.inl hx), hfits x hx⟩, fun t ht =>
    ⟨fun p => ?_, hsmall _ (.inr (prefix_append _ _))⟩⟩
  · by_cases hwhole : hd <+: x
    · obtain ⟨y, rfl⟩ := hwhole
      have hy := (prefix_append_right_inj _).mp hx
      rcases hread with hnone | hsome
      · exact hnone y
      · rw [hsome]
        exact readFrames_shorter hcut hshort hy fun heq => hne (congrArg (hd ++ ·) heq)
    · refine hheader x ?_ ?_
      · exact ( prefix_or_prefix_of_prefix hx (prefix_append _ _)).resolve_right hwhole
      · rintro rfl
        exact hwhole (prefix_refl _)
  · rw [append_assoc]
    rcases hread with hnone | hsome
    · rw [hnone]
      nofun
    · rw [hsome]
      exact readFrames_longer ht hcut

end

/-! ## The layouts -/

section
variable {P : Primitives} {e : Encryptor} {rng : Rng} {p : Bytes} {pairs : List (Bytes × Bytes)}

/-- The pair that is sealed for a small blob. -/
def sealedSmall (P : Primitives) (e : Encryptor) (rng : Rng) (p : Bytes) : Bytes × Bytes :=
  ((newSmallBlobIV rng.smallIV).bytes, P.gcmSeal e.key (newSmallBlobIV rng.smallIV).bytes p)

/-- The frame of a piece of the plaintext. -/
def pieceFrame (P : Primitives) (e : Encryptor) (tryCompress : Bool) (rng : Rng) (p : Bytes)
    (i : Nat) : Frame :=
  storedFrame P e tryCompress (rng.chunkIV i) (pieceAt e.chunkSize p i)

/-- The pairs that are sealed for a chunked blob. -/
def sealedPieces (P : Primitives) (e : Encryptor) (tryCompress : Bool) (rng : Rng) (p : Bytes) :
    List (Bytes × Bytes) :=
  (range (pieceCount e.chunkSize p.length)).map fun i =>
    (pieceFrame P e tryCompress rng p i).sealedPair

theorem sealedPair_mem {tryCompress : Bool} {i : Nat} (hi : i < pieceCount e.chunkSize p.length) :
    (pieceFrame P e tryCompress rng p i).sealedPair ∈ sealedPieces P e tryCompress rng p :=
  mem_map.mpr ⟨i, mem_range.mpr hi, rfl⟩

theorem pieceFrame_wf (h : P.OpensOnly e.key pairs) (tryCompress : Bool) (i : Nat) :
    (pieceFrame P e tryCompress rng p i).WF (e.chunkSize + tagSize) where
  length_iv := (rng.chunkIV i).length_eq
  length_le := by
    have hpiece := length_pieceAt_le e.chunkSize p i
    have hstored := length_storedChunk_le (P := P) tryCompress (pieceAt e.chunkSize p i)
    rw [pieceFrame, storedFrame, h.length_seal _ _ (rng.chunkIV i).length_eq]
    omega

/-- The beginnings of two byte strings of which one is a part of the other. -/
theorem take_of_comparable (h : x <+: b ∨ b <+: x) (hx : n ≤ x.length) (hb : n ≤ b.length) :
    x.take n = b.take n := by
  rcases h with h | h
  · exact prefix_take h hx
  · exact (prefix_take h hb).symm

/-- A small blob is one sealed text behind its vector. -/
theorem resists_small (hc : e.chunkSize ≤ defaultChunkSize) (hp : p.length < e.chunkSize)
    (h : P.OpensOnly e.key [sealedSmall P e rng p]) :
    Resists P e.decryptor (magicGB1 ++ (sealedSmall P e rng p).1 ++ (sealedSmall P e rng p).2) := by
  have hiv : (sealedSmall P e rng p).1.length = ivSize := IV.length_eq _
  have hct : (sealedSmall P e rng p).2.length = p.length + tagSize :=
    h.length_seal _ _ (IV.length_eq _)
  have hcount : isChunkCount ((sealedSmall P e rng p).1.take chunkCountSize) = false :=
    newSmallBlobIV_not_chunkCount rng.smallIV
  generalize sealedSmall P e rng p = pair at h hiv hct hcount ⊢
  obtain ⟨iv, ct⟩ := pair
  dsimp only at hiv hct hcount ⊢
  have hlen : (magicGB1 ++ iv ++ ct).length = magicSize + ivSize + (p.length + tagSize) := by
    rw [length_append, length_append, hiv, hct]
    rfl
  have hvector : (magicGB1 ++ iv).length = magicSize + ivSize := by
    rw [length_append, hiv]
    rfl
  have hnone : ∀ x, x <+: magicGB1 ++ iv ++ ct ∨ magicGB1 ++ iv ++ ct <+: x →
      x ≠ magicGB1 ++ iv ++ ct →
        chunkedReading P e.decryptor x = none ∧ smallReading P e.decryptor x = none := by
    intro x hx hne
    constructor
    · by_cases hshort : x.length < magicSize + chunkCountSize
      · exact chunkedReading_short hshort
      · have hsame := take_of_comparable hx (not_lt.mp hshort)
          (by rw [hlen]; simp only [chunkCountSize, ivSize]; omega)
        have hmagic : x.take magicSize = magicGB1 := by
          have htake := congrArg (take magicSize) hsame
          rw [take_take, take_take] at htake
          exact htake
        have hfield : (x.drop magicSize).take chunkCountSize = iv.take chunkCountSize := by
          rw [take_drop, hsame, ← take_drop]
          show ((iv ++ ct).take chunkCountSize) = _
          exact take_append_of_le_length (by rw [hiv]; decide)
        rw [chunkedReading_gb1 P e.decryptor hmagic, countedFrames, hfield, hcount]
        rfl
    · unfold smallReading
      split
      · rename_i hx'
        have hsame := take_of_comparable hx (n := magicSize + ivSize) (by omega) (by omega)
        rw [← hvector, take_left] at hsame
        -- the vector is that of the blob, and the ciphertext is another one
        obtain ⟨ct', rfl⟩ : ∃ ct', x = magicGB1 ++ iv ++ ct' :=
          ⟨_, (take_append_drop _ x).symm.trans (congrArg (· ++ _) hsame)⟩
        have hother : ct' ≠ ct := fun heq => hne (congrArg (magicGB1 ++ iv ++ ·) heq)
        have hdrop : (magicGB1 ++ iv ++ ct').drop magicSize = iv ++ ct' := rfl
        rw [hdrop, take_left' hiv, drop_left' hiv]
        exact h.open_ne mem_cons_self hother
      · rfl
  refine ⟨fun x hx hne => ?_, fun t ht => ?_⟩
  · obtain ⟨hchunked, hsmall⟩ := hnone x (.inl hx) hne
    refine ⟨hchunked, hsmall, fun _ _ => le_trans hx.length_le ?_⟩
    rw [hlen]
    exact smallBlob_le_maxBlobSize (lt_of_lt_of_le hp hc)
  · obtain ⟨hchunked, hsmall⟩ := hnone _ (.inr (prefix_append _ t)) fun heq => ht
      (append_cancel_left (heq.trans (append_nil _).symm))
    refine ⟨fun q => ?_, hsmall⟩
    rw [hchunked]
    rintro ⟨⟩

/-- A chunked GB1 blob; its beginning, taken for a vector, opens nothing. -/
theorem resists_gb1 (h : P.OpensOnly e.key (sealedPieces P e false rng p))
    (hpos : 0 < pieceCount e.chunkSize p.length)
    (hcount : pieceCount e.chunkSize p.length < maxChunkCount)
    (hb : b = magicGB1 ++ beEncode chunkCountSize (pieceCount e.chunkSize p.length) ++
      (range (pieceCount e.chunkSize p.length)).flatMap fun i =>
        renderFixed (pieceFrame P e false rng p i))
    (hunused : (b.drop magicSize).take ivSize ∉ (sealedPieces P e false rng p).map Prod.fst) :
    Resists P e.decryptor b := by
  have hheader : (magicGB1 ++ beEncode chunkCountSize (pieceCount e.chunkSize p.length)).length =
      magicSize + chunkCountSize := by
    rw [length_append, length_beEncode]
    rfl
  have hlong : magicSize + ivSize ≤ b.length := by
    obtain ⟨n, hn⟩ := exists_eq_add_one.mpr hpos
    rw [hb, length_append, hheader, hn, range_succ_eq_map, flatMap_cons,
      length_append, renderFixed, length_append,
      (pieceFrame_wf h false 0).length_iv]
    omega
  have hsmall : ∀ x, x <+: b ∨ b <+: x → smallReading P e.decryptor x = none := by
    intro x hx
    unfold smallReading
    split
    · rename_i hlen
      have hxlen : magicSize + ivSize ≤ x.length := by omega
      have hsame := take_of_comparable hx hxlen hlong
      have hvector : (x.drop magicSize).take ivSize = (b.drop magicSize).take ivSize := by
        rw [take_drop, take_drop, hsame]
      rw [hvector]
      exact h.open_unused hunused _
    · rfl
  have hfits : ∀ x, x <+: b → FitsSmallReader x := by
    intro x hx _ hnot
    by_cases hlen : x.length < magicSize + chunkCountSize
    · exact le_trans (le_of_lt hlen) (by decide)
    · have hfield : (x.drop magicSize).take chunkCountSize =
          beEncode chunkCountSize (pieceCount e.chunkSize p.length) := by
        rw [take_drop, prefix_take hx (not_lt.mp hlen), hb, ← hheader, take_left]
        rfl
      rw [hfield, isChunkCount_beEncode hpos hcount] at hnot
      cases hnot
  rw [hb] at hsmall hfits ⊢
  refine resists_frames renderFixed (.inr (chunkedReading_magicGB1 hpos hcount)) ?_ hsmall hfits ?_ ?_
  · intro x hx hne
    exact chunkedReading_short (hheader ▸ prefix_length_lt hx hne)
  · exact fun i hi => delimited_fixed h (pieceFrame_wf h false i)
      (congrArg Frame.compressed (storedFrame_false _ _)) (sealedPair_mem hi)
  · exact fun i hi y hy hne => unreadable_of_cutFixed h (pieceFrame_wf h false i)
      (sealedPair_mem hi) hy hne

/-- The frames of a GB2 or GB3 blob say how long they are. -/
theorem resists_stored (h : P.OpensOnly e.key pairs) (hc : e.chunkSize ≤ defaultChunkSize)
    (hr : r.Reads) (hmax : e.chunkSize + tagSize ≤ r.maxStored) {hd : Bytes} (tryCompress : Bool)
    (hlen : magicSize ≤ hd.length) (hmagic : hd.take magicSize ≠ magicGB1)
    (hread : (∀ y, chunkedReading P e.decryptor (hd ++ y) = none) ∨
      ∀ y, chunkedReading P e.decryptor (hd ++ y) = readFrames (cutStored r)
        (Frame.decode P e.key) (pieceCount e.chunkSize p.length) y)
    (hheader : ∀ x, x <+: hd → x ≠ hd → chunkedReading P e.decryptor x = none) :
    Resists P e.decryptor (hd ++ gb3Body P e tryCompress rng p) := by
  have hwf : ∀ i, (pieceFrame P e tryCompress rng p i).WF (e.chunkSize + tagSize) :=
    pieceFrame_wf h tryCompress
  have hsize : ∀ i, (pieceFrame P e tryCompress rng p i).ciphertext.length < 2 ^ 32 := by
    intro i
    have hle := (hwf i).length_le
    simp only [defaultChunkSize, tagSize] at hc hle
    omega
  have hnot : ∀ x, x <+: hd ++ gb3Body P e tryCompress rng p ∨
      hd ++ gb3Body P e tryCompress rng p <+: x → x.take magicSize ≠ magicGB1 := by
    intro x hx
    refine not_small ?_ ?_ hx
    · rw [length_append]
      omega
    · rw [take_append_of_le_length hlen]
      exact hmagic
  refine resists_frames renderStored hread hheader
    (fun x hx => smallReading_other P e.decryptor (hnot x hx))
    (fun x hx hgb1 => absurd hgb1 (hnot x (.inl hx))) ?_ ?_
  · intro i _ t
    exact .inl (cutStored_renderStored hr ⟨(hwf i).length_iv, le_trans (hwf i).length_le hmax⟩
      (hsize i) t)
  · exact fun i _ y hy hne => unreadable_of_cutStored (hwf i).length_iv (hsize i) hy hne _

theorem resists_gb2 (h : P.OpensOnly e.key pairs) (hc : e.chunkSize ≤ defaultChunkSize)
    (hpos : 0 < pieceCount e.chunkSize p.length)
    (hcount : pieceCount e.chunkSize p.length < maxChunkCount) (tryCompress : Bool) :
    Resists P e.decryptor (magicGB2 ++
      beEncode chunkCountSize (pieceCount e.chunkSize p.length) ++
        gb3Body P e tryCompress rng p) := by
  have hmax : e.chunkSize + tagSize ≤ gb2Rules.maxStored :=
    Nat.le_trans (Nat.add_le_add_right hc tagSize) (Nat.le_add_right _ _)
  have hlength : (magicGB2 ++ beEncode chunkCountSize (pieceCount e.chunkSize p.length)).length =
      magicSize + chunkCountSize := by
    rw [length_append, length_beEncode]
    rfl
  refine resists_stored h hc gb2Rules_reads hmax tryCompress (hlength ▸ le_add_right _ _)
    (show magicGB2 ≠ magicGB1 by decide) (.inr (chunkedReading_magicGB2 hpos hcount)) ?_
  exact fun x hx hne => chunkedReading_short (hlength ▸ prefix_length_lt hx hne)

/-- The number of chunks in a GB3 header is the right one, or the header is refused. -/
theorem resists_gb3 (h : P.OpensOnly e.key pairs) (hc : e.chunkSize ≤ defaultChunkSize)
    (hp : p.length < 2 ^ 63) (flags alg : UInt8) (tryCompress : Bool) :
    Resists P e.decryptor (encodeGB3Header flags alg e.chunkSize p.length ++
      gb3Body P e tryCompress rng p) := by
  have hlength := length_encodeGB3Header flags alg e.chunkSize p.length
  have hchunk : e.chunkSize < 2 ^ 32 := lt_of_le_of_lt hc (by decide)
  have hmagic : (encodeGB3Header flags alg e.chunkSize p.length).take magicSize = magicGB3 := rfl
  refine resists_stored h hc (gb3Rules_reads e.chunkSize)
    (show e.chunkSize + tagSize ≤ (gb3Rules e.chunkSize).maxStored from le_add_right _ _)
    tryCompress (hlength ▸ by decide) (hmagic ▸ by decide) ?_ fun x hx hne => ?_
  · cases hparse : parseGB3Header (encodeGB3Header flags alg e.chunkSize p.length) with
    | error err =>
      left
      intro y
      rw [chunkedReading_gb3 P e.decryptor (take_encodeGB3Header _ _ _ _ y),
        parseGB3Header_append hlength, hparse]
      rfl
    | ok hdr =>
      right
      intro y
      have hparse' := (parseGB3Header_append hlength y).trans hparse
      have hcount : hdr.chunkCount.toNat = pieceCount e.chunkSize p.length := by
        rw [(parseGB3Header_ok hparse').1]
        refine chunkCount_encode y e.chunkSize_pos hchunk ?_
        simp only [defaultChunkSize] at hc
        omega
      rw [chunkedReading_header hchunk hparse', hcount]
      rfl
  · by_cases hshort : x.length < magicSize + chunkCountSize
    · exact chunkedReading_short hshort
    · have hxmagic : x.take magicSize = magicGB3 :=
        (prefix_take hx (le_trans (le_add_right _ _) (not_lt.mp hshort))).trans hmagic
      have hlt : x.length < gb3HeaderSize := hlength ▸ prefix_length_lt hx hne
      rw [chunkedReading_gb3 P e.decryptor hxmagic, parseGB3Header, if_pos hlt]
      rfl

/-- **The blobs that are produced** from a plaintext, each with the pairs that are sealed for
it. -/
inductive Produced (P : Primitives) (e : Encryptor) (rng : Rng) (p : Bytes) :
    Bytes → List (Bytes × Bytes) → Prop
  | small {b : Bytes} (hp : p.length < e.chunkSize) (h : encrypt P e rng p = .ok b) :
      Produced P e rng p b [sealedSmall P e rng p]
  | large {b : Bytes} (hp : e.chunkSize ≤ p.length) (h : encrypt P e rng p = .ok b) :
      Produced P e rng p b (sealedPieces P e false rng p)
  | file {b hashed : Bytes} (tryCompress : Bool) (hp : e.chunkSize ≤ p.length)
      (h : encryptFileToWriter P e tryCompress rng p.length p = .ok (b, hashed)) :
      Produced P e rng p b (sealedPieces P e tryCompress rng p)

/-- What `encrypt` makes of a plaintext of at least one chunk. -/
theorem encrypt_large (hp : e.chunkSize ≤ p.length) (h : encrypt P e rng p = .ok b) :
    (maxChunkCount ≤ pieceCount e.chunkSize p.length ∧
      b = encodeGB3Header 0 gb3CompressNone e.chunkSize p.length ++ gb3Body P e false rng p) ∨
    (pieceCount e.chunkSize p.length < maxChunkCount ∧
      b = magicGB1 ++ beEncode chunkCountSize (pieceCount e.chunkSize p.length) ++
        (range (pieceCount e.chunkSize p.length)).flatMap fun i =>
          renderFixed (pieceFrame P e false rng p i)) := by
  rw [encrypt, if_neg (not_lt.mpr hp), encryptLarge] at h
  split at h
  · rename_i hmany
    rw [encryptLargeV3] at h
    obtain ⟨-, h⟩ := guard_eq_ok.mp h
    obtain ⟨-, h⟩ := guard_eq_ok.mp h
    cases h
    refine .inl ⟨hmany, ?_⟩
    simp only [gb3Body, storedFrame_false]
  · rename_i hfew
    obtain ⟨-, h⟩ := guard_eq_ok.mp h
    cases h
    refine .inr ⟨not_le.mp hfew, ?_⟩
    simp only [pieceFrame, storedFrame_false]

/-- Every blob that is produced resists; `hunused` is about chunked GB1 blobs. -/
theorem resists_produced (hc : e.chunkSize ≤ defaultChunkSize) (hp : p.length < 2 ^ 63)
    (hb : Produced P e rng p b pairs) (h : P.OpensOnly e.key pairs)
    (hunused : e.chunkSize ≤ p.length → b.take magicSize = magicGB1 →
      (b.drop magicSize).take ivSize ∉ pairs.map Prod.fst) : Resists P e.decryptor b := by
  cases hb with
  | small hsmall henc =>
    rw [encrypt, if_pos hsmall, encryptSmall] at henc
    obtain ⟨-, henc⟩ := guard_eq_ok.mp henc
    cases henc
    exact resists_small hc hsmall h
  | large hlarge henc =>
    rcases encrypt_large hlarge henc with ⟨-, rfl⟩ | ⟨hfew, hgb1⟩
    · exact resists_gb3 h hc hp _ _ false
    · refine resists_gb1 h (pieceCount_pos e.chunkSize_pos hlarge) hfew hgb1 (hunused hlarge ?_)
      rw [hgb1]
      rfl
  | file tryCompress hlarge henc =>
    have hpos := pieceCount_pos e.chunkSize_pos hlarge
    have hk : validKey e.key = true := by
      rw [encryptFileToWriter] at henc
      exact Bool.eq_true_of_not_eq_false (guard_eq_ok.mp henc).1
    rw [encryptFileToWriter_eq hk] at henc
    have hform := (Prod.mk.inj (Except.ok.inj henc)).1
    split at hform
    · rw [← hform]
      exact resists_gb3 h hc hp _ _ tryCompress
    · rename_i hfew
      have hfew := not_le.mp hfew
      cases tryCompress with
      | true =>
        rw [if_pos rfl] at hform
        rw [← hform]
        exact resists_gb2 h hc hpos hfew true
      | false =>
        rw [if_neg (by decide)] at hform
        have hgb1 := hform.symm
        simp only [← storedFrame_false] at hgb1
        refine resists_gb1 h hpos hfew hgb1 (hunused hlarge ?_)
        rw [hgb1]
        rfl

/-- **No blob that was cut off or extended is accepted.** The length of a plaintext is a Go
`int`. -/
theorem blob_not_resized {b : Bytes} {pairs : List (Bytes × Bytes)}
    (hc : e.chunkSize ≤ defaultChunkSize) (hp : p.length < 2 ^ 63)
    (hb : Produced P e rng p b pairs) (h : P.OpensOnly e.key pairs)
    (hunused : e.chunkSize ≤ p.length → b.take magicSize = magicGB1 →
      (b.drop magicSize).take ivSize ∉ pairs.map Prod.fst) :
    (∀ x, x <+: b → x ≠ b → (∀ q, decrypt P e.decryptor x ≠ .ok q) ∧
      ∀ dst, (decryptStreamToFile P e.decryptor x dst).err ≠ none) ∧
    ∀ t, t ≠ [] → ∀ q, decrypt P e.decryptor (b ++ t) ≠ .ok q := by
  have hresists := resists_produced hc hp hb h hunused
  refine ⟨fun x hx hne => ?_, fun t ht => hresists.extended ht⟩
  have hnot := hresists.shorter x hx hne
  exact ⟨hnot.decrypt, hnot.decryptStreamToFile⟩

end

/-! ## One chunk -/

/-- The cipher of the sample, which opens the sealed `zstdMagic` and nothing else. -/
def idealSample : Primitives :=
  { samplePrimitives with
    gcmOpen := fun key iv ct =>
      if iv = sampleIV.bytes ∧ ct = samplePrimitives.gcmSeal sampleKey sampleIV.bytes zstdMagic then
        samplePrimitives.gcmOpen key iv ct
      else none }

/-- The blob of `zstdMagic`, as one chunk. -/
theorem blob_not_resized_zstdMagic :
    ∃ b, encrypt idealSample (newEncryptor sampleKey 4) sampleRng zstdMagic = .ok b ∧
      decrypt idealSample (newEncryptor sampleKey 4).decryptor b = .ok zstdMagic ∧
      (∀ x, x <+: b → x ≠ b →
        (∀ q, decrypt idealSample (newEncryptor sampleKey 4).decryptor x ≠ .ok q) ∧
        ∀ dst, (decryptStreamToFile idealSample (newEncryptor sampleKey 4).decryptor x dst).err ≠
          none) ∧
      ∀ t, t ≠ [] → ∀ q,
        decrypt idealSample (newEncryptor sampleKey 4).decryptor (b ++ t) ≠ .ok q := by
  have hpairs : sealedPieces idealSample (newEncryptor sampleKey 4) false sampleRng zstdMagic =
      [(sampleIV.bytes, samplePrimitives.gcmSeal sampleKey sampleIV.bytes zstdMagic)] := by
    decide
  have hideal : idealSample.OpensOnly (newEncryptor sampleKey 4).key
      (sealedPieces idealSample (newEncryptor sampleKey 4) false sampleRng zstdMagic) := by
    rw [hpairs]
    refine ⟨fun iv ct q hopen => ?_, by decide, fun iv p _ => ?_⟩
    · obtain ⟨⟨rfl, rfl⟩, -⟩ := ite_none_right_eq_some.mp hopen
      exact mem_cons_self
    · exact samplePrimitives_aead.length_seal sampleKey sampleIV.bytes p (by decide) rfl
  refine ⟨_, rfl, by decide, blob_not_resized (by decide) (by decide) (.large (by decide) rfl)
    hideal ?_⟩
  rw [hpairs]
  decide

end GbfCore
