import GbfCore.Lib.Base64
import GbfCore.Lib.Decimal
import GbfCore.Manifest.CloudID

/-!
# Structured identifiers (manifest.go)

`StructuredCloudID` encodes the device identifier in base64, so that it is one segment of the
identifier of the source whatever it contains. The characters of the encoding are all harmless,
and the identifiers can be told apart and decoded. They are not all valid: four characters of
base64 can spell the name of a Windows device, such as `COM1`, and `validateCloudID` refuses it
(`structuredCloudID_valid_iff`).
-/

namespace GbfCore

open List

variable {b : UInt8} {d : Bytes}

/-- `EncodeCloudIDSegment`. -/
def encodeCloudIDSegment (deviceID : Bytes) : Bytes := rawURLEncode deviceID

/-- `DecodeCloudIDSegment`; `none` is its error. -/
def decodeCloudIDSegment (s : Bytes) : Option Bytes := rawURLDecode s

/-- `StructuredCloudID`. -/
def structuredCloudID (deviceID : Bytes) (sourceID : Int) : Bytes :=
  if deviceID = [] then intText sourceID
  else encodeCloudIDSegment deviceID ++ slash :: intText sourceID

/-! ## Harmless segments -/

/-- A segment of letters, digits, `-` and `_`. -/
structure PlainSegment (seg : Bytes) : Prop where
  ne_nil : seg ≠ []
  chars : ∀ c ∈ seg, isURLChar c = true

theorem isURLChar_harmless {c : UInt8} (h : isURLChar c = true) :
    c < 0x80 ∧ c ≠ slash ∧ c ≠ backslash ∧ c ≠ dot ∧ c ≠ 0x20 ∧ invalidCloudIDChar c = false ∧
      isSpaceRune [c] = false := by
  have hall : ∀ k < 256, isURLChar (UInt8.ofNat k) = true →
      UInt8.ofNat k < 0x80 ∧ UInt8.ofNat k ≠ slash ∧ UInt8.ofNat k ≠ backslash ∧
        UInt8.ofNat k ≠ dot ∧ UInt8.ofNat k ≠ 0x20 ∧ invalidCloudIDChar (UInt8.ofNat k) = false ∧
        isSpaceRune [UInt8.ofNat k] = false := by
    decide +kernel
  have hc := hall c.toNat c.toNat_lt
  rw [UInt8.ofNat_toNat] at hc
  exact hc h

theorem dropWhile_of_none {α : Type} {p : α → Bool} {l : List α} (h : ∀ x ∈ l, p x = false) :
    l.dropWhile p = l := by
  cases l with
  | nil => rfl
  | cons x l => exact dropWhile_cons_of_neg (Bool.eq_false_iff.mp (h x mem_cons_self))

theorem segs_of_ascii {s : Bytes} (h : ∀ b ∈ s, b < 0x80) :
    segs s = s.map fun b => Seg.rune [b] := by
  induction s with
  | nil => rfl
  | cons b rest ih =>
    have hb := isRune_singleton (h b mem_cons_self)
    rw [← singleton_append, segs_rune hb, ih fun c hc => h c (mem_cons_of_mem b hc)]
    rfl

namespace PlainSegment

variable {seg : Bytes} (h : PlainSegment seg)
include h

theorem notMem (hb : isURLChar b = false) : b ∉ seg := fun hmem => by
  rw [h.chars b hmem] at hb
  cases hb

theorem trimSpace_eq : trimSpace seg = seg := by
  have hsegs : segs seg = seg.map fun b => Seg.rune [b] :=
    segs_of_ascii fun b hb => (isURLChar_harmless (h.chars b hb)).1
  have hspace : ∀ x ∈ seg.map fun b => Seg.rune [b], x.isSpace = false := by
    intro x hx
    obtain ⟨b, hb, rfl⟩ := mem_map.mp hx
    exact (isURLChar_harmless (h.chars b hb)).2.2.2.2.2.2
  rw [trimSpace, hsegs, dropWhile_of_none hspace, dropWhile_of_none, reverse_reverse,
    flatMap_map]
  · simp [Seg.raw]
  · intro x hx
    exact hspace x (mem_reverse.mp hx)

theorem isWindowsReservedName_eq :
    isWindowsReservedName seg = decide (toUpper seg ∈ windowsReservedNames) := by
  have htake : seg.takeWhile (· != dot) = seg := by
    refine takeWhile_eq_self_iff.mpr fun b hb => ?_
    exact bne_iff_ne.mpr (isURLChar_harmless (h.chars b hb)).2.2.2.1
  rw [isWindowsReservedName, htake, dropWhile_of_none, reverse_reverse]
  intro b hb
  obtain ⟨-, -, -, hdot, hblank, -, -⟩ := isURLChar_harmless (h.chars b (mem_reverse.mp hb))
  simp [hdot, hblank]

theorem not_dotName : isDotName seg = false := by
  rw [← Bool.not_eq_true, isDotName_iff]
  rintro (rfl | rfl) <;> exact h.notMem (by decide) mem_cons_self

end PlainSegment

theorem validateCloudSegments_plain {l : List Bytes} (h : ∀ seg ∈ l, PlainSegment seg) :
    validateCloudSegments l = .ok () ↔ ∀ seg ∈ l, toUpper seg ∉ windowsReservedNames := by
  induction l with
  | nil => simp [validateCloudSegments]
  | cons seg rest ih =>
    obtain ⟨hseg, hrest⟩ := forall_mem_cons.mp h
    rw [validateCloudSegments, hseg.trimSpace_eq, hseg.not_dotName, hseg.isWindowsReservedName_eq,
      forall_mem_cons, ← ih hrest]
    simp [guard_eq_ok, hseg.ne_nil]

/-- Of an identifier made up of harmless segments, only reserved names are refused. -/
theorem validateCloudID_plain {l : List Bytes} (hne : l ≠ []) (h : ∀ seg ∈ l, PlainSegment seg)
    (hlen : (joinSlash l).length ≤ maxCloudIDLength) :
    validateCloudID (joinSlash l) = .ok () ↔ ∀ seg ∈ l, toUpper seg ∉ windowsReservedNames := by
  have hslash : ∀ seg ∈ l, slash ∉ seg := fun seg hseg => (h seg hseg).notMem (by decide)
  have hchars : ∀ c ∈ joinSlash l, c = slash ∨ isURLChar c = true := by
    intro c hc
    by_cases hs : c = slash
    · exact .inl hs
    · obtain ⟨seg, hseg, hmem⟩ := exists_mem_splitSlash hc hs
      rw [splitSlash_joinSlash hslash hne] at hseg
      exact .inr ((h seg hseg).chars c hmem)
  obtain ⟨c, tail, hpath, hc⟩ : ∃ c tail, joinSlash l = c :: tail ∧ isURLChar c = true := by
    obtain ⟨seg, rest, rfl⟩ := exists_cons_of_ne_nil hne
    have hseg := h seg mem_cons_self
    obtain ⟨c, tail, rfl⟩ := exists_cons_of_ne_nil hseg.ne_nil
    have hc := hseg.chars c mem_cons_self
    cases rest with
    | nil => exact ⟨c, tail, by simp [joinSlash], hc⟩
    | cons seg' rest => exact ⟨c, tail ++ slash :: joinSlash (seg' :: rest), rfl, hc⟩
  have hvalid : ∀ b ∈ joinSlash l, b ≠ backslash ∧ b ≠ colon ∧ invalidCloudIDChar b = false := by
    intro b hb
    rcases hchars b hb with rfl | hurl
    · decide
    · obtain ⟨-, -, hback, -, -, hok, -⟩ := isURLChar_harmless hurl
      refine ⟨hback, ?_, hok⟩
      rintro rfl
      exact absurd hurl (by decide)
  have hsep : ¬ (joinSlash l).head?.any isSeparator = true := by
    rw [hpath]
    obtain ⟨-, hslash, hback, -⟩ := isURLChar_harmless hc
    simp [isSeparator, hslash, hback]
  have hdrive : ¬ isWindowsDrive (joinSlash l) = true := by
    rw [hpath] at hvalid ⊢
    cases tail with
    | nil => exact Bool.false_ne_true
    | cons b rest =>
      have hcolon := (hvalid b (mem_cons_of_mem c mem_cons_self)).2.1
      simp [isWindowsDrive, hcolon]
  have hinvalid : (joinSlash l).find? invalidCloudIDChar = none :=
    List.find?_eq_none.mpr fun b hb => Bool.eq_false_iff.mp (hvalid b hb).2.2
  have hmap : (joinSlash l).map (fun b => if b = backslash then slash else b) = joinSlash l := by
    refine map_congr_left (fun b hb => if_neg (hvalid b hb).1) |>.trans (map_id _)
  rw [validateCloudID, if_neg (by rw [hpath]; exact cons_ne_nil _ _),
    if_neg (Nat.not_lt.mpr hlen), if_neg hsep, if_neg hdrive, hinvalid]
  dsimp only
  rw [hmap, splitSlash_joinSlash hslash hne]
  exact validateCloudSegments_plain h

/-! ## The segments of a structured identifier -/

theorem plainSegment_encode (h : d ≠ []) : PlainSegment (encodeCloudIDSegment d) where
  ne_nil hnil := by
    have hdecode := rawURLDecode_encode d
    rw [show rawURLEncode d = [] from hnil] at hdecode
    exact h (Option.some.inj hdecode).symm
  chars := isURLChar_of_mem

theorem isURLChar_of_isDigit (h : isDigit b = true) : isURLChar b = true := by
  simp only [isDigit, Bool.and_eq_true, decide_eq_true_eq] at h
  simp [isURLChar, h]

theorem plainSegment_intText (i : Int) : PlainSegment (intText i) := by
  cases i with
  | ofNat n => exact ⟨natText_ne_nil n, fun b hb => isURLChar_of_isDigit (isDigit_natText n b hb)⟩
  | negSucc n =>
    refine ⟨cons_ne_nil _ _, forall_mem_cons.mpr ⟨by decide, fun b hb => ?_⟩⟩
    exact isURLChar_of_isDigit (isDigit_natText (n + 1) b hb)

/-- What an upper case byte says about the byte it comes from. -/
theorem isURLChar_of_upper :
    (isURLChar (if 0x61 ≤ b ∧ b ≤ 0x7a then b - 0x20 else b) = true → isURLChar b = true) ∧
      (0x41 ≤ (if 0x61 ≤ b ∧ b ≤ 0x7a then b - 0x20 else b) → isDigit b = false ∧ b ≠ minus) := by
  have hall : ∀ k < 256, (isURLChar (if 0x61 ≤ UInt8.ofNat k ∧ UInt8.ofNat k ≤ 0x7a
      then UInt8.ofNat k - 0x20 else UInt8.ofNat k) = true → isURLChar (UInt8.ofNat k) = true) ∧
        (0x41 ≤ (if 0x61 ≤ UInt8.ofNat k ∧ UInt8.ofNat k ≤ 0x7a
          then UInt8.ofNat k - 0x20 else UInt8.ofNat k) →
            isDigit (UInt8.ofNat k) = false ∧ UInt8.ofNat k ≠ minus) := by
    decide +kernel
  have hb := hall b.toNat b.toNat_lt
  rwa [UInt8.ofNat_toNat] at hb

/-- A reserved name in any case consists of characters of the encoding. -/
theorem isURLChar_of_reserved {name : Bytes} (h : toUpper name ∈ windowsReservedNames) :
    ∀ c ∈ name, isURLChar c = true := by
  have hnames : ∀ upper ∈ windowsReservedNames, ∀ c ∈ upper, isURLChar c = true := by decide +kernel
  intro c hc
  exact isURLChar_of_upper.1 (hnames _ h _ (mem_map_of_mem hc))

/-- A reserved name starts with a letter. -/
theorem head_of_reserved {rest : Bytes} (h : toUpper (b :: rest) ∈ windowsReservedNames) :
    isDigit b = false ∧ b ≠ minus := by
  have hheads : ∀ name ∈ windowsReservedNames, ∀ c ∈ name.head?, 0x41 ≤ c := by decide +kernel
  exact isURLChar_of_upper.2 (hheads _ h _ rfl)

theorem intText_not_reserved (i : Int) : toUpper (intText i) ∉ windowsReservedNames := by
  intro h
  cases i with
  | ofNat n =>
    obtain ⟨b, rest, htext⟩ := exists_cons_of_ne_nil (natText_ne_nil n)
    rw [intText, htext] at h
    have hdigit := isDigit_natText n b (htext ▸ mem_cons_self)
    rw [(head_of_reserved h).1] at hdigit
    cases hdigit
  | negSucc n => exact (head_of_reserved h).2 rfl

/-- Two bytes are encoded with two bits of nothing at the end, and no name of three letters
ends so. -/
theorem encode_two_not_reserved (a b : UInt8) :
    toUpper (rawURLEncode [a, b]) ∉ windowsReservedNames := by
  intro h
  have hnames : ∀ name ∈ windowsReservedNames, name.length = 3 →
      name[2]? ∈ [some (0x4e : UInt8), some 0x58, some 0x4c] := by
    decide +kernel
  have hchars : ∀ k < 16,
      (toUpper [base64URLChar (4 * k)])[0]? ∉ [some (0x4e : UInt8), some 0x58, some 0x4c] := by
    decide +kernel
  have hthird : (a.toNat * 65536 + b.toNat * 256) / 64 % 64 = 4 * (b.toNat % 16) := by omega
  refine hchars (b.toNat % 16) (Nat.mod_lt _ (by decide)) ?_
  rw [← hthird]
  exact hnames _ h rfl

/-- The encodings that are reserved names have four characters. -/
theorem length_of_encode_reserved (h : toUpper (rawURLEncode d) ∈ windowsReservedNames) :
    (rawURLEncode d).length = 4 := by
  have hlen : ∀ name ∈ windowsReservedNames, name.length = 3 ∨ name.length = 4 := by decide +kernel
  have hd := hlen _ h
  rw [toUpper, length_map] at hd
  refine hd.resolve_left fun hthree => ?_
  match d, h, hthree with
  | [], _, hthree => cases hthree
  | [a], _, hthree => cases hthree
  | [a, b], h, _ => exact encode_two_not_reserved a b h
  | a :: b :: c :: rest, _, hthree =>
    simp only [rawURLEncode, Encoding.encode, length_cons] at hthree
    omega

/-- The device identifiers whose encoding is a reserved name. -/
theorem encode_reserved_iff :
    toUpper (encodeCloudIDSegment d) ∈ windowsReservedNames ↔
      ∃ name, toUpper name ∈ windowsReservedNames ∧ name.length = 4 ∧
        decodeCloudIDSegment name = some d := by
  constructor
  · intro h
    exact ⟨_, h, length_of_encode_reserved h, rawURLDecode_encode d⟩
  · rintro ⟨name, hname, hlen, hdecode⟩
    obtain ⟨a, b, c, e, rfl⟩ := length_eq_four.mp hlen
    rw [encodeCloudIDSegment, rawURLEncode_of_decode (isURLChar_of_reserved hname) hdecode]
    exact hname

/-! ## Structured identifiers -/

theorem structuredCloudID_eq (d : Bytes) (s : Int) :
    structuredCloudID d s =
      joinSlash (if d = [] then [intText s] else [encodeCloudIDSegment d, intText s]) := by
  unfold structuredCloudID
  split
  · simp [joinSlash]
  · simp [joinSlash]

theorem plain_segments (d : Bytes) (s : Int) :
    ∀ seg ∈ (if d = [] then [intText s] else [encodeCloudIDSegment d, intText s]),
      PlainSegment seg := by
  split
  · simp [plainSegment_intText s]
  · next hd => simp [plainSegment_intText s, plainSegment_encode hd]

theorem splitSlash_segments (d : Bytes) (s : Int) :
    splitSlash (joinSlash (if d = [] then [intText s] else [encodeCloudIDSegment d, intText s])) =
      if d = [] then [intText s] else [encodeCloudIDSegment d, intText s] := by
  refine splitSlash_joinSlash (fun seg hseg => ?_) (by split <;> exact cons_ne_nil _ _)
  exact (plain_segments d s seg hseg).notMem (by decide)

/-- The part before the separator is decoded to the device identifier. -/
theorem decode_structuredCloudID (hd : d ≠ []) (s : Int) :
    decodeCloudIDSegment ((structuredCloudID d s).takeWhile (· != slash)) = some d := by
  have hplain := plainSegment_encode hd
  have htake : (encodeCloudIDSegment d).takeWhile (· != slash) = encodeCloudIDSegment d :=
    takeWhile_eq_self_iff.mpr fun b hb =>
      bne_iff_ne.mpr (isURLChar_harmless (hplain.chars b hb)).2.1
  rw [structuredCloudID, if_neg hd, takeWhile_append, if_pos (congrArg List.length htake),
    takeWhile_cons_of_neg (by simp), append_nil]
  exact rawURLDecode_encode d

theorem structuredCloudID_inj {d' : Bytes} {s s' : Int}
    (h : structuredCloudID d s = structuredCloudID d' s') : d = d' ∧ s = s' := by
  rw [structuredCloudID_eq, structuredCloudID_eq] at h
  have hparts := (splitSlash_segments d s).symm.trans
    ((congrArg splitSlash h).trans (splitSlash_segments d' s'))
  split at hparts <;> split at hparts
  · next hd hd' => exact ⟨hd.trans hd'.symm, intText_inj (cons_eq_cons.mp hparts).1⟩
  · exact absurd (congrArg List.length hparts) (by simp)
  · exact absurd (congrArg List.length hparts) (by simp)
  · obtain ⟨hseg, htext⟩ := cons_eq_cons.mp hparts
    have hdecode := congrArg rawURLDecode hseg
    rw [encodeCloudIDSegment, encodeCloudIDSegment, rawURLDecode_encode, rawURLDecode_encode]
      at hdecode
    exact ⟨Option.some.inj hdecode, intText_inj (cons_eq_cons.mp htext).1⟩

/-- **Structured identifiers are valid unless they spell the name of a Windows device.** An
identifier that is not too long is refused exactly if the device identifier is what some `COM1`
to `LPT9`, in whatever case, decodes to. The device identifier is read back from it, and
different sources have different identifiers. -/
theorem structuredCloudID_valid_iff (d : Bytes) (s : Int)
    (hlen : (structuredCloudID d s).length ≤ maxCloudIDLength) :
    (validateCloudID (structuredCloudID d s) = .ok () ↔
        ∀ name, toUpper name ∈ windowsReservedNames → name.length = 4 →
          decodeCloudIDSegment name ≠ some d) ∧
      (d ≠ [] →
        decodeCloudIDSegment ((structuredCloudID d s).takeWhile (· != slash)) = some d) ∧
      ∀ d' s', structuredCloudID d s = structuredCloudID d' s' → d = d' ∧ s = s' := by
  refine ⟨?_, fun hd => decode_structuredCloudID hd s, fun d' s' => structuredCloudID_inj⟩
  have hsegs : (∀ seg ∈ (if d = [] then [intText s] else [encodeCloudIDSegment d, intText s]),
      toUpper seg ∉ windowsReservedNames) ↔
        toUpper (encodeCloudIDSegment d) ∉ windowsReservedNames := by
    split
    · next hd =>
      subst hd
      simp only [mem_singleton, forall_eq, intText_not_reserved, not_false_eq_true, true_iff]
      decide
    · simp [intText_not_reserved]
  rw [structuredCloudID_eq] at hlen ⊢
  rw [validateCloudID_plain (by split <;> exact cons_ne_nil _ _) (plain_segments d s) hlen,
    hsegs, encode_reserved_iff]
  push Not
  rfl

/-- The identifier of source 42 on a device is valid. -/
theorem structuredCloudID_dev :
    validateCloudID (structuredCloudID (ascii "dev") 42) = .ok () ∧
      decodeCloudIDSegment ((structuredCloudID (ascii "dev") 42).takeWhile (· != slash)) =
        some (ascii "dev") := by
  obtain ⟨hvalid, hdecode, -⟩ := structuredCloudID_valid_iff (ascii "dev") 42 (by decide +kernel)
  refine ⟨hvalid.mpr fun name hname hlen h => ?_, hdecode (by decide)⟩
  exact absurd (encode_reserved_iff.mpr ⟨name, hname, hlen, h⟩) (by decide +kernel)

/-- Three bytes of a device identifier are encoded as `COM1`. -/
theorem structuredCloudID_com1_refused :
    structuredCloudID [0x08, 0xe3, 0x35] 1 = ascii "COM1/1" ∧
      validateCloudID (structuredCloudID [0x08, 0xe3, 0x35] 1) = .error .reservedName := by
  decide +kernel

end GbfCore
