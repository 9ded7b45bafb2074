import GbfCore.Lib.Utf8

/-!
# JSON strings as encoding/json writes and reads them

`quote` is the text of a string: coerced to UTF-8, with the HTML characters and the
two Unicode line ends escaped besides what the format requires. `unquote` takes the
text between the quotation marks back; what is left of invalid UTF-8 or of
surrogates becomes U+FFFD. The one undoes the other up to the coercion
(`unquote_escape`).
-/

namespace GbfCore.Json

open List

variable {b : UInt8}

/-- A quotation mark. -/
def quotationMark : UInt8 := 0x22

/-! ## Writing -/

/-- The ASCII characters that stand for themselves (`htmlSafeSet`). -/
def htmlSafe (b : UInt8) : Bool :=
  decide (0x20 ≤ b) && decide (b ≠ quotationMark) && decide (b ≠ backslash) &&
    decide (b ≠ 0x26) && decide (b ≠ 0x3c) && decide (b ≠ 0x3e)

/-- The text of an ASCII character. -/
def escapeByte (b : UInt8) : Bytes :=
  if htmlSafe b then [b]
  else if b = backslash ∨ b = quotationMark then [backslash, b]
  else if b = 0x08 then ascii "\\b"
  else if b = 0x0c then ascii "\\f"
  else if b = 0x0a then ascii "\\n"
  else if b = 0x0d then ascii "\\r"
  else if b = 0x09 then ascii "\\t"
  else ascii "\\u00" ++ [hexDigit (b.toNat / 16), hexDigit (b.toNat % 16)]

/-- U+2028 -/
def lineSeparator : Bytes := [0xe2, 0x80, 0xa8]

/-- U+2029 -/
def paragraphSeparator : Bytes := [0xe2, 0x80, 0xa9]

/-- The text of a segment. -/
def escapeSeg : Seg → Bytes
  | .bad _ => ascii "\\ufffd"
  | .rune [b] => escapeByte b
  | .rune r =>
    if r = lineSeparator then ascii "\\u2028"
    else if r = paragraphSeparator then ascii "\\u2029"
    else r

/-- The text between the quotation marks. -/
def escape (s : Bytes) : Bytes := (segs s).flatMap escapeSeg

/-- The text of a string. -/
def quote (s : Bytes) : Bytes := quotationMark :: escape s ++ [quotationMark]

/-! ## Reading -/

/-- The value of a hexadecimal digit. -/
def hexValue (b : UInt8) : Option Nat :=
  if 0x30 ≤ b ∧ b ≤ 0x39 then some (b.toNat - 0x30)
  else if 0x61 ≤ b ∧ b ≤ 0x66 then some (b.toNat - 0x57)
  else if 0x41 ≤ b ∧ b ≤ 0x46 then some (b.toNat - 0x37)
  else none

/-- The number of four hexadecimal digits. -/
def hexNumber (a b c d : UInt8) : Option Nat := do
  let a ← hexValue a
  let b ← hexValue b
  let c ← hexValue c
  let d ← hexValue d
  return ((a * 16 + b) * 16 + c) * 16 + d

/-- `getu4`: the number of an escape at the start of a text. -/
def getu4 : Bytes → Option Nat
  | 0x5c :: 0x75 :: a :: b :: c :: d :: _ => hexNumber a b c d
  | _ => none

/-- `utf16.DecodeRune`, where the two are a pair. -/
def surrogatePair (hi lo : Nat) : Option Nat :=
  if 0xd800 ≤ hi ∧ hi < 0xdc00 ∧ 0xdc00 ≤ lo ∧ lo < 0xe000 then
    some ((hi - 0xd800) * 0x400 + (lo - 0xdc00) + 0x10000)
  else none

/-- The character behind a backslash, other than for a number. -/
def simpleEscape (c : UInt8) : Option UInt8 :=
  if c = quotationMark ∨ c = backslash ∨ c = 0x2f ∨ c = 0x27 then some c
  else if c = 0x62 then some 0x08
  else if c = 0x66 then some 0x0c
  else if c = 0x6e then some 0x0a
  else if c = 0x72 then some 0x0d
  else if c = 0x74 then some 0x09
  else none

/-- The escape behind a backslash: what it stands for, and how long it is. -/
def readEscape : Bytes → Option (Bytes × Nat)
  | 0x75 :: a :: b :: c :: d :: rest =>
    (hexNumber a b c d).map fun r =>
      match (getu4 rest).bind (surrogatePair r) with
      | some pair => (encodeRune pair, 11)
      | none => (encodeRune r, 5)
  | c :: _ => (simpleEscape c).map fun x => ([x], 1)
  | [] => none

/-- Undo the escapes of a text, after the first `skip` bytes. -/
def unescapeFrom : (skip : Nat) → Bytes → Option Bytes
  | _, [] => some []
  | skip + 1, _ :: rest => unescapeFrom skip rest
  | 0, b :: rest =>
    if b = backslash then
      match readEscape rest with
      | none => none
      | some (x, n) => (unescapeFrom n rest).map (x ++ ·)
    else (unescapeFrom 0 rest).map (b :: ·)

/-- Undo the escapes of a text. -/
def unescape (raw : Bytes) : Option Bytes := unescapeFrom 0 raw

/-- `unquote`, for the text between the quotation marks. -/
def unquote (raw : Bytes) : Option Bytes := (unescape raw).map coerce

example : unquote (ascii "a\\u00e9\\ud83d\\ude00\\ud800x") =
    some [0x61, 0xc3, 0xa9, 0xf0, 0x9f, 0x98, 0x80, 0xef, 0xbf, 0xbd, 0x78] := by decide

/-! ## Reading what was written -/

theorem unescape_plain (hb : b ≠ backslash) (rest : Bytes) :
    unescape (b :: rest) = (unescape rest).map (b :: ·) := by
  rw [unescape, unescapeFrom, if_neg hb]
  rfl

theorem unescapeFrom_length (a : Bytes) (rest : Bytes) :
    unescapeFrom a.length (a ++ rest) = unescape rest := by
  induction a with
  | nil => rfl
  | cons b a ih => exact ih

/-- An escape of which the length is known. -/
theorem unescape_escape {a x rest : Bytes} (h : readEscape (a ++ rest) = some (x, a.length)) :
    unescape (backslash :: a ++ rest) = (unescape rest).map (x ++ ·) := by
  rw [unescape, cons_append, unescapeFrom, if_pos rfl, h]
  show (unescapeFrom a.length (a ++ rest)).map (x ++ ·) = _
  rw [unescapeFrom_length]

/-- An escape by number that is no surrogate. -/
theorem readEscape_number {a c d : UInt8} {r : Nat} (hr : hexNumber a b c d = some r)
    (hlow : r < 0xd800 ∨ 0xdc00 ≤ r) (rest : Bytes) :
    readEscape (0x75 :: a :: b :: c :: d :: rest) = some (encodeRune r, 5) := by
  have hpair : ∀ lo, surrogatePair r lo = none := by
    intro lo
    refine if_neg ?_
    omega
  rw [readEscape, hr, Option.map_some]
  cases getu4 rest with
  | none => rfl
  | some lo =>
    rw [Option.bind_some, hpair]

theorem unescape_number {a c d : UInt8} {r : Nat} (hr : hexNumber a b c d = some r)
    (hlow : r < 0xd800 ∨ 0xdc00 ≤ r) (rest : Bytes) :
    unescape (backslash :: [0x75, a, b, c, d] ++ rest) =
      (unescape rest).map (encodeRune r ++ ·) :=
  unescape_escape (readEscape_number hr hlow rest)

theorem unescape_simple {c x : UInt8} (hx : simpleEscape c = some x) (rest : Bytes) :
    unescape (backslash :: [c] ++ rest) = (unescape rest).map ([x] ++ ·) := by
  have hu : c ≠ 0x75 := by
    rintro rfl
    cases hx
  refine unescape_escape ?_
  rw [singleton_append, readEscape, hx]
  · rfl
  · intro a b c' d rest' h
    exact absurd h hu

theorem hexNumber_byte (hb : b < 0x80) :
    hexNumber 0x30 0x30 (hexDigit (b.toNat / 16)) (hexDigit (b.toNat % 16)) = some b.toNat ∧
      encodeRune b.toNat = [b] := by
  have key : ∀ n < 128, hexNumber 0x30 0x30 (hexDigit (n / 16)) (hexDigit (n % 16)) = some n ∧
      encodeRune n = [UInt8.ofNat n] := by decide
  have h := key b.toNat hb
  rw [UInt8.ofNat_toNat] at h
  exact h

theorem unescape_escapeByte (hb : b < 0x80) (rest : Bytes) :
    unescape (escapeByte b ++ rest) = (unescape rest).map ([b] ++ ·) := by
  unfold escapeByte
  split
  · rename_i hsafe
    refine unescape_plain ?_ rest
    rintro rfl
    cases hsafe
  · split
    · rename_i heq
      rcases heq with rfl | rfl <;> exact unescape_simple rfl rest
    · iterate 5
        split
        · rename_i heq
          subst heq
          exact unescape_simple rfl rest
      obtain ⟨hnum, henc⟩ := hexNumber_byte hb
      rw [← henc]
      exact unescape_number hnum (.inl (Nat.lt_trans hb (by decide))) rest

/-- The bytes of a rune that is not ASCII. -/
theorem not_ascii_of_isRune {r : Bytes} (hr : IsRune r) (hlong : r.length ≠ 1) :
    ∀ b ∈ r, ¬ b < 0x80 := by
  obtain ⟨hne, hlen⟩ := hr
  cases r with
  | nil => exact absurd rfl hne
  | cons b rest =>
    rw [runeLen] at hlen
    split at hlen
    · exact absurd hlen.symm hlong
    · rename_i hb
      obtain ⟨lo, hi, n, b₁, tail, hlead, rfl, hk, hlo, -, hn, hall⟩ := contLen_eq_succ hlen
      have htail : tail.length = n := Nat.succ.inj hk
      rw [← htail, take_length] at hall
      intro x hx
      rcases mem_cons.mp hx with rfl | hx
      · exact hb
      · rcases mem_cons.mp hx with rfl | hx
        · exact fun hx => absurd (UInt8.lt_of_le_of_lt hlo hx) (le_of_runeLead hlead)
        · have := all_eq_true.mp hall x hx
          exact UInt8.not_lt.mpr (of_decide_eq_true (Bool.and_eq_true_iff.mp this).1)
where
  le_of_runeLead {b lo hi : UInt8} {n : Nat} (h : runeLead b = some (lo, hi, n)) :
      ¬ lo < 0x80 := by
    unfold runeLead at h
    repeat' split at h
    all_goals cases h
    all_goals decide

theorem unescape_not_ascii {r : Bytes} (hr : ∀ b ∈ r, ¬ b < 0x80) (rest : Bytes) :
    unescape (r ++ rest) = (unescape rest).map (r ++ ·) := by
  induction r with
  | nil =>
    cases h : unescape rest with
    | none => exact h
    | some x => exact h
  | cons b r ih =>
    have hb : b ≠ backslash := by
      rintro rfl
      exact hr _ mem_cons_self (by decide)
    rw [cons_append, unescape_plain hb, ih fun c hc => hr c (mem_cons_of_mem b hc),
      Option.map_map]
    rfl

theorem ascii_of_isRune_singleton (hr : IsRune [b]) : b < 0x80 := by
  by_contra hb
  have hlen := hr.2
  rw [runeLen, if_neg hb] at hlen
  obtain ⟨_, _, _, _, _, _, h, _⟩ := contLen_eq_succ hlen
  cases h

theorem unescape_escapeSeg {seg : Seg} (hseg : ∀ r, seg = .rune r → IsRune r) (rest : Bytes) :
    unescape (escapeSeg seg ++ rest) = (unescape rest).map (seg.bytes ++ ·) := by
  unfold escapeSeg
  split
  · exact unescape_number (r := 0xfffd) rfl (by decide) rest
  · rename_i b
    exact unescape_escapeByte (ascii_of_isRune_singleton (hseg _ rfl)) rest
  · rename_i r hlong
    have hr := hseg r rfl
    split
    · rename_i heq
      subst heq
      exact unescape_number (r := 0x2028) rfl (by decide) rest
    · split
      · rename_i heq
        subst heq
        exact unescape_number (r := 0x2029) rfl (by decide) rest
      · refine unescape_not_ascii (not_ascii_of_isRune hr ?_) rest
        intro hone
        obtain ⟨b, rfl⟩ := length_eq_one_iff.mp hone
        exact hlong b rfl

theorem unescape_segs (l : List Seg) (hl : ∀ r, Seg.rune r ∈ l → IsRune r) :
    unescape (l.flatMap escapeSeg) = some (l.flatMap Seg.bytes) := by
  induction l with
  | nil => rfl
  | cons seg l ih =>
    have ih := ih fun r hr => hl r (mem_cons_of_mem seg hr)
    rw [flatMap_cons, unescape_escapeSeg, ih]
    · rfl
    · rintro r rfl
      exact hl r mem_cons_self

/-- **A string is read back as it was written, up to the coercion.** -/
theorem unquote_escape (s : Bytes) : unquote (escape s) = some (coerce s) := by
  rw [unquote, escape, unescape_segs _ fun r => isRune_of_mem_segs]
  exact congrArg some (coerce_coerce s)

end GbfCore.Json
