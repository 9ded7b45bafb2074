import GbfCore.Lib.Bytes

/-!
# Base64

The encodings of `encoding/base64`, as it writes and reads them: line ends are ignored wherever
they are, and so are unused bits at the end. The standard encoding is padded. The raw encoding
for URLs has two other characters and no padding.
-/

namespace GbfCore

open List Option UInt8

variable {n x y z : Nat} {s : Bytes} {a b c d : UInt8}

/-- A line end. -/
def isLineEnd (c : UInt8) : Bool := c == 0x0a || c == 0x0d

/-- `Encoding`: the character of six bits, the six bits of a character, and the padding. -/
structure Encoding where
  char : Nat → UInt8
  value : UInt8 → Option Nat
  pad : Option UInt8
  value_char : ∀ n < 64, value (char n) = some n
  value_pad : ∀ c ∈ pad, value c = none
  not_lineEnd : ∀ c ∈ pad, isLineEnd c = false
  char_not_lineEnd : ∀ n < 64, isLineEnd (char n) = false

namespace Encoding

variable (e : Encoding)

/-- What a text is filled up with. -/
def padding (n : Nat) : Bytes := e.pad.toList.flatMap (replicate n)

/-- `EncodeToString`. -/
def encode : Bytes → Bytes
  | a :: b :: c :: rest =>
    let n := a.toNat * 65536 + b.toNat * 256 + c.toNat
    e.char (n / 262144) :: e.char (n / 4096 % 64) :: e.char (n / 64 % 64) :: e.char (n % 64) ::
      encode rest
  | [a, b] =>
    let n := a.toNat * 65536 + b.toNat * 256
    e.char (n / 262144) :: e.char (n / 4096 % 64) :: e.char (n / 64 % 64) :: e.padding 1
  | [a] =>
    let n := a.toNat * 65536
    e.char (n / 262144) :: e.char (n / 4096 % 64) :: e.padding 2
  | [] => []

/-- Groups of four characters; the last one can have two or three and its padding. -/
def quads : Bytes → Option Bytes
  | [] => some []
  | [_] => none
  | a :: b :: rest =>
    match e.value a, e.value b with
    | some x, some y =>
      if rest = e.padding 2 then some [ofNat ((x * 262144 + y * 4096) / 65536)]
      else
        match rest with
        | [] => none
        | c :: rest =>
          match e.value c with
          | none => none
          | some z =>
            let n := x * 262144 + y * 4096 + z * 64
            if rest = e.padding 1 then some [ofNat (n / 65536), ofNat (n / 256 % 256)]
            else
              match rest with
              | [] => none
              | d :: rest =>
                match e.value d with
                | none => none
                | some w =>
                  (quads rest).map fun tail =>
                    ofNat ((n + w) / 65536) :: ofNat ((n + w) / 256 % 256) ::
                      ofNat ((n + w) % 256) :: tail
    | _, _ => none

/-- `DecodeString`. -/
def decode (s : Bytes) : Option Bytes := e.quads (s.filter fun c => !isLineEnd c)

variable {e}

/-- What holds of every character of the alphabet and of the padding holds of a text. -/
theorem forall_mem_encode {p : UInt8 → Prop} (hchar : ∀ n < 64, p (e.char n))
    (hpad : ∀ c ∈ e.pad, p c) : ∀ c ∈ e.encode s, p c := by
  have hpadding : ∀ n, ∀ c ∈ e.padding n, p c := by
    intro n c hc
    obtain ⟨q, hq, hc⟩ := mem_flatMap.mp hc
    rw [eq_of_mem_replicate hc]
    exact hpad q (mem_toList.mp hq)
  induction s using encode.induct with
  | case1 a b d rest ih =>
    have ha := a.toNat_lt
    have hb := b.toNat_lt
    have hd := d.toNat_lt
    simp only [encode, forall_mem_cons]
    exact ⟨hchar _ (by omega), hchar _ (by omega), hchar _ (by omega), hchar _ (by omega), ih⟩
  | case2 a b =>
    have ha := a.toNat_lt
    have hb := b.toNat_lt
    simp only [encode, forall_mem_cons]
    exact ⟨hchar _ (by omega), hchar _ (by omega), hchar _ (by omega), hpadding 1⟩
  | case3 a =>
    have ha := a.toNat_lt
    simp only [encode, forall_mem_cons]
    exact ⟨hchar _ (by omega), hchar _ (by omega), hpadding 2⟩
  | case4 => exact forall_mem_nil _

theorem ofNat_of_eq (h : n = a.toNat) : UInt8.ofNat n = a := by
  rw [h, UInt8.ofNat_toNat]

/-- No padding begins with a character of the alphabet. -/
theorem ne_padding (ha : e.value a = some x) (n : Nat) (rest : Bytes) :
    a :: rest ≠ e.padding n := by
  intro heq
  obtain ⟨q, hq, hmem⟩ := mem_flatMap.mp (heq ▸ mem_cons_self : a ∈ e.padding n)
  rw [eq_of_mem_replicate hmem, e.value_pad q (mem_toList.mp hq)] at ha
  cases ha

section
variable (ha : e.value a = some x) (hb : e.value b = some y)
include ha hb

theorem quads_two :
    e.quads (a :: b :: e.padding 2) = some [ofNat ((x * 262144 + y * 4096) / 65536)] := by
  rw [quads, ha, hb]
  exact if_pos rfl

variable (hc : e.value c = some z)
include hc

theorem quads_three :
    e.quads (a :: b :: c :: e.padding 1) =
      some [ofNat ((x * 262144 + y * 4096 + z * 64) / 65536),
        ofNat ((x * 262144 + y * 4096 + z * 64) / 256 % 256)] := by
  rw [quads, ha, hb]
  dsimp only
  rw [if_neg (ne_padding hc 2 _), hc]
  exact if_pos rfl

theorem quads_cons {w : Nat} (hd : e.value d = some w) (rest : Bytes) :
    e.quads (a :: b :: c :: d :: rest) =
      (e.quads rest).map fun tail =>
        ofNat ((x * 262144 + y * 4096 + z * 64 + w) / 65536) ::
          ofNat ((x * 262144 + y * 4096 + z * 64 + w) / 256 % 256) ::
          ofNat ((x * 262144 + y * 4096 + z * 64 + w) % 256) :: tail := by
  rw [quads, ha, hb]
  dsimp only
  rw [if_neg (ne_padding hc 2 _), hc]
  dsimp only
  rw [if_neg (ne_padding hd 1 _), hd]

end

theorem quads_encode (s : Bytes) : e.quads (e.encode s) = some s := by
  induction s using encode.induct with
  | case1 a b c rest ih =>
    have ha := a.toNat_lt
    have hb := b.toNat_lt
    have hc := c.toNat_lt
    rw [encode, quads_cons (e.value_char _ (by omega)) (e.value_char _ (by omega))
      (e.value_char _ (by omega)) (e.value_char _ (by omega)), ih, map_some,
      ofNat_of_eq (a := a) (by omega), ofNat_of_eq (a := b) (by omega),
      ofNat_of_eq (a := c) (by omega)]
  | case2 a b =>
    have ha := a.toNat_lt
    have hb := b.toNat_lt
    rw [encode, quads_three (e.value_char _ (by omega)) (e.value_char _ (by omega))
      (e.value_char _ (by omega)), ofNat_of_eq (a := a) (by omega), ofNat_of_eq (a := b) (by omega)]
  | case3 a =>
    have ha := a.toNat_lt
    rw [encode, quads_two (e.value_char _ (by omega)) (e.value_char _ (by omega)),
      ofNat_of_eq (a := a) (by omega)]
  | case4 => rfl

theorem decode_of_no_lineEnd (h : ∀ c ∈ s, isLineEnd c = false) : e.decode s = e.quads s := by
  rw [decode, filter_eq_self.mpr fun c hc => by rw [h c hc]; rfl]

/-- **What was encoded is decoded.** -/
theorem decode_encode (s : Bytes) : e.decode (e.encode s) = some s := by
  rw [decode_of_no_lineEnd (forall_mem_encode e.char_not_lineEnd e.not_lineEnd), quads_encode]

end Encoding

/-! ## The standard encoding -/

/-- The character of six bits. -/
def base64Char (n : Nat) : UInt8 :=
  if n < 26 then ofNat (0x41 + n)
  else if n < 52 then ofNat (0x61 + (n - 26))
  else if n < 62 then ofNat (0x30 + (n - 52))
  else if n = 62 then 0x2b
  else 0x2f

/-- The six bits of a character. -/
def base64Value (c : UInt8) : Option Nat :=
  if 0x41 ≤ c ∧ c ≤ 0x5a then some (c.toNat - 0x41)
  else if 0x61 ≤ c ∧ c ≤ 0x7a then some (c.toNat - 0x61 + 26)
  else if 0x30 ≤ c ∧ c ≤ 0x39 then some (c.toNat - 0x30 + 52)
  else if c = 0x2b then some 62
  else if c = 0x2f then some 63
  else none

/-- `StdEncoding`, padded with `=`. -/
def stdEncoding : Encoding where
  char := base64Char
  value := base64Value
  pad := some 0x3d
  value_char := by decide
  value_pad := by
    rintro _ ⟨⟩
    rfl
  not_lineEnd := by
    rintro _ ⟨⟩
    rfl
  char_not_lineEnd := by decide

def base64Encode (s : Bytes) : Bytes := stdEncoding.encode s

def base64Decode (s : Bytes) : Option Bytes := stdEncoding.decode s

theorem base64Decode_encode (s : Bytes) : base64Decode (base64Encode s) = some s :=
  Encoding.decode_encode s

example : base64Decode (ascii "TWE=\n") = some (ascii "Ma") := by decide

/-- The characters of a text are ASCII. -/
theorem mem_base64Encode : ∀ c ∈ base64Encode s, c < 0x80 := by
  refine Encoding.forall_mem_encode (by decide) ?_
  rintro _ ⟨⟩
  decide

theorem base64Encode_ne_nil (h : s ≠ []) : base64Encode s ≠ [] := by
  intro hnil
  have hdecode := base64Decode_encode s
  rw [hnil] at hdecode
  exact h (Option.some.inj hdecode).symm

/-! ## For URLs, without padding -/

/-- The character of six bits in a URL. -/
def base64URLChar (n : Nat) : UInt8 :=
  if n = 62 then 0x2d else if n = 63 then 0x5f else base64Char n

/-- The six bits of a character in a URL. -/
def base64URLValue (c : UInt8) : Option Nat :=
  if c = 0x2d then some 62
  else if c = 0x5f then some 63
  else if c = 0x2b ∨ c = 0x2f then none
  else base64Value c

/-- `RawURLEncoding`. -/
def rawURLEncoding : Encoding :=
  ⟨base64URLChar, base64URLValue, none, by decide, nofun, nofun, by decide⟩

def rawURLEncode (s : Bytes) : Bytes := rawURLEncoding.encode s

def rawURLDecode (s : Bytes) : Option Bytes := rawURLEncoding.decode s

theorem rawURLDecode_encode (s : Bytes) : rawURLDecode (rawURLEncode s) = some s :=
  Encoding.decode_encode s

/-- A letter, a digit, `-` or `_`. -/
def isURLChar (c : UInt8) : Bool :=
  decide (0x41 ≤ c ∧ c ≤ 0x5a) || decide (0x61 ≤ c ∧ c ≤ 0x7a) || decide (0x30 ≤ c ∧ c ≤ 0x39) ||
    c == 0x2d || c == 0x5f

/-- The characters of a text. -/
theorem isURLChar_of_mem : ∀ c ∈ rawURLEncode s, isURLChar c = true :=
  Encoding.forall_mem_encode (by decide) nofun

/-- A character is read back from its six bits. -/
theorem base64URLValue_spec (h : isURLChar c = true) :
    ∃ n < 64, base64URLValue c = some n ∧ base64URLChar n = c := by
  have hall : ∀ k < 256, isURLChar (UInt8.ofNat k) = true →
      ∃ n < 64, base64URLValue (UInt8.ofNat k) = some n ∧ base64URLChar n = UInt8.ofNat k := by
    decide +kernel
  have hc := hall c.toNat c.toNat_lt
  rw [UInt8.ofNat_toNat] at hc
  exact hc h

/-- A whole group of characters is encoded as it was. -/
theorem rawURLEncode_of_decode (h : ∀ x ∈ [a, b, c, d], isURLChar x = true)
    (hs : rawURLDecode [a, b, c, d] = some s) :
    rawURLEncode s = [a, b, c, d] := by
  have hlines : ∀ x ∈ [a, b, c, d], isLineEnd x = false := by
    intro x hx
    obtain ⟨n, hn, -, rfl⟩ := base64URLValue_spec (h x hx)
    exact rawURLEncoding.char_not_lineEnd n hn
  rw [rawURLDecode, Encoding.decode_of_no_lineEnd hlines] at hs
  obtain ⟨x, hx, hxa, rfl⟩ := base64URLValue_spec (h a (by simp))
  obtain ⟨y, hy, hyb, rfl⟩ := base64URLValue_spec (h b (by simp))
  obtain ⟨z, hz, hzc, rfl⟩ := base64URLValue_spec (h c (by simp))
  obtain ⟨w, hw, hwd, rfl⟩ := base64URLValue_spec (h d (by simp))
  rw [Encoding.quads_cons hxa hyb hzc hwd] at hs
  cases hs
  simp only [rawURLEncode, Encoding.encode, toNat_ofNat']
  refine cons_eq_cons.mpr ⟨congrArg base64URLChar (by omega), cons_eq_cons.mpr
    ⟨congrArg base64URLChar (by omega), cons_eq_cons.mpr
      ⟨congrArg base64URLChar (by omega), cons_eq_cons.mpr
        ⟨congrArg base64URLChar (by omega), rfl⟩⟩⟩⟩

end GbfCore
