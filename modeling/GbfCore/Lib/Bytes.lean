import Mathlib

/-!
# Byte strings

Byte strings are lists of octets: what the proofs take apart are prefixes and
suffixes, and every length is a `Nat`. The module has the three pieces any
length-prefixed binary format needs:

- big-endian integers of a given width (`beEncode`, `beDecode`), with the
  round trip modulo the width;
- lower-case hexadecimal text (`hexEncode`), which is injective;
- cutting a string into consecutive pieces of one size, the last one possibly
  short (`pieceAt`, `pieces`), with the fact that the pieces put together give
  the string back.
-/

namespace GbfCore

open List Nat

variable {c i n : Nat} {p : Bytes}

/-- A byte string; file contents, wire data and file names alike. -/
abbrev Bytes := List UInt8

-- Instances by name, so that a definition that needs one has no proof of its own for it.
instance : LawfulBEq Bytes := inferInstance

instance isPreorder_uint8 : Std.IsPreorder UInt8 := inferInstance

instance : Std.Irrefl (α := Bytes) (· < ·) := inferInstance

instance : Std.Trichotomous (α := Bytes) (· < ·) := inferInstance

/-! ## Big-endian integers -/

/-- The low `w` bytes of `n`, most significant first. -/
def beEncode : Nat → Nat → Bytes
  | 0, _ => []
  | w + 1, n => UInt8.ofNat (n / 256 ^ w) :: beEncode w n

/-- The number that a byte string spells in base 256, most significant first. -/
def beDecode : Bytes → Nat
  | [] => 0
  | b :: bs => b.toNat * 256 ^ bs.length + beDecode bs

@[simp] theorem length_beEncode : ∀ w n : Nat, (beEncode w n).length = w
  | 0, _ => rfl
  | w + 1, n => by rw [beEncode, length_cons, length_beEncode w n]

/-- A number that fits the width is read back as it was written. -/
theorem beDecode_beEncode : ∀ {w n : Nat}, n < 256 ^ w → beDecode (beEncode w n) = n
  | 0, n, h => by
    have : n = 0 := by simpa using h
    rw [this]
    rfl
  | w + 1, n, h => by
    have hpos : 0 < 256 ^ w := Nat.pow_pos (by decide)
    -- only the top byte depends on more than the low `w` bytes
    have hlow : beEncode w n = beEncode w (n % 256 ^ w) := beEncode_mod w n
    have htop : (UInt8.ofNat (n / 256 ^ w)).toNat = n / 256 ^ w := by
      have hlt : n / 256 ^ w < 256 := Nat.div_lt_of_lt_mul h
      simp [mod_eq_of_lt hlt]
    rw [beEncode, beDecode, htop, length_beEncode, hlow,
      beDecode_beEncode (mod_lt n hpos), mul_comm, div_add_mod]
where
  /-- Only the low `w` bytes of the number are written. -/
  beEncode_mod : ∀ w n : Nat, beEncode w n = beEncode w (n % 256 ^ w)
    | 0, _ => rfl
    | w + 1, n => by
      have hdvd : 256 ^ w ∣ 256 ^ (w + 1) := pow_dvd_pow 256 (le_succ w)
      have hdiv : n % 256 ^ (w + 1) / 256 ^ w = n / 256 ^ w % 256 := by
        rw [pow_succ, mod_mul_right_div_self]
      have hbyte : UInt8.ofNat (n / 256 ^ w) = UInt8.ofNat (n / 256 ^ w % 256) :=
        UInt8.toNat_inj.mp (by simp)
      rw [beEncode, beEncode, hdiv, hbyte, beEncode_mod w n,
        beEncode_mod w (n % 256 ^ (w + 1)), mod_mod_of_dvd n hdvd]

/-! ## Hexadecimal text -/

/-- The lower-case hexadecimal digit of a number below 16. -/
def hexDigit (n : Nat) : UInt8 :=
  if n < 10 then UInt8.ofNat (48 + n) else UInt8.ofNat (87 + n)

/-- Two lower-case hexadecimal digits for each byte. -/
def hexEncode (bs : Bytes) : Bytes :=
  bs.flatMap fun b => [hexDigit (b.toNat / 16), hexDigit (b.toNat % 16)]

theorem hexDigit_inj {m : Nat} (hm : m < 16) (hn : n < 16) (h : hexDigit m = hexDigit n) :
    m = n := by
  have key : ∀ m < 16, ∀ n < 16, hexDigit m = hexDigit n → m = n := by decide
  exact key m hm n hn h

/-- Different byte strings have different hexadecimal texts. -/
theorem hexEncode_inj {a b : Bytes} (h : hexEncode a = hexEncode b) : a = b := by
  induction a generalizing b with
  | nil =>
    cases b with
    | nil => rfl
    | cons y b => simp [hexEncode] at h
  | cons x a ih =>
    cases b with
    | nil => simp [hexEncode] at h
    | cons y b =>
      simp only [hexEncode, flatMap_cons, cons_append, nil_append,
        List.cons.injEq] at h
      obtain ⟨hhi, hlo, hrest⟩ := h
      have hx := x.toNat_lt
      have hy := y.toNat_lt
      have hhi' := hexDigit_inj (by omega) (by omega) hhi
      have hlo' := hexDigit_inj (by omega) (by omega) hlo
      have hxy : x = y := UInt8.toNat_inj.mp (by omega)
      rw [hxy, ih hrest]

/-! ## Text -/

/-- The bytes of an ASCII string. -/
def ascii (s : String) : Bytes :=
  s.toList.map fun c => UInt8.ofNat c.toNat

/-- A backslash. -/
def backslash : UInt8 := 0x5c

/-- A colon. -/
def colon : UInt8 := 0x3a

/-! ## Consecutive pieces of one size -/

/-- The number of pieces of size `c` that `n` bytes are cut into. -/
def pieceCount (c n : Nat) : Nat :=
  (n + c - 1) / c

/-- Piece `i` of size `c`: the bytes from `i * c` on, at most `c` of them. -/
def pieceAt (c : Nat) (p : Bytes) (i : Nat) : Bytes :=
  (p.drop (i * c)).take c

/-- All pieces of size `c` in order. -/
def pieces (c : Nat) (p : Bytes) : List Bytes :=
  (List.range (pieceCount c p.length)).map (pieceAt c p)

theorem length_pieceAt_le (c : Nat) (p : Bytes) (i : Nat) : (pieceAt c p i).length ≤ c := by
  rw [pieceAt, length_take]
  exact min_le_left _ _

/-- The first `k` pieces together are the first `k * c` bytes. -/
theorem flatten_pieceAt_range (c : Nat) (p : Bytes) (k : Nat) :
    ((List.range k).map (pieceAt c p)).flatten = p.take (k * c) := by
  induction k with
  | zero => simp
  | succ k ih =>
    rw [range_succ, map_append, flatten_append, ih]
    simp only [map_cons, map_nil, flatten_cons, flatten_nil,
      append_nil, pieceAt]
    rw [succ_mul, take_add]

theorem le_pieceCount_mul (hc : 0 < c) (n : Nat) : n ≤ pieceCount c n * c := by
  have hdiv := div_add_mod (n + c - 1) c
  have hmod := mod_lt (n + c - 1) hc
  rw [mul_comm] at hdiv
  unfold pieceCount
  omega

/-- **The pieces put together are the string.** -/
theorem flatten_pieces (hc : 0 < c) (p : Bytes) : (pieces c p).flatten = p := by
  rw [pieces, flatten_pieceAt_range, take_of_length_le (le_pieceCount_mul hc _)]

/-- Every piece but those past the end starts inside the string. -/
theorem mul_lt_of_lt_pieceCount (hc : 0 < c) (hi : i < pieceCount c n) :
    i * c < n := by
  have h : (i + 1) * c ≤ n + c - 1 := by
    have := mul_le_mul_right c (show i + 1 ≤ pieceCount c n from hi)
    have hle := div_mul_le_self (n + c - 1) c
    unfold pieceCount at this
    omega
  rw [succ_mul] at h
  omega

theorem pieceAt_ne_nil (hc : 0 < c) (hi : i < pieceCount c p.length) :
    pieceAt c p i ≠ [] := by
  have := mul_lt_of_lt_pieceCount hc hi
  intro h
  have hlen := congrArg List.length h
  simp only [pieceAt, length_take, length_drop, length_nil] at hlen
  omega

/-- Every piece but the last one is full. -/
theorem length_pieceAt (hc : 0 < c) (hi : i + 1 < pieceCount c p.length) :
    (pieceAt c p i).length = c := by
  have := mul_lt_of_lt_pieceCount hc hi
  rw [succ_mul] at this
  simp only [pieceAt, length_take, length_drop]
  omega

/-- Dropping the first piece leaves one piece less. -/
theorem pieceCount_drop (hc : 0 < c) (h : pieceCount c p.length = n + 1) :
    pieceCount c (p.drop c).length = n := by
  have hlt : n * c < p.length := mul_lt_of_lt_pieceCount hc (by omega)
  rw [length_drop]
  rcases le_total c p.length with hle | hle
  · have hsum : p.length + c - 1 = (p.length - c + c - 1) + c := by omega
    rw [pieceCount, hsum, add_div_right _ hc] at h
    exact succ.inj h
  · have hn : n = 0 := by
      by_contra hn
      have := mul_le_mul_right c (pos_of_ne_zero hn)
      omega
    rw [hn, Nat.sub_eq_zero_of_le hle, pieceCount]
    exact div_eq_of_lt (by omega)

/-- The pieces of a non-empty string, one at a time. -/
theorem pieceAt_succ (c : Nat) (p : Bytes) (i : Nat) :
    pieceAt c p (i + 1) = pieceAt c (p.drop c) i := by
  simp only [pieceAt, drop_drop]
  rw [succ_mul, add_comm]

theorem pieces_nil (hc : 0 < c) : pieces c [] = [] := by
  have hcount : pieceCount c 0 = 0 := div_eq_of_lt (by omega)
  rw [pieces, length_nil, hcount]
  rfl

theorem pieces_of_ne_nil (hc : 0 < c) (hp : p ≠ []) :
    pieces c p = p.take c :: pieces c (p.drop c) := by
  cases hcount : pieceCount c p.length with
  | zero =>
    have hle := le_pieceCount_mul hc p.length
    rw [hcount, zero_mul] at hle
    exact absurd (eq_nil_of_length_eq_zero (le_zero.mp hle)) hp
  | succ n =>
    rw [pieces, pieces, hcount, pieceCount_drop hc hcount, range_succ_eq_map, map_cons,
      map_map]
    congr 1
    · rw [pieceAt, zero_mul, drop_zero]
    · exact map_congr_left fun i _ => pieceAt_succ c p i

theorem ne_nil_of_mem_pieces (hc : 0 < c) {d : Bytes} (h : d ∈ pieces c p) :
    d ≠ [] := by
  obtain ⟨i, hi, rfl⟩ := mem_map.mp h
  exact pieceAt_ne_nil hc (mem_range.mp hi)

theorem length_le_of_mem_pieces {d : Bytes} (h : d ∈ pieces c p) : d.length ≤ c := by
  obtain ⟨i, -, rfl⟩ := mem_map.mp h
  exact length_pieceAt_le c p i

end GbfCore
