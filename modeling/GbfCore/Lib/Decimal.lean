import GbfCore.Lib.Bytes

/-!
# Decimal text

Integers as decimal text and back, with the ranges of the machine types:

- `natText`, `intText`: what `strconv.AppendInt` writes; `padText`: a number with
  leading zeros;
- `parseUint`, `parseInt64`: what `strconv` reads, with its signs and limits.

A number that fits its type is read back as it was written.
-/

namespace GbfCore

open List Option Nat Int

/-- An ASCII digit. -/
def isDigit (b : UInt8) : Bool := decide (0x30 ≤ b) && decide (b ≤ 0x39)

/-- The digit of a number below ten. -/
def digitByte (d : Nat) : UInt8 := UInt8.ofNat (48 + d)

/-- The decimal text of a natural number. -/
def natText (n : Nat) : Bytes :=
  if n = 0 then [0x30] else (digits 10 n).reverse.map digitByte

/-- A minus sign. -/
def minus : UInt8 := 0x2d

/-- The decimal text of an integer. -/
def intText : Int → Bytes
  | .ofNat n => natText n
  | .negSucc n => minus :: natText (n + 1)

/-- The text of a number, with zeros in front up to a width. -/
def padText (w n : Nat) : Bytes :=
  List.replicate (w - (natText n).length) 0x30 ++ natText n

/-- Read digits on from a number. -/
def parseDigits : Nat → Bytes → Option Nat
  | acc, [] => some acc
  | acc, b :: rest => if isDigit b then parseDigits (acc * 10 + (b.toNat - 48)) rest else none

/-- `strconv.ParseUint(s, 10, w)`. -/
def parseUint (w : Nat) (s : Bytes) : Option Nat :=
  if s = [] then none else (parseDigits 0 s).filter (· < 2 ^ w)

/-- `strconv.ParseInt(s, 10, 64)`. -/
def parseInt64 : Bytes → Option Int
  | 0x2d :: ds =>
    if ds = [] then none
    else ((parseDigits 0 ds).filter (· ≤ 2 ^ 63)).map fun n : Nat => -(n : Int)
  | 0x2b :: ds => (parseUint 63 ds).map ofNat
  | ds => (parseUint 63 ds).map ofNat

/-! ## Reading what was written -/

theorem isDigit_digitByte {d : Nat} (hd : d < 10) : isDigit (digitByte d) = true := by
  have key : ∀ d < 10, isDigit (digitByte d) = true := by decide
  exact key d hd

theorem toNat_digitByte {d : Nat} (hd : d < 10) : (digitByte d).toNat - 48 = d := by
  have key : ∀ d < 10, (digitByte d).toNat - 48 = d := by decide
  exact key d hd

theorem parseDigits_append {a : Bytes} : ∀ {acc n : Nat}, parseDigits acc a = some n →
    ∀ b : Bytes, parseDigits acc (a ++ b) = parseDigits n b := by
  induction a with
  | nil =>
    intro acc n h b
    cases h
    rfl
  | cons x a ih =>
    intro acc n h b
    rw [parseDigits] at h
    split at h
    · rename_i hx
      rw [cons_append, parseDigits, if_pos hx]
      exact ih h b
    · cases h

/-- The digits of a number, the most significant first, spell the number. -/
theorem parseDigits_digits (ds : List Nat) (hds : ∀ d ∈ ds, d < 10) :
    parseDigits 0 (ds.reverse.map digitByte) = some (ofDigits 10 ds) := by
  induction ds with
  | nil => rfl
  | cons d ds ih =>
    have hd : d < 10 := hds d mem_cons_self
    have ih := ih fun e he => hds e (mem_cons_of_mem d he)
    rw [reverse_cons, map_append, parseDigits_append ih, map_singleton, parseDigits,
      if_pos (isDigit_digitByte hd), toNat_digitByte hd, parseDigits, ofDigits_cons]
    rw [mul_comm, add_comm]

theorem parseDigits_natText (n : Nat) : parseDigits 0 (natText n) = some n := by
  unfold natText
  split
  · rename_i hn
    rw [hn]
    rfl
  · rw [parseDigits_digits _ fun d hd => digits_lt_base (by decide) hd, ofDigits_digits]

theorem parseDigits_padText (w n : Nat) : parseDigits 0 (padText w n) = some n := by
  have hzeros : ∀ k, parseDigits 0 (List.replicate k 0x30) = some 0 := by
    intro k
    induction k with
    | zero => rfl
    | succ k ih => exact ih
  rw [padText, parseDigits_append (hzeros _), parseDigits_natText]

theorem isDigit_natText (n : Nat) : ∀ b ∈ natText n, isDigit b = true := by
  unfold natText
  split
  · simp [isDigit]
  · intro b hb
    obtain ⟨d, hd, rfl⟩ := mem_map.mp hb
    exact isDigit_digitByte (digits_lt_base (by decide) (mem_reverse.mp hd))

theorem natText_ne_nil (n : Nat) : natText n ≠ [] := by
  unfold natText
  split
  · exact cons_ne_nil _ _
  · rename_i hn
    intro h
    rw [map_eq_nil_iff, reverse_eq_nil_iff] at h
    exact digits_ne_nil_iff_ne_zero.mpr hn h

/-- The text of a positive number does not begin with a zero. -/
theorem natText_head {n : Nat} (hn : n ≠ 0) :
    ∃ b rest, natText n = b :: rest ∧ isDigit b = true ∧ b ≠ 0x30 := by
  have hne : digits 10 n ≠ [] := digits_ne_nil_iff_ne_zero.mpr hn
  have hlast := getLast_digit_ne_zero 10 hn
  have hlt : (digits 10 n).getLast hne < 10 :=
    digits_lt_base (by decide) (getLast_mem hne)
  refine ⟨digitByte ((digits 10 n).getLast hne),
    (digits 10 n).dropLast.reverse.map digitByte, ?_, isDigit_digitByte hlt, ?_⟩
  · rw [natText, if_neg hn, ← map_cons, ← reverse_concat',
      dropLast_append_getLast hne]
  · have key : ∀ d < 10, d ≠ 0 → digitByte d ≠ 0x30 := by decide
    exact key _ hlt hlast

theorem parseUint_natText {w n : Nat} (hn : n < 2 ^ w) : parseUint w (natText n) = some n := by
  rw [parseUint, if_neg (natText_ne_nil n), parseDigits_natText,
    filter_some, if_pos (decide_eq_true hn)]

theorem parseInt64_bounds {s : Bytes} {i : Int} (h : parseInt64 s = some i) :
    -2 ^ 63 ≤ i ∧ i < 2 ^ 63 := by
  have hpos : ∀ {ds : Bytes}, (parseUint 63 ds).map ofNat = some i →
      -2 ^ 63 ≤ i ∧ i < 2 ^ 63 := by
    intro ds hds
    obtain ⟨n, hn, rfl⟩ := map_eq_some_iff.mp hds
    obtain ⟨-, hn⟩ := ite_none_left_eq_some.mp hn
    have hlt : n < 2 ^ 63 := of_decide_eq_true (filter_eq_some_iff.mp hn).2
    constructor <;> simp only [ofNat_eq_natCast] <;> omega
  unfold parseInt64 at h
  split at h
  · obtain ⟨-, h⟩ := ite_none_left_eq_some.mp h
    obtain ⟨n, hn, rfl⟩ := map_eq_some_iff.mp h
    have hle : n ≤ 2 ^ 63 := of_decide_eq_true (filter_eq_some_iff.mp hn).2
    omega
  · exact hpos h
  · exact hpos h

/-- The first byte of an unsigned number is no sign. -/
theorem parseInt64_natText {n : Nat} (hn : n < 2 ^ 63) :
    parseInt64 (natText n) = some (ofNat n) := by
  obtain ⟨b, rest, hb⟩ := exists_cons_of_ne_nil (natText_ne_nil n)
  have hdigit : isDigit b = true := isDigit_natText n b (by rw [hb]; exact mem_cons_self)
  have hminus : b ≠ 0x2d := by
    rintro rfl
    cases hdigit
  have hplus : b ≠ 0x2b := by
    rintro rfl
    cases hdigit
  have hparse : parseInt64 (b :: rest) = (parseUint 63 (b :: rest)).map ofNat := by
    unfold parseInt64
    split
    · rename_i h
      exact absurd (List.cons.inj h).1 hminus
    · rename_i h
      exact absurd (List.cons.inj h).1 hplus
    · rfl
  rw [hb, hparse, ← hb, parseUint_natText hn]
  rfl

/-- **A 64-bit integer is read back as it was written.** -/
theorem parseInt64_intText {i : Int} (hlo : -2 ^ 63 ≤ i) (hhi : i < 2 ^ 63) :
    parseInt64 (intText i) = some i := by
  cases i with
  | ofNat n => exact parseInt64_natText (Int.ofNat_lt.mp hhi)
  | negSucc n =>
    have hn : n + 1 ≤ 2 ^ 63 := by omega
    show parseInt64 (0x2d :: natText (n + 1)) = _
    rw [parseInt64, if_neg (natText_ne_nil _), parseDigits_natText,
      filter_some, if_pos (decide_eq_true hn), map_some, negSucc_eq,
      natCast_succ]

theorem digit_lt {b : UInt8} (h : isDigit b = true) : b.toNat - 48 < 10 := by
  rw [isDigit, Bool.and_eq_true, decide_eq_true_eq, decide_eq_true_eq, UInt8.le_iff_toNat_le,
    UInt8.le_iff_toNat_le] at h
  have hhi : b.toNat ≤ 57 := h.2
  omega

/-- The size of a number by the number of its digits. -/
theorem parseDigits_lt {ds : Bytes} : ∀ {acc n : Nat}, parseDigits acc ds = some n →
    n < (acc + 1) * 10 ^ ds.length := by
  induction ds with
  | nil =>
    intro acc n h
    cases h
    simp
  | cons b rest ih =>
    intro acc n h
    rw [parseDigits] at h
    split at h
    · rename_i hb
      have hlt := ih h
      have hd := digit_lt hb
      calc n < (acc * 10 + (b.toNat - 48) + 1) * 10 ^ rest.length := hlt
        _ ≤ ((acc + 1) * 10) * 10 ^ rest.length := mul_le_mul_right _ (by omega)
        _ = (acc + 1) * 10 ^ (b :: rest).length := by
          rw [mul_assoc, length_cons, pow_succ']
    · cases h

theorem natText_inj {n n' : Nat} (h : natText n = natText n') : n = n' := by
  have hparse := parseDigits_natText n
  rw [h, parseDigits_natText] at hparse
  exact (Option.some.inj hparse).symm

theorem intText_inj {i j : Int} (h : intText i = intText j) : i = j := by
  have hminus : ∀ {n : Nat} {rest : Bytes}, natText n ≠ minus :: rest := by
    intro n rest heq
    have hdigit := isDigit_natText n minus (heq ▸ mem_cons_self)
    exact absurd hdigit (by decide)
  cases i with
  | ofNat n =>
    cases j with
    | ofNat n' => exact congrArg ofNat (natText_inj h)
    | negSucc n' => exact absurd h hminus
  | negSucc n =>
    cases j with
    | ofNat n' => exact absurd h.symm hminus
    | negSucc n' => exact congrArg negSucc (succ.inj (natText_inj (List.cons.inj h).2))

end GbfCore
