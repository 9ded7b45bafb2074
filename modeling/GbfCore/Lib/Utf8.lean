import GbfCore.Lib.Bytes

/-!
# UTF-8

A string is any byte string; reading it as UTF-8 cuts it into segments, each a
well-formed rune or a byte that starts none (`segs`, the iteration of
`utf8.DecodeRune`). `coerce` replaces the latter by U+FFFD. Its result is always
well formed, and it changes exactly the strings that are not (`validString_iff`).
-/

namespace GbfCore

open List Nat UInt8

variable {b : UInt8} {r rest s : Bytes}

/-- What follows a lead byte: the bounds of the first continuation byte, and the
number of those after it. The bounds exclude overlong forms, surrogates and numbers
above U+10FFFF. -/
def runeLead (b : UInt8) : Option (UInt8 × UInt8 × Nat) :=
  if b < 0xc2 then none
  else if b ≤ 0xdf then some (0x80, 0xbf, 0)
  else if b = 0xe0 then some (0xa0, 0xbf, 1)
  else if b = 0xed then some (0x80, 0x9f, 1)
  else if b ≤ 0xef then some (0x80, 0xbf, 1)
  else if b = 0xf0 then some (0x90, 0xbf, 2)
  else if b ≤ 0xf3 then some (0x80, 0xbf, 2)
  else if b = 0xf4 then some (0x80, 0x8f, 2)
  else none

/-- A continuation byte. -/
def isCont (b : UInt8) : Bool := decide (0x80 ≤ b) && decide (b ≤ 0xbf)

/-- The length of a rune with this lead byte, zero if the bytes after it do not
continue it. -/
def contLen : Option (UInt8 × UInt8 × Nat) → Bytes → Nat
  | some (lo, hi, n), b :: tail =>
    if lo ≤ b ∧ b ≤ hi ∧ n ≤ tail.length ∧ (tail.take n).all isCont then n + 2 else 0
  | _, _ => 0

/-- The length of the rune a string starts with, zero if it starts with none. -/
def runeLen : Bytes → Nat
  | [] => 0
  | b :: rest => if b < 0x80 then 1 else contLen (runeLead b) rest

/-- A string that is one rune. -/
def IsRune (r : Bytes) : Prop := r ≠ [] ∧ runeLen r = r.length

instance (r : Bytes) : Decidable (IsRune r) := inferInstanceAs (Decidable (_ ∧ _))

/-- A piece of a string. -/
inductive Seg where
  | rune (r : Bytes)
  | bad (b : UInt8)
deriving DecidableEq, Repr

/-- The segments of a string, at most `fuel` of them. -/
def segsFuel : (fuel : Nat) → Bytes → List Seg
  | 0, _ => []
  | _ + 1, [] => []
  | fuel + 1, b :: rest =>
    match runeLen (b :: rest) with
    | 0 => .bad b :: segsFuel fuel rest
    | k + 1 => .rune ((b :: rest).take (k + 1)) :: segsFuel fuel (rest.drop k)

/-- The segments of a string. -/
def segs (s : Bytes) : List Seg := segsFuel s.length s

/-- U+FFFD -/
def replacement : Bytes := [0xef, 0xbf, 0xbd]

/-- The text of a segment, with the replacement character for a bad byte. -/
def Seg.bytes : Seg → Bytes
  | .rune r => r
  | .bad _ => replacement

/-- The string with its bad bytes replaced. -/
def coerce (s : Bytes) : Bytes := (segs s).flatMap Seg.bytes

/-- `utf8.ValidString`. -/
def validString (s : Bytes) : Bool :=
  (segs s).all fun
    | .rune _ => true
    | .bad _ => false

/-- `utf8.EncodeRune`. -/
def encodeRune (r : Nat) : Bytes :=
  if r < 0x80 then [ofNat r]
  else if r < 0x800 then [ofNat (0xc0 + r / 0x40), ofNat (0x80 + r % 0x40)]
  else if (0xd800 ≤ r ∧ r < 0xe000) ∨ 0x110000 ≤ r then replacement
  else if r < 0x10000 then
    [ofNat (0xe0 + r / 0x1000), ofNat (0x80 + r / 0x40 % 0x40),
      ofNat (0x80 + r % 0x40)]
  else
    [ofNat (0xf0 + r / 0x40000), ofNat (0x80 + r / 0x1000 % 0x40),
      ofNat (0x80 + r / 0x40 % 0x40), ofNat (0x80 + r % 0x40)]

/-! ## Runes -/

theorem runeLen_of_ascii (hb : b < 0x80) (rest : Bytes) : runeLen (b :: rest) = 1 :=
  if_pos hb

theorem isRune_singleton (hb : b < 0x80) : IsRune [b] :=
  ⟨cons_ne_nil _ _, runeLen_of_ascii hb []⟩

theorem contLen_eq_succ {lead : Option (UInt8 × UInt8 × Nat)} {k : Nat}
    (h : contLen lead rest = k + 1) :
    ∃ lo hi n b tail, lead = some (lo, hi, n) ∧ rest = b :: tail ∧ k = n + 1 ∧ lo ≤ b ∧ b ≤ hi ∧
      n ≤ tail.length ∧ (tail.take n).all isCont = true := by
  unfold contLen at h
  split at h
  · rename_i lo hi n b tail
    split at h
    · rename_i hall
      exact ⟨lo, hi, n, b, tail, rfl, rfl, (succ.inj h).symm, hall⟩
    · cases h
  · cases h

/-- Only the bytes of the rune decide whether there is one. -/
theorem runeLen_append (hr : IsRune r) (rest : Bytes) :
    runeLen (r ++ rest) = r.length := by
  obtain ⟨hne, hlen⟩ := hr
  cases r with
  | nil => exact absurd rfl hne
  | cons b r =>
    rw [cons_append, runeLen]
    rw [runeLen] at hlen
    split at hlen
    · rename_i hb
      rw [if_pos hb]
      exact hlen
    · rename_i hb
      obtain ⟨lo, hi, n, b₁, tail, hlead, rfl, hk, hlo, hhi, hn, hall⟩ := contLen_eq_succ hlen
      have htail : tail.length = n := succ.inj hk
      rw [if_neg hb, hlead, cons_append, contLen, if_pos]
      · rw [length_cons, length_cons, htail]
      · refine ⟨hlo, hhi, ?_, ?_⟩
        · rw [length_append]
          omega
        · rw [take_append_of_le_length hn]
          exact hall

theorem isRune_take {k : Nat} (h : runeLen s = k + 1) :
    IsRune (s.take (k + 1)) ∧ k + 1 ≤ s.length := by
  cases s with
  | nil => cases h
  | cons b rest =>
    rw [runeLen] at h
    split at h
    · rename_i hb
      cases h
      exact ⟨isRune_singleton hb, succ_le_succ (zero_le _)⟩
    · rename_i hb
      obtain ⟨lo, hi, n, b₁, tail, hlead, rfl, rfl, hlo, hhi, hn, hall⟩ := contLen_eq_succ h
      have hlen : n + 2 ≤ (b :: b₁ :: tail).length := by
        rw [length_cons, length_cons]
        omega
      refine ⟨⟨cons_ne_nil _ _, ?_⟩, hlen⟩
      rw [length_take, min_eq_left hlen, take_succ_cons, take_succ_cons, runeLen,
        if_neg hb, hlead, contLen, if_pos]
      refine ⟨hlo, hhi, ?_, ?_⟩
      · exact le_of_eq (length_take_of_le hn).symm
      · rw [take_take, min_self]
        exact hall

/-! ## Segments -/

/-- More fuel than the string has bytes changes nothing. -/
theorem segsFuel_eq : ∀ (fuel : Nat) {s : Bytes}, s.length ≤ fuel → segsFuel fuel s = segs s := by
  have key : ∀ (m n : Nat) {s : Bytes}, s.length ≤ m → s.length ≤ n →
      segsFuel m s = segsFuel n s := by
    intro m
    induction m with
    | zero =>
      intro n s hm hn
      rw [length_eq_zero_iff.mp (le_zero.mp hm)]
      cases n <;> rfl
    | succ m ih =>
      intro n s hm hn
      cases s with
      | nil => cases n <;> rfl
      | cons b rest =>
        rw [length_cons] at hm hn
        cases n with
        | zero => omega
        | succ n =>
          rw [segsFuel, segsFuel]
          cases runeLen (b :: rest) with
          | zero => exact congrArg (Seg.bad b :: ·) (ih n (by omega) (by omega))
          | succ k =>
            have hdrop : (rest.drop k).length ≤ rest.length := by
              rw [length_drop]
              omega
            exact congrArg (_ :: ·) (ih n (by omega) (by omega))
  intro fuel s h
  exact key _ _ h (le_refl _)

theorem segs_bad (h : runeLen (b :: rest) = 0) :
    segs (b :: rest) = .bad b :: segs rest := by
  rw [segs, length_cons, segsFuel, h]
  rfl

theorem segs_rune (hr : IsRune r) (rest : Bytes) :
    segs (r ++ rest) = .rune r :: segs rest := by
  have hlen := runeLen_append hr rest
  cases r with
  | nil => exact absurd rfl hr.1
  | cons b r =>
    rw [segs, cons_append, length_cons, segsFuel, ← cons_append, hlen]
    show Seg.rune (((b :: r) ++ rest).take (b :: r).length) ::
      segsFuel (r ++ rest).length ((r ++ rest).drop r.length) = _
    rw [take_left, drop_left, segsFuel_eq]
    rw [length_append]
    omega

/-- **Induction on the segments of a string.** -/
theorem segs_induction {motive : Bytes → Prop} (nil : motive [])
    (rune : ∀ r rest, IsRune r → motive rest → motive (r ++ rest))
    (bad : ∀ b rest, runeLen (b :: rest) = 0 → motive rest → motive (b :: rest)) :
    ∀ s, motive s := by
  have key : ∀ (n : Nat) (s : Bytes), s.length ≤ n → motive s := by
    intro n
    induction n with
    | zero =>
      intro s hs
      rw [length_eq_zero_iff.mp (le_zero.mp hs)]
      exact nil
    | succ n ih =>
      intro s hs
      cases s with
      | nil => exact nil
      | cons b rest =>
        rw [length_cons] at hs
        cases hlen : runeLen (b :: rest) with
        | zero => exact bad b rest hlen (ih rest (by omega))
        | succ k =>
          have hrune := (isRune_take hlen).1
          rw [← take_append_drop (k + 1) (b :: rest)]
          refine rune _ _ hrune (ih _ ?_)
          rw [length_drop, length_cons]
          omega
  exact fun s => key s.length s (le_refl _)

/-- The runes among the segments are well formed. -/
theorem isRune_of_mem_segs (h : Seg.rune r ∈ segs s) : IsRune r := by
  induction s using segs_induction with
  | nil => cases h
  | rune r' rest hr' ih =>
    rw [segs_rune hr'] at h
    rcases mem_cons.mp h with heq | hmem
    · cases heq
      exact hr'
    · exact ih hmem
  | bad b rest hb ih =>
    rw [segs_bad hb] at h
    rcases mem_cons.mp h with heq | hmem
    · cases heq
    · exact ih hmem

/-! ## Coercion -/

theorem coerce_rune (hr : IsRune r) (rest : Bytes) :
    coerce (r ++ rest) = r ++ coerce rest := by
  rw [coerce, segs_rune hr]
  rfl

theorem coerce_bad (h : runeLen (b :: rest) = 0) :
    coerce (b :: rest) = replacement ++ coerce rest := by
  rw [coerce, segs_bad h]
  rfl

theorem validString_rune (hr : IsRune r) (rest : Bytes) :
    validString (r ++ rest) = validString rest := by
  rw [validString, segs_rune hr]
  rfl

theorem isRune_replacement : IsRune replacement := by decide

theorem validString_coerce (s : Bytes) : validString (coerce s) = true := by
  induction s using segs_induction with
  | nil => rfl
  | rune r rest hr ih =>
    rw [coerce_rune hr, validString_rune hr]
    exact ih
  | bad b rest hb ih =>
    rw [coerce_bad hb, validString_rune isRune_replacement]
    exact ih

theorem coerce_of_valid (h : validString s = true) : coerce s = s := by
  induction s using segs_induction with
  | nil => rfl
  | rune r rest hr ih =>
    rw [validString_rune hr] at h
    rw [coerce_rune hr, ih h]
  | bad b rest hb ih =>
    rw [validString, segs_bad hb] at h
    cases h

/-- **Coercion changes exactly the strings that are not well formed.** -/
theorem validString_iff : validString s = true ↔ coerce s = s := by
  constructor
  · exact coerce_of_valid
  · intro h
    rw [← h]
    exact validString_coerce s

theorem coerce_coerce (s : Bytes) : coerce (coerce s) = coerce s :=
  coerce_of_valid (validString_coerce s)

/-- ASCII text is well formed. -/
theorem validString_of_ascii (h : ∀ b ∈ s, b < 0x80) : validString s = true := by
  induction s with
  | nil => rfl
  | cons b rest ih =>
    have hb := isRune_singleton (h b mem_cons_self)
    rw [← singleton_append, validString_rune hb]
    exact ih fun c hc => h c (mem_cons_of_mem b hc)

end GbfCore
