import GbfCore.Lib.Checks
import GbfCore.Lib.CleanPath
import GbfCore.Lib.Utf8

/-!
# Source identifiers (manifest.go)

The identifier of a source is a relative path below the manifest root, usually
`deviceID/sourceID`. `validateCloudID` refuses what would leave the root and what
some system does not take as a file name. Of the latter only the refusal is modelled;
what the proofs use is `validateCloudID_ok`: the elements of an accepted identifier
are names.
-/

namespace GbfCore

open List

/-- `MaxCloudIDLength` -/
def maxCloudIDLength : Nat := 1024

/-- The errors of `validateCloudID`; each wraps `ErrInvalidCloudID`. -/
inductive CloudIDError where
  | empty
  | tooLong (n : Nat)
  | absolute
  | windowsDrive
  | invalidCharacter (b : UInt8)
  | emptySegment
  | relativeSegment
  | reservedName
deriving DecidableEq, Repr

/-- `unicode.IsSpace`, on the bytes of a rune. -/
def isSpaceRune (r : Bytes) : Bool :=
  decide (r ∈ [[0x09], [0x0a], [0x0b], [0x0c], [0x0d], [0x20], [0xc2, 0x85], [0xc2, 0xa0],
    [0xe1, 0x9a, 0x80], [0xe2, 0x80, 0x80], [0xe2, 0x80, 0x81], [0xe2, 0x80, 0x82],
    [0xe2, 0x80, 0x83], [0xe2, 0x80, 0x84], [0xe2, 0x80, 0x85], [0xe2, 0x80, 0x86],
    [0xe2, 0x80, 0x87], [0xe2, 0x80, 0x88], [0xe2, 0x80, 0x89], [0xe2, 0x80, 0x8a],
    [0xe2, 0x80, 0xa8], [0xe2, 0x80, 0xa9], [0xe2, 0x80, 0xaf], [0xe2, 0x81, 0x9f],
    [0xe3, 0x80, 0x80]])

/-- White space. A byte that is not part of a rune is none. -/
def Seg.isSpace : Seg → Bool
  | .rune r => isSpaceRune r
  | .bad _ => false

/-- The bytes a segment was read from. -/
def Seg.raw : Seg → Bytes
  | .rune r => r
  | .bad b => [b]

/-- `strings.TrimSpace`. -/
def trimSpace (s : Bytes) : Bytes :=
  (((segs s).dropWhile Seg.isSpace).reverse.dropWhile Seg.isSpace).reverse.flatMap Seg.raw

/-- `windowsReservedNames` -/
def windowsReservedNames : List Bytes :=
  [ascii "CON", ascii "PRN", ascii "AUX", ascii "NUL",
    ascii "COM1", ascii "COM2", ascii "COM3", ascii "COM4", ascii "COM5",
    ascii "COM6", ascii "COM7", ascii "COM8", ascii "COM9",
    ascii "LPT1", ascii "LPT2", ascii "LPT3", ascii "LPT4", ascii "LPT5",
    ascii "LPT6", ascii "LPT7", ascii "LPT8", ascii "LPT9"]

/-- `strings.ToUpper` as far as it matters for a reserved name: of the letters outside
ASCII it makes at most an I or an S, which none of them has. -/
def toUpper (s : Bytes) : Bytes := s.map fun b => if 0x61 ≤ b ∧ b ≤ 0x7a then b - 0x20 else b

/-- `isWindowsReservedName`. -/
def isWindowsReservedName (seg : Bytes) : Bool :=
  let base := seg.takeWhile (· != dot)
  let base := (base.reverse.dropWhile fun b => b == 0x20 || b == dot).reverse
  decide (toUpper base ∈ windowsReservedNames)

/-- `invalidCloudIDChar`. Only ASCII characters are invalid, so that going through the
bytes is going through the runes. -/
def invalidCloudIDChar (b : UInt8) : Bool :=
  decide (b < 0x20) || b == 0x7f || b == colon || b == 0x2a || b == 0x3f

/-- A separator of either system. -/
def isSeparator (b : UInt8) : Bool := b == slash || b == backslash

/-- The loop over the segments. -/
def validateCloudSegments : List Bytes → Except CloudIDError Unit
  | [] => .ok ()
  | seg :: rest =>
    if seg = [] then .error .emptySegment
    else if isDotName (trimSpace seg) then .error .relativeSegment
    else if isWindowsReservedName (trimSpace seg) then .error .reservedName
    else validateCloudSegments rest

/-- `C:` -/
def isWindowsDrive : Bytes → Bool
  | letter :: b :: _ =>
    b == colon && (decide (0x41 ≤ letter ∧ letter ≤ 0x5a) || decide (0x61 ≤ letter ∧ letter ≤ 0x7a))
  | _ => false

/-- `validateCloudID`. -/
def validateCloudID (cloudID : Bytes) : Except CloudIDError Unit :=
  if cloudID = [] then .error .empty
  else if maxCloudIDLength < cloudID.length then .error (.tooLong cloudID.length)
  else if cloudID.head?.any isSeparator then .error .absolute
  else if isWindowsDrive cloudID then .error .windowsDrive
  else
    match cloudID.find? invalidCloudIDChar with
    | some b => .error (.invalidCharacter b)
    | none =>
      validateCloudSegments (splitSlash (cloudID.map fun b => if b = backslash then slash else b))

/-! ## What an accepted identifier is like -/

theorem validateCloudSegments_ok {l : List Bytes} (h : validateCloudSegments l = .ok ()) :
    ∀ seg ∈ l, PathName seg := by
  induction l with
  | nil => nofun
  | cons seg rest ih =>
    simp only [validateCloudSegments, guard_eq_ok] at h
    obtain ⟨hne, hdot, -, hrest⟩ := h
    refine forall_mem_cons.mpr ⟨⟨hne, ?_⟩, ih hrest⟩
    -- a dot name is not changed by trimming it
    by_contra hname
    rcases isDotName_iff.mp (Bool.not_eq_false _ ▸ hname) with rfl | rfl
    · exact hdot (by decide)
    · exact hdot (by decide)

/-- Splitting at either separator is splitting at slashes once the backslashes are
replaced. -/
theorem splitSlash_map (s : Bytes) :
    splitSlash (s.map fun b => if b = backslash then slash else b) = s.splitOnP isSeparator := by
  unfold splitSlash
  rw [splitOn_eq_splitOnP]
  induction s with
  | nil => rfl
  | cons b s ih =>
    rw [map_cons, splitOnP_cons_eq_if_modifyHead, splitOnP_cons_eq_if_modifyHead, ih]
    by_cases hb : b = backslash
    · subst hb
      rfl
    · have hsep : isSeparator b = (b == slash) := by simp [isSeparator, hb]
      rw [if_neg hb, hsep]

/-- A part between slashes that has no backslash is a part between separators. The
first parts are compared apart from the others, because what comes before them is
still to be added. -/
theorem splitSlash_parts (s : Bytes) :
    ∀ h t, splitSlash s = h :: t → ∃ h' t', s.splitOnP isSeparator = h' :: t' ∧
      (backslash ∉ h → h = h') ∧ ∀ seg ∈ t, backslash ∉ seg → seg ∈ t' := by
  unfold splitSlash
  rw [splitOn_eq_splitOnP]
  induction s with
  | nil =>
    intro h t hs
    cases hs
    exact ⟨[], [], rfl, fun _ => rfl, fun _ hseg => nomatch hseg⟩
  | cons b s ih =>
    intro h t hs
    rw [splitOnP_cons_eq_if_modifyHead] at hs ⊢
    obtain ⟨h₀, t₀, hs₀⟩ := exists_cons_of_ne_nil (splitOnP_ne_nil (· == slash) s)
    obtain ⟨h', t', hs', hhead, htail⟩ := ih h₀ t₀ hs₀
    rw [hs₀] at hs
    rw [hs']
    -- both heads go to the tail where the string is cut
    have hall : ∀ seg ∈ h₀ :: t₀, backslash ∉ seg → seg ∈ h' :: t' := by
      intro seg hseg hb
      rcases mem_cons.mp hseg with rfl | hseg
      · rw [hhead hb]
        exact mem_cons_self
      · exact mem_cons_of_mem h' (htail seg hseg hb)
    by_cases hb : b = slash
    · subst hb
      cases hs
      exact ⟨[], h' :: t', rfl, fun _ => rfl, hall⟩
    · rw [if_neg (by simpa using hb)] at hs
      cases hs
      by_cases hback : b = backslash
      · subst hback
        exact ⟨[], h' :: t', rfl, fun hnot => absurd mem_cons_self hnot,
          fun seg hseg => hall seg (mem_cons_of_mem h₀ hseg)⟩
      · have hsep : isSeparator b = false := by simp [isSeparator, hb, hback]
        refine ⟨b :: h', t', by rw [hsep]; rfl, ?_, htail⟩
        intro hnot
        rw [hhead fun hmem => hnot (mem_cons_of_mem b hmem)]

/-- **The elements of an accepted identifier are names.** -/
theorem validateCloudID_ok {cloudID : Bytes} (h : validateCloudID cloudID = .ok ()) :
    cloudID ≠ [] ∧ PathNames cloudID := by
  unfold validateCloudID at h
  simp only [guard_eq_ok] at h
  obtain ⟨hne, -, -, -, h⟩ := h
  refine ⟨hne, ?_⟩
  split at h
  · cases h
  · have hparts : ∀ seg ∈ cloudID.splitOnP isSeparator, PathName seg := by
      rw [← splitSlash_map]
      exact validateCloudSegments_ok h
    intro seg hseg
    -- a part with a backslash is neither empty nor a dot name
    by_cases hb : backslash ∈ seg
    · refine ⟨ne_nil_of_mem hb, ?_⟩
      by_contra hname
      rcases isDotName_iff.mp (Bool.not_eq_false _ ▸ hname) with rfl | rfl
      · exact absurd hb (by decide)
      · exact absurd hb (by decide)
    · obtain ⟨h₀, t₀, hs⟩ : ∃ h₀ t₀, splitSlash cloudID = h₀ :: t₀ :=
        exists_cons_of_ne_nil (splitOnP_ne_nil _ _)
      obtain ⟨h', t', hs', hhead, htail⟩ := splitSlash_parts cloudID h₀ t₀ hs
      refine hparts seg ?_
      rw [hs']
      rw [hs] at hseg
      rcases mem_cons.mp hseg with rfl | hseg
      · rw [hhead hb]
        exact mem_cons_self
      · exact mem_cons_of_mem h' (htail seg hseg hb)

end GbfCore
