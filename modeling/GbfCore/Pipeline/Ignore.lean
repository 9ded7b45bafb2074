import GbfCore.Pipeline.RestoreRun
import GbfCore.Pipeline.Scan

/-!
# Exclude patterns (ignore.go)

`MatchPattern` decides with tests for substrings whether a pattern matches a path. For a
pattern without wildcards they find whole segments. For `P/**/S` they do not: the last
segment of `P` need only be the beginning of a segment (`matchPattern_globstar_iff`).

`ShouldSkipDir` prunes a directory that a positive pattern matches, unless a negative one
matches the directory as well. A negative pattern for something below it comes too late, so
that a file which it includes is listed exactly if no positive pattern is found in the path
before a negative one is (`negated_scanned_iff`). What an interrupted restore leaves is backed up
(`staging_scanned`).

Nothing is lowered: file names are case-sensitive (`caseInsensitiveFS`).
-/

namespace GbfCore

open List

variable {ns : List Node} {dirs : List Bytes} {name : Bytes} {size : Nat} {children : List Node}

def star : UInt8 := 0x2a

/-- `**` -/
def globstar : Bytes := [star, star]

/-- The characters that make a pattern a glob. -/
def isGlobChar (c : UInt8) : Bool := c == star || c == 0x3f || c == 0x5b

/-- `fsutil.RestoreTmpSuffix` -/
def restoreTmpSuffix : Bytes := ascii ".ginkgo-backup-restore-tmp"

/-- `strings.Index` and the two parts around what was found. -/
def cutAt (sub : Bytes) : Bytes → Option (Bytes × Bytes)
  | [] => if sub = [] then some ([], []) else none
  | c :: s =>
    if sub <+: c :: s then some ([], (c :: s).drop sub.length)
    else (cutAt sub s).map fun r => (c :: r.1, r.2)

theorem cutAt_length {sub s : Bytes} : ∀ {r : Bytes × Bytes}, cutAt sub s = some r →
    r.1.length + sub.length + r.2.length = s.length := by
  induction s with
  | nil =>
    intro r h
    obtain ⟨rfl, heq⟩ := Option.ite_none_right_eq_some.mp h
    cases heq
    rfl
  | cons c s ih =>
    intro r h
    unfold cutAt at h
    split at h
    · next hprefix =>
      cases h
      have hlen := hprefix.length_le
      simp only [length_nil, length_drop]
      omega
    · obtain ⟨r', hr', rfl⟩ := Option.map_eq_some_iff.mp h
      have := ih hr'
      simp only [length_cons]
      omega

/-- A pattern without wildcards: the path, the directory it is in, or one further up. -/
def matchPlain (relPath pattern : Bytes) : Bool :=
  decide (relPath = pattern ∨ pattern ++ [slash] <+: relPath ∨
    slash :: pattern ++ [slash] <:+: relPath ∨ slash :: pattern <:+ relPath)

section
-- `path.Match`, which takes a malformed pattern for one that does not match
variable (pathMatch : (pattern name : Bytes) → Bool)

/-- A pattern with wildcards, for the name or the whole path. -/
def matchGlob (relPath pattern : Bytes) : Bool :=
  pathMatch pattern (pathBase relPath) || pathMatch pattern relPath

mutual

/-- `MatchPattern`. -/
def matchPattern (relPath pattern : Bytes) : Bool :=
  if globstar <:+: pattern then matchGlobstar relPath pattern
  else if pattern.any isGlobChar then matchGlob pathMatch relPath pattern
  else if [slash] <:+ pattern then matchPlain relPath pattern.dropLast
  else matchPlain relPath pattern
termination_by (pattern.length, 1)

/-- `matchGlobstar`. -/
def matchGlobstar (relPath pattern : Bytes) : Bool :=
  if pattern = globstar then true
  else if hstart : globstar ++ [slash] <+: pattern then
    let suffix := pattern.drop 3
    let parts := splitSlash relPath
    matchPattern relPath suffix ||
      (range' 1 (parts.length - 1)).any fun i => matchPattern (joinSlash (parts.drop i)) suffix
  else if slash :: globstar <:+ pattern then
    let start := pattern.take (pattern.length - 3)
    decide (relPath = start ∨ start ++ [slash] <+: relPath ∨
      slash :: start ++ [slash] <:+: relPath)
  else
    match hcut : cutAt (slash :: globstar ++ [slash]) pattern with
    | some (start, suffix) =>
      let parts := splitSlash relPath
      (range parts.length).any fun i =>
        let above := joinSlash (parts.take (i + 1))
        let remaining := joinSlash (parts.drop (i + 1))
        decide ((above = start ∨ slash :: start <:+: above ∧ 0 < i) ∧ remaining ≠ []) &&
          matchPattern remaining suffix
    | none => matchGlob pathMatch relPath pattern
termination_by (pattern.length, 0)
decreasing_by
  · have hlen := hstart.length_le
    exact .left _ _ (by simp [globstar] at hlen ⊢; omega)
  · have hlen := hstart.length_le
    exact .left _ _ (by simp [globstar] at hlen ⊢; omega)
  · have hlen := cutAt_length hcut
    exact .left _ _ (by simp [globstar] at hlen ⊢; omega)

end

end

/-! ## Tests for substrings and for segments -/

theorem joinSlash_stretch (init : List Bytes) (last x : Bytes) (B : List Bytes) :
    joinSlash (init ++ [last]) ++ joinSlash (x :: B) = joinSlash (init ++ (last ++ x) :: B) := by
  cases B with
  | nil =>
    rw [show joinSlash [x] = x by simp [joinSlash]]
    exact joinSlash_suffix init last x
  | cons b B =>
    show _ ++ (x ++ slash :: joinSlash (b :: B)) = _
    rw [append_cons init (last ++ x), joinSlash_append (by simp) (cons_ne_nil b B),
      ← joinSlash_suffix, append_assoc]

/-- A slash in a path is between two segments. -/
theorem eq_append_of_slash {p : List Bytes} (hp : ∀ seg ∈ p, slash ∉ seg) {x y : Bytes}
    (h : joinSlash p = x ++ slash :: y) : p = splitSlash x ++ splitSlash y := by
  have hne : p ≠ [] := fun hnil => by simp [hnil, joinSlash] at h
  rw [← splitSlash_append, ← h, splitSlash_joinSlash hp hne]

/-- The segments of a pattern without wildcards. -/
structure PatternSegments (S : List Bytes) : Prop where
  ne_nil : S ≠ []
  segs : ∀ seg ∈ S, seg ≠ [] ∧ slash ∉ seg ∧ ∀ c ∈ seg, isGlobChar c = false

namespace PatternSegments

variable {S : List Bytes} (h : PatternSegments S)
include h

theorem slash_notMem : ∀ seg ∈ S, slash ∉ seg := fun seg hseg => (h.segs seg hseg).2.1

theorem split : splitSlash (joinSlash S) = S := splitSlash_joinSlash h.slash_notMem h.ne_nil

theorem not_glob : ∀ c ∈ joinSlash S, isGlobChar c = false := by
  intro c hc
  by_cases hslash : c = slash
  · rw [hslash]
    decide
  · obtain ⟨seg, hseg, hmem⟩ := exists_mem_splitSlash hc hslash
    rw [h.split] at hseg
    exact (h.segs seg hseg).2.2 c hmem

theorem star_notMem : star ∉ joinSlash S := fun hmem => Bool.false_ne_true (h.not_glob star hmem).symm

theorem join_ne_nil : joinSlash S ≠ [] := by
  intro hnil
  have hmem : [] ∈ S := by
    rw [← h.split, hnil]
    exact mem_singleton_self _
  exact (h.segs [] hmem).1 rfl

/-- A pattern without wildcards. -/
theorem matchPattern_eq (pathMatch : Bytes → Bytes → Bool) (relPath : Bytes) :
    matchPattern pathMatch relPath (joinSlash S) = matchPlain relPath (joinSlash S) := by
  have hstar : ¬ globstar <:+: joinSlash S := fun hsub =>
    h.star_notMem (hsub.subset mem_cons_self)
  have hglob : ¬ (joinSlash S).any isGlobChar = true := by
    simpa using fun c hc => h.not_glob c hc
  have hslash : ¬ [slash] <:+ joinSlash S := by
    rintro ⟨t, ht⟩
    have hmem : [] ∈ S := by
      rw [eq_append_of_slash h.slash_notMem ht.symm]
      exact mem_append_right _ (mem_singleton_self _)
    exact (h.segs [] hmem).1 rfl
  rw [matchPattern, if_neg hstar, if_neg hglob, if_neg hslash]

/-- Such a pattern does not begin with wildcards, whatever follows. -/
theorem not_globstar (rest : Bytes) : joinSlash S ++ rest ≠ globstar ∧
    ¬ globstar ++ [slash] <+: joinSlash S ++ rest := by
  obtain ⟨c, a, ha⟩ := exists_cons_of_ne_nil h.join_ne_nil
  have hc : c ≠ star := fun heq => h.star_notMem (ha ▸ heq ▸ mem_cons_self)
  rw [ha]
  exact ⟨fun heq => hc (cons.inj heq).1,
    fun hstart => hc (cons_prefix_cons.mp hstart).1.symm⟩

variable {p : List Bytes} (hp : ∀ seg ∈ p, slash ∉ seg)
include hp

theorem eq_iff : joinSlash p = joinSlash S ↔ p = S := by
  refine ⟨fun heq => ?_, congrArg joinSlash⟩
  rw [← splitSlash_joinSlash hp fun hnil => h.join_ne_nil (heq.symm.trans (hnil ▸ rfl)), heq, h.split]

theorem prefix_iff : joinSlash S ++ [slash] <+: joinSlash p ↔ ∃ C ≠ [], p = S ++ C := by
  constructor
  · rintro ⟨t, ht⟩
    refine ⟨splitSlash t, splitSlash_ne_nil t, ?_⟩
    rw [← h.split]
    exact eq_append_of_slash hp (by rw [← ht]; simp)
  · rintro ⟨C, hC, rfl⟩
    exact ⟨joinSlash C, by rw [joinSlash_append h.ne_nil hC]; simp⟩

theorem suffix_iff : slash :: joinSlash S <:+ joinSlash p ↔ ∃ A ≠ [], p = A ++ S := by
  constructor
  · rintro ⟨s, hs⟩
    refine ⟨splitSlash s, splitSlash_ne_nil s, ?_⟩
    rw [← h.split]
    exact eq_append_of_slash hp hs.symm
  · rintro ⟨A, hA, rfl⟩
    exact ⟨joinSlash A, (joinSlash_append hA h.ne_nil).symm⟩

theorem infix_iff : slash :: joinSlash S ++ [slash] <:+: joinSlash p ↔
    ∃ A C, A ≠ [] ∧ C ≠ [] ∧ p = A ++ S ++ C := by
  constructor
  · rintro ⟨s, t, hst⟩
    refine ⟨splitSlash s, splitSlash t, splitSlash_ne_nil s, splitSlash_ne_nil t, ?_⟩
    rw [← h.split, append_assoc, ← splitSlash_append]
    exact eq_append_of_slash hp (by rw [← hst]; simp)
  · rintro ⟨A, C, hA, hC, rfl⟩
    refine ⟨joinSlash A, joinSlash C, ?_⟩
    rw [joinSlash_append (by simp [hA]) hC, joinSlash_append hA h.ne_nil]
    simp

/-- **A pattern without wildcards is found as a whole number of segments.** -/
theorem matchPlain_iff :
    matchPlain (joinSlash p) (joinSlash S) = true ↔ ∃ A C, p = A ++ S ++ C := by
  rw [matchPlain, decide_eq_true_iff, h.eq_iff hp, h.prefix_iff hp, h.infix_iff hp, h.suffix_iff hp]
  constructor
  · rintro (rfl | ⟨C, -, rfl⟩ | ⟨A, C, -, -, h⟩ | ⟨A, -, rfl⟩)
    · exact ⟨[], [], by simp⟩
    · exact ⟨[], C, rfl⟩
    · exact ⟨A, C, h⟩
    · exact ⟨A, [], by simp⟩
  · rintro ⟨A, C, h⟩
    by_cases hA : A = [] <;> by_cases hC : C = []
    · exact .inl (by simp [h, hA, hC])
    · exact .inr (.inl ⟨C, hC, by simp [h, hA]⟩)
    · exact .inr (.inr (.inr ⟨A, hA, by simp [h, hC]⟩))
    · exact .inr (.inr (.inl ⟨A, C, hA, hC, h⟩))

/-- Without a slash behind it, the last segment is the beginning of one. -/
theorem stretched_iff : slash :: joinSlash S <:+: joinSlash p ↔
    ∃ A init last x B, A ≠ [] ∧ S = init ++ [last] ∧ p = A ++ (init ++ (last ++ x) :: B) := by
  constructor
  · rintro ⟨s, t, hst⟩
    obtain ⟨init, last, rfl⟩ : ∃ init last, S = init ++ [last] :=
      ⟨_, _, (dropLast_append_getLast h.ne_nil).symm⟩
    obtain ⟨x, B, ht⟩ := exists_cons_of_ne_nil (splitSlash_ne_nil t)
    refine ⟨splitSlash s, init, last, x, B, splitSlash_ne_nil s, rfl, ?_⟩
    have hS := h.slash_notMem
    have hsegs : ∀ seg ∈ init ++ (last ++ x) :: B, slash ∉ seg := by
      have ht' : ∀ seg ∈ x :: B, slash ∉ seg :=
        fun seg hseg => slash_notMem_of_mem_splitSlash (ht ▸ hseg)
      simp only [mem_append, mem_cons, not_mem_nil, or_false] at hS ht' ⊢
      rintro seg (hseg | rfl | hseg)
      · exact hS seg (.inl hseg)
      · exact fun hmem => (mem_append.mp hmem).elim (hS last (.inr rfl)) (ht' x (.inl rfl))
      · exact ht' seg (.inr hseg)
    rw [← splitSlash_joinSlash hsegs (by simp), ← joinSlash_stretch, ← ht, joinSlash_splitSlash]
    exact eq_append_of_slash hp (by rw [← hst]; simp)
  · rintro ⟨A, init, last, x, B, hA, rfl, rfl⟩
    refine ⟨joinSlash A, joinSlash (x :: B), ?_⟩
    rw [joinSlash_append hA (by simp), ← joinSlash_stretch]
    simp

end PatternSegments

/-! ## Globstar patterns -/

/-- The pattern `P/**/S`. -/
def betweenPattern (P S : List Bytes) : Bytes :=
  joinSlash P ++ (slash :: globstar ++ [slash]) ++ joinSlash S

theorem cutAt_globstar {a : Bytes} (h : star ∉ a) (b : Bytes) :
    cutAt (slash :: globstar ++ [slash]) (a ++ (slash :: globstar ++ [slash]) ++ b) =
      some (a, b) := by
  induction a with
  | nil => exact if_pos ⟨b, rfl⟩
  | cons c a ih =>
    obtain ⟨-, ha⟩ := not_or.mp (mem_cons.not.mp h)
    have hnot : ¬ slash :: globstar ++ [slash] <+: c :: (a ++ (slash :: globstar ++ [slash]) ++ b) := by
      intro hsub
      have hnext := (cons_prefix_cons.mp hsub).2
      cases a with
      | nil => exact absurd (cons_prefix_cons.mp hnext).1 (by decide)
      | cons d a => exact ha ((cons_prefix_cons.mp hnext).1 ▸ mem_cons_self)
    show cutAt _ (c :: (a ++ (slash :: globstar ++ [slash]) ++ b)) = _
    rw [cutAt, if_neg hnot, ih ha]
    rfl

section
variable {pathMatch : Bytes → Bytes → Bool} {P S p : List Bytes}
variable (hP : PatternSegments P) (hS : PatternSegments S)

/-- A cut of the path at which both parts match. -/
def CutBetween (P S p : List Bytes) : Prop :=
  ∃ i < p.length, ((joinSlash (p.take (i + 1)) = joinSlash P ∨
      slash :: joinSlash P <:+: joinSlash (p.take (i + 1)) ∧ 0 < i) ∧
    joinSlash (p.drop (i + 1)) ≠ []) ∧ matchPlain (joinSlash (p.drop (i + 1))) (joinSlash S) = true

include hP hS

/-- The path is cut in two, and the parts are matched. -/
theorem matchPattern_between (relPath : Bytes) :
    matchPattern pathMatch relPath (betweenPattern P S) = true ↔
      CutBetween P S (splitSlash relPath) := by
  obtain ⟨b, d, hd⟩ : ∃ b d, joinSlash S = b ++ [d] :=
    ⟨_, _, (dropLast_append_getLast hS.join_ne_nil).symm⟩
  have hd' : d ≠ star := fun heq => hS.star_notMem (hd ▸ heq ▸ by simp)
  have hcut := cutAt_globstar hP.star_notMem (joinSlash S)
  rw [← betweenPattern] at hcut
  have hsub : globstar <:+: betweenPattern P S :=
    ⟨joinSlash P ++ [slash], slash :: joinSlash S, by simp [betweenPattern]⟩
  have hnot := hP.not_globstar ((slash :: globstar ++ [slash]) ++ joinSlash S)
  rw [← append_assoc, ← betweenPattern] at hnot
  have hend : ¬ slash :: globstar <:+ betweenPattern P S := by
    rintro ⟨t, ht⟩
    rw [betweenPattern, hd, ← append_assoc,
      show slash :: globstar = [slash, star] ++ [star] from rfl, ← append_assoc] at ht
    exact hd' (append_inj_right' ht rfl |> cons.inj).1.symm
  rw [matchPattern, if_pos hsub, matchGlobstar, if_neg hnot.1, dif_neg hnot.2, if_neg hend]
  split
  · next start suffix heq =>
    cases hcut.symm.trans heq
    simp [hS.matchPattern_eq, any_eq_true, CutBetween]
  · next heq => cases hcut.symm.trans heq

variable (hp : ∀ seg ∈ p, slash ∉ seg)
include hp

/-- The last segment of `P` need only be the beginning of a segment. -/
theorem matchPattern_between_iff :
    matchPattern pathMatch (joinSlash p) (betweenPattern P S) = true ↔
      (∃ A B C, p = A ++ P ++ B ++ S ++ C) ∨
        ∃ A init last x B C, A ≠ [] ∧ P = init ++ [last] ∧
          p = A ++ (init ++ (last ++ x) :: B) ++ S ++ C := by
  rw [matchPattern_between hP hS]
  by_cases hne : p = []
  · subst hne
    simp [joinSlash, splitSlash, CutBetween, hP.ne_nil]
  have hpart : ∀ {l : List Bytes}, l.Sublist p → ∀ seg ∈ l, slash ∉ seg :=
    fun hl seg hseg => hp seg (hl.subset hseg)
  rw [splitSlash_joinSlash hp hne]
  constructor
  · rintro ⟨i, -, ⟨habove, -⟩, hmatch⟩
    obtain ⟨B, C, hB⟩ := (hS.matchPlain_iff (hpart (drop_sublist _ _))).mp hmatch
    have happ := take_append_drop (i + 1) p
    rw [hB] at happ
    rcases habove with heq | ⟨hstretched, -⟩
    · rw [(hP.eq_iff (hpart (take_sublist _ _))).mp heq] at happ
      exact .inl ⟨[], B, C, by simp [← happ]⟩
    · obtain ⟨A, init, last, x, B', hA, hinit, htaken⟩ :=
        (hP.stretched_iff (hpart (take_sublist _ _))).mp hstretched
      rw [htaken] at happ
      exact .inr ⟨A, init, last, x, B' ++ B, C, hA, hinit, by simp [← happ]⟩
  · -- the path is cut behind the segments that `P` is found in
    have hcut : ∀ X B C : List Bytes, p = X ++ (B ++ S ++ C) → X ≠ [] →
        (X = P ∨ slash :: joinSlash P <:+: joinSlash X ∧ 1 < X.length) → CutBetween P S p := by
      intro X B C heq hX habove
      have hpos := length_pos_iff.mpr hX
      have hmatch := (hS.matchPlain_iff (hpart (heq ▸ sublist_append_right _ _))).mpr
        ⟨B, C, rfl⟩
      refine ⟨X.length - 1, by simp [heq]; omega, ?_⟩
      rw [Nat.sub_add_cancel hpos, heq, take_left, drop_left]
      refine ⟨⟨habove.imp (congrArg joinSlash) (.imp_right (by omega)), fun hnil => ?_⟩, hmatch⟩
      rw [hnil] at hmatch
      simp [matchPlain, hS.join_ne_nil.symm] at hmatch
    have hlonger : ∀ A init last x B C, A ≠ [] → P = init ++ [last] →
        p = A ++ (init ++ (last ++ x) :: B) ++ S ++ C → CutBetween P S p := by
      intro A init last x B C hA hinit heq
      have heq' : p = (A ++ (init ++ [last ++ x])) ++ (B ++ S ++ C) := by simp [heq]
      refine hcut _ B C heq' (by simp) (.inr ⟨?_, ?_⟩)
      · exact (hP.stretched_iff (hpart (heq' ▸ sublist_append_left _ _))).mpr
          ⟨A, init, last, x, [], hA, hinit, rfl⟩
      · have := length_pos_iff.mpr hA
        simp
        omega
    rintro (⟨A, B, C, heq⟩ | ⟨A, init, last, x, B, C, hA, hinit, heq⟩)
    · by_cases hA : A = []
      · exact hcut P B C (by simp [heq, hA]) hP.ne_nil (.inl rfl)
      · have hinit := (dropLast_append_getLast hP.ne_nil).symm
        exact hlonger A _ _ [] B C hA hinit (by
          rw [heq, append_nil, append_cons P.dropLast, ← hinit]
          simp)
    · exact hlonger A init last x B C hA hinit heq

omit hP in
/-- `**/S` matches where `S` does. -/
theorem matchPattern_below_iff :
    matchPattern pathMatch (joinSlash p) (globstar ++ slash :: joinSlash S) = true ↔
      ∃ A C, p = A ++ S ++ C := by
  have hsub : globstar <:+: globstar ++ slash :: joinSlash S := (prefix_append _ _).isInfix
  have hstart : globstar ++ [slash] <+: globstar ++ slash :: joinSlash S := ⟨joinSlash S, by simp⟩
  rw [matchPattern, if_pos hsub, matchGlobstar, if_neg (by simp), dif_pos hstart]
  rw [show (globstar ++ slash :: joinSlash S).drop 3 = joinSlash S from rfl]
  simp only [hS.matchPattern_eq, Bool.or_eq_true, any_eq_true]
  refine ⟨?_, fun h => .inl ((hS.matchPlain_iff hp).mpr h)⟩
  rintro (h | ⟨i, hi, h⟩)
  · exact (hS.matchPlain_iff hp).mp h
  · have hne : p ≠ [] := by
      rintro rfl
      simp [joinSlash, splitSlash] at hi
    rw [splitSlash_joinSlash hp hne, hS.matchPlain_iff
      fun seg hseg => hp seg ((drop_sublist i p).subset hseg)] at h
    obtain ⟨A, C, heq⟩ := h
    exact ⟨p.take i ++ A, C, by simp only [append_assoc, ← heq, take_append_drop]⟩

omit hS in
/-- `P/**` matches below `P`, and at the start of the path also `P` itself. -/
theorem matchPattern_within_iff :
    matchPattern pathMatch (joinSlash p) (joinSlash P ++ slash :: globstar) = true ↔
      p = P ∨ ∃ A C, p = A ++ P ++ C ∧ (C ≠ [] ∨ A = []) := by
  have hsub : globstar <:+: joinSlash P ++ slash :: globstar :=
    ⟨joinSlash P ++ [slash], [], by simp⟩
  have hnot := hP.not_globstar (slash :: globstar)
  have htake : (joinSlash P ++ slash :: globstar).take
      ((joinSlash P ++ slash :: globstar).length - 3) = joinSlash P := by simp [globstar]
  rw [matchPattern, if_pos hsub, matchGlobstar, if_neg hnot.1, dif_neg hnot.2,
    if_pos (suffix_append _ _), htake, decide_eq_true_iff, hP.eq_iff hp, hP.prefix_iff hp,
    hP.infix_iff hp]
  constructor
  · rintro (h | ⟨C, hC, rfl⟩ | ⟨A, C, -, hC, h⟩)
    · exact .inl h
    · exact .inr ⟨[], C, rfl, .inl hC⟩
    · exact .inr ⟨A, C, h, .inl hC⟩
  · rintro (h | ⟨A, C, h, hAC⟩)
    · exact .inl h
    by_cases hC : C = []
    · exact .inl (by rw [h, hC, hAC.resolve_left (not_not_intro hC)]; simp)
    by_cases hA : A = []
    · exact .inr (.inl ⟨C, hC, by rw [h, hA]; rfl⟩)
    · exact .inr (.inr ⟨A, C, hA, hC, h⟩)

/-- **`**` between segments finds `P`, except that a segment which only begins like the last
one of `P` is taken for it.** The two other forms find whole segments. -/
theorem matchPattern_globstar_iff :
    ((matchPattern pathMatch (joinSlash p) (betweenPattern P S) = true ↔
        ∃ A B C, p = A ++ P ++ B ++ S ++ C) ∧
      (matchPattern pathMatch (joinSlash p) (globstar ++ slash :: joinSlash S) = true ↔
        ∃ A C, p = A ++ S ++ C) ∧
      (matchPattern pathMatch (joinSlash p) (joinSlash P ++ slash :: globstar) = true ↔
        p = P ∨ ∃ A C, p = A ++ P ++ C ∧ (C ≠ [] ∨ A = []))) ↔
    ((∃ A init last x B C, A ≠ [] ∧ P = init ++ [last] ∧
        p = A ++ (init ++ (last ++ x) :: B) ++ S ++ C) →
      ∃ A B C, p = A ++ P ++ B ++ S ++ C) := by
  rw [matchPattern_between_iff hP hS hp, or_iff_left_iff_imp]
  exact and_iff_left ⟨matchPattern_below_iff hS hp, matchPattern_within_iff hP hp⟩

end

theorem patternSegments_sample : PatternSegments [ascii "tmp"] ∧ PatternSegments [ascii "c"] :=
  ⟨⟨by decide, by decide +kernel⟩, ⟨by decide, by decide +kernel⟩⟩

/-- `tmp/**/c` matches `tmp/x/c`. -/
theorem matchPattern_globstar_tmp :
    matchPattern (fun _ _ => false) (joinSlash [ascii "tmp", ascii "x", ascii "c"])
      (betweenPattern [ascii "tmp"] [ascii "c"]) = true :=
  ((matchPattern_globstar_iff patternSegments_sample.1 patternSegments_sample.2
    (p := [ascii "tmp", ascii "x", ascii "c"]) (by decide)).mpr
      fun _ => ⟨[], [ascii "x"], [], rfl⟩).1.mpr ⟨[], [ascii "x"], [], rfl⟩

/-- `tmp/**/c` matches `x/tmpfoo/c`, where no segment is `tmp`. -/
theorem matchPattern_globstar_tmpfoo :
    matchPattern (fun _ _ => false) (joinSlash [ascii "x", ascii "tmpfoo", ascii "c"])
      (betweenPattern [ascii "tmp"] [ascii "c"]) = true ∧
    ¬ ∃ A B C, [ascii "x", ascii "tmpfoo", ascii "c"] =
      A ++ [ascii "tmp"] ++ B ++ [ascii "c"] ++ C := by
  refine ⟨(matchPattern_between_iff patternSegments_sample.1 patternSegments_sample.2
    (by decide)).mpr (.inr ⟨[ascii "x"], [], ascii "tmp", ascii "foo", [], [], by decide, rfl,
      rfl⟩), ?_⟩
  rintro ⟨A, B, C, heq⟩
  have hmem : ascii "tmp" ∈ [ascii "x", ascii "tmpfoo", ascii "c"] := by
    rw [heq]
    simp
  exact absurd hmem (by decide)

/-! ## Pruned directories -/

section
variable (pathMatch : Bytes → Bytes → Bool) (positives negatives : List Bytes)

/-- `IsExcluded`. -/
def isExcluded (relPath : Bytes) : Bool :=
  if restoreTmpSuffix <:+ relPath then true
  else if positives.any (matchPattern pathMatch relPath) = false then false
  else !negatives.any (matchPattern pathMatch relPath)

/-- `ShouldSkipDir`. -/
def shouldSkipDir (relPath : Bytes) : Bool :=
  if isExcluded pathMatch positives negatives relPath = false then false
  else !negatives.any fun neg => decide (neg = relPath ∨ neg ++ [slash] <+: relPath)

/-- The exclude patterns of a scan. -/
def patternFilters (isSizeExcluded : Nat → Bool) : Filters where
  shouldSkipDir := shouldSkipDir pathMatch positives negatives
  isExcluded := isExcluded pathMatch positives negatives
  isSizeExcluded := isSizeExcluded

end

/-- A file of the tree, by the directories above it, its name and its size. -/
inductive FileIn : List Node → List Bytes → Bytes → Nat → Prop
  | here {ns name size modTime mode} (h : Node.file name size modTime mode ∈ ns) :
    FileIn ns [] name size
  | down {ns dir modTime mode children dirs name size}
    (h : Node.dir dir true modTime mode children ∈ ns) (hfile : FileIn children dirs name size) :
    FileIn ns (dir :: dirs) name size

section
variable {F : Filters}

/-- The walk enters the directory. -/
def Filters.Enters (F : Filters) (d : List Bytes) : Prop :=
  d.getLastD [] ≠ ignoreFileName ∧ F.shouldSkipDir (joinSlash d) = false

theorem mem_filePathsOf {above p : List Bytes} :
    p ∈ filePathsOf F above ns ↔ ∃ n ∈ ns, p ∈ n.filePaths F above := by
  induction ns with
  | nil => simp [filePathsOf]
  | cons n ns ih => simp [filePathsOf, ih]

theorem mem_filePaths_dir {modTime : Instant} {mode : Nat} {above p : List Bytes} :
    p ∈ (Node.dir name true modTime mode children).filePaths F above ↔
      F.Enters (above ++ [name]) ∧ p ∈ filePathsOf F (above ++ [name]) children := by
  rw [Node.filePaths, Filters.Enters, getLastD_concat]
  split <;> grind

theorem WellNamedNodes.mem (h : WellNamedNodes ns) : ∀ n ∈ ns, n.WellNamed := by
  induction ns with
  | nil => exact fun _ hn => absurd hn not_mem_nil
  | cons n ns ih => exact forall_mem_cons.mpr ⟨h.1, ih h.2.2⟩

/-- Every directory above a listed file was entered. -/
theorem enters_of_mem_filePathsOf {dirs : List Bytes} : ∀ {ns : List Node} (above : List Bytes)
    {name : Bytes}, WellNamedNodes ns → above ++ dirs ++ [name] ∈ filePathsOf F above ns →
    ∀ d ≠ [], d <+: dirs → F.Enters (above ++ d) := by
  induction dirs with
  | nil => exact fun _ _ _ _ d hd hpre => absurd (prefix_nil.mp hpre) hd
  | cons dir dirs ih =>
    intro ns above name hns hmem d hd hpre
    obtain ⟨n, hn, hmem⟩ := mem_filePathsOf.mp hmem
    have hwell := hns.mem n hn
    cases n with
    | lost => exact absurd hmem not_mem_nil
    | file nm =>
      rw [Node.filePaths] at hmem
      split at hmem
      · exact absurd hmem not_mem_nil
      · have hlen := congrArg length (mem_singleton.mp hmem)
        simp at hlen
    | dir nm readable modTime mode children =>
      cases readable with
      | false => exact absurd hmem not_mem_nil
      | true =>
        obtain ⟨henter, hmem⟩ := mem_filePaths_dir.mp hmem
        obtain ⟨child, -, hvisited⟩ := pathsOf_visited hwell.2 _ (mem_append_left _ hmem)
        obtain ⟨rest, hrest, -⟩ := hvisited.through
        obtain rfl : dir = nm := by simp at hrest; exact hrest.1
        obtain ⟨x, d, rfl⟩ := exists_cons_of_ne_nil hd
        obtain ⟨rfl, hbelow⟩ := cons_prefix_cons.mp hpre
        rw [append_cons]
        by_cases hnil : d = []
        · simpa [hnil] using henter
        · exact ih _ hwell.2 (by simpa using hmem) d hnil hbelow

theorem FileIn.names (h : FileIn ns dirs name size) :
    WellNamedNodes ns → Names (dirs ++ [name]) := by
  induction h with
  | here hn => exact fun hns => Names.singleton (hns.mem _ hn)
  | down hn _ ih =>
    intro hns
    obtain ⟨hdir, hbelow⟩ := hns.mem _ hn
    exact (Names.singleton hdir).append (ih hbelow)

/-- A file below entered directories is listed, unless it is excluded itself. -/
theorem FileIn.mem_filePathsOf (h : FileIn ns dirs name size) :
    ∀ above : List Bytes,
    F.isExcluded (joinSlash (above ++ dirs ++ [name])) = false → F.isSizeExcluded size = false →
    (∀ d ≠ [], d <+: dirs → F.Enters (above ++ d)) →
    above ++ dirs ++ [name] ∈ filePathsOf F above ns := by
  induction h with
  | here hn =>
    intro above hex hsize _
    refine GbfCore.mem_filePathsOf.mpr ⟨_, hn, ?_⟩
    rw [Node.filePaths, append_nil] at *
    simp [hex, hsize]
  | @down ns dir modTime mode children dirs name size hn _ ih =>
    intro above hex hsize henter
    refine GbfCore.mem_filePathsOf.mpr ⟨_, hn, mem_filePaths_dir.mpr
      ⟨henter [dir] (by simp) (by simp), ?_⟩⟩
    rw [append_cons above dir dirs] at hex ⊢
    refine ih _ hex hsize fun d hd hpre => ?_
    rw [← append_cons]
    exact henter (dir :: d) (by simp) (cons_prefix_cons.mpr ⟨rfl, hpre⟩)

end

section
variable {pathMatch : Bytes → Bytes → Bool} {positives negatives : List Bytes}

/-- A positive pattern matches, but the path is not excluded. -/
def Negated (pathMatch : Bytes → Bytes → Bool) (positives negatives : List Bytes)
    (relPath : Bytes) : Prop :=
  (∃ pat ∈ positives, matchPattern pathMatch relPath pat = true) ∧
    isExcluded pathMatch positives negatives relPath = false

/-- The directory is not pruned if a negative pattern names it or one above it, or if it is
not excluded itself. -/
theorem shouldSkipDir_eq_false_iff {relPath : Bytes} :
    shouldSkipDir pathMatch positives negatives relPath = false ↔
      (∃ neg ∈ negatives, neg = relPath ∨ neg ++ [slash] <+: relPath) ∨
      ¬ restoreTmpSuffix <:+ relPath ∧
        ((∀ pat ∈ positives, matchPattern pathMatch relPath pat = false) ∨
          ∃ pat ∈ negatives, matchPattern pathMatch relPath pat = true) := by
  rw [shouldSkipDir, isExcluded]
  by_cases htmp : restoreTmpSuffix <:+ relPath
  · simp [htmp]
  · by_cases hpos : positives.any (matchPattern pathMatch relPath) = false
    · rw [if_neg htmp, if_pos hpos, if_pos rfl]
      have hnone : ∀ pat ∈ positives, matchPattern pathMatch relPath pat = false := by
        simpa using hpos
      exact iff_of_true rfl (.inr ⟨htmp, .inl hnone⟩)
    · rw [if_neg htmp, if_neg hpos]
      by_cases hneg : negatives.any (matchPattern pathMatch relPath) = true
      · simp_all
      · simp_all

/-- A pattern without wildcards, with or without a slash behind it. -/
structure PlainPattern where
  segs : List Bytes
  trailing : Bool
  wf : PatternSegments segs

namespace PlainPattern

/-- The pattern as it is written. -/
def text (pat : PlainPattern) : Bytes :=
  joinSlash pat.segs ++ if pat.trailing then [slash] else []

variable {d : List Bytes} (hd : ∀ seg ∈ d, slash ∉ seg) (pat : PlainPattern)
include hd

/-- **It matches a path that its segments are found in.** -/
theorem matchPattern_iff :
    matchPattern pathMatch (joinSlash d) pat.text = true ↔ pat.segs <:+: d := by
  have hplain : matchPattern pathMatch (joinSlash d) pat.text =
      matchPlain (joinSlash d) (joinSlash pat.segs) := by
    unfold text
    split
    · have hchars : ∀ c ∈ joinSlash pat.segs ++ [slash], isGlobChar c = false := by
        intro c hc
        rcases mem_append.mp hc with hc | hc
        · exact pat.wf.not_glob c hc
        · rw [mem_singleton.mp hc]
          decide
      have hstar : ¬ globstar <:+: joinSlash pat.segs ++ [slash] := fun hsub =>
        Bool.false_ne_true (hchars star (hsub.subset mem_cons_self)).symm
      have hglob : ¬ (joinSlash pat.segs ++ [slash]).any isGlobChar = true := by
        simpa only [any_eq_true, not_exists, not_and, Bool.not_eq_true] using hchars
      rw [matchPattern, if_neg hstar, if_neg hglob, if_pos (suffix_append _ _),
        dropLast_concat]
    · rw [append_nil]
      exact pat.wf.matchPattern_eq pathMatch _
  rw [hplain, pat.wf.matchPlain_iff hd]
  exact exists₂_congr fun _ _ => eq_comm

/-- A directory that the pattern names, or that is below such a one. -/
theorem infix_of_above (h : pat.text = joinSlash d ∨ pat.text ++ [slash] <+: joinSlash d) :
    pat.segs <:+: d := by
  have hbegins : ∀ {t}, joinSlash d = joinSlash pat.segs ++ slash :: t → pat.segs <:+: d := by
    intro t ht
    rw [eq_append_of_slash hd ht, pat.wf.split]
    exact (prefix_append _ _).isInfix
  unfold text at h
  split at h
  · rcases h with heq | ⟨t, ht⟩
    · exact hbegins heq.symm
    · exact hbegins (t := slash :: t) (by simp [← ht])
  · rw [append_nil] at h
    rcases h with heq | ⟨t, ht⟩
    · rw [(pat.wf.eq_iff hd).mp heq.symm]
    · exact hbegins (t := t) (by simp [← ht])

end PlainPattern

/-- **A file that a negative pattern includes is listed exactly if every directory above it that
a positive pattern is found in has a negative one in it, too.** The walk enters no directory with
the name of the ignore file, and those of a restore are left out here. -/
theorem negated_scanned_iff {pos neg : List PlainPattern} (isSizeExcluded : Nat → Bool)
    (scanPath : Bytes) (htree : WellNamedNodes children) (hfile : FileIn children dirs name size)
    (hneg : Negated pathMatch (pos.map PlainPattern.text) (neg.map PlainPattern.text)
      (joinSlash (dirs ++ [name])))
    (hsize : isSizeExcluded size = false)
    (hdirs : ∀ d ≠ [], d <+: dirs → d.getLastD [] ≠ ignoreFileName ∧
      ¬ restoreTmpSuffix <:+ joinSlash d) :
    joinSlash (dirs ++ [name]) ∈ (scanSourceTree
      (patternFilters pathMatch (pos.map PlainPattern.text) (neg.map PlainPattern.text)
        isSizeExcluded) scanPath (some children)).files.map ScanEntry.relPath ↔
    ∀ d ≠ [], d <+: dirs → (∃ pat ∈ pos, pat.segs <:+: d) → ∃ pat ∈ neg, pat.segs <:+: d := by
  have hnames := hfile.names htree
  -- in terms of segments, the loop of `ShouldSkipDir` adds nothing to `IsExcluded`
  have hskip : ∀ d ≠ [], d <+: dirs →
      (shouldSkipDir pathMatch (pos.map PlainPattern.text) (neg.map PlainPattern.text)
        (joinSlash d) = false ↔
        ((∃ pat ∈ pos, pat.segs <:+: d) → ∃ pat ∈ neg, pat.segs <:+: d)) := by
    intro d hd hpre
    have hslash : ∀ seg ∈ d, slash ∉ seg := fun seg hseg =>
      (hnames seg (mem_append_left _ (hpre.subset hseg))).slash
    have hmatch : ∀ pat : PlainPattern, matchPattern pathMatch (joinSlash d) pat.text = true ↔
        pat.segs <:+: d := PlainPattern.matchPattern_iff hslash
    rw [shouldSkipDir_eq_false_iff]
    simp only [mem_map, exists_exists_and_eq_and, forall_exists_index, and_imp,
      forall_apply_eq_imp_iff₂, ← Bool.not_eq_true, hmatch]
    constructor
    · rintro (⟨pat, hpat, habove⟩ | ⟨-, hnone | hsome⟩) found hfound hinfix
      · exact ⟨pat, hpat, pat.infix_of_above hslash habove⟩
      · exact absurd hinfix (hnone found hfound)
      · exact hsome
    · intro h
      refine .inr ⟨(hdirs d hd hpre).2, ?_⟩
      by_cases hpos : ∃ pat ∈ pos, pat.segs <:+: d
      · obtain ⟨found, hfound, hinfix⟩ := hpos
        exact .inr (h found hfound hinfix)
      · exact .inl fun pat hpat hinfix => hpos ⟨pat, hpat, hinfix⟩
  obtain ⟨hlists, hpaths⟩ := scanSourceTree_lists
    (patternFilters pathMatch (pos.map PlainPattern.text) (neg.map PlainPattern.text)
      isSizeExcluded) scanPath fun c hc => Option.some.inj hc ▸ htree
  rw [hlists.files]
  constructor
  · intro hmem d hd hpre
    obtain ⟨p, hp, heq⟩ := mem_map.mp hmem
    obtain rfl := (hpaths.names p (mem_append_left _ hp)).1.joinSlash_inj hnames heq
    exact (hskip d hd hpre).mp (enters_of_mem_filePathsOf [] htree hp d hd hpre).2
  · intro h
    refine mem_map_of_mem (hfile.mem_filePathsOf [] hneg.2 hsize fun d hd hpre => ?_)
    exact ⟨(hdirs d hd hpre).1, (hskip d hd hpre).mpr (h d hd hpre)⟩

/-- **An interrupted restore is backed up.** The scan is meant to leave out what a restore has
left behind, which it knows by `restoreTmpSuffix`. But the name of a staging file does not end
so: unless a pattern excludes the file, it is listed. -/
theorem staging_scanned (pathMatch : Bytes → Bytes → Bool) (scanPath : Bytes)
    {isSizeExcluded : Nat → Bool} {uuid : Uuid} (htree : WellNamedNodes children)
    (hfile : FileIn children dirs (stagingName name uuid) size)
    (hsize : isSizeExcluded size = false)
    (hdirs : ∀ d ≠ [], d <+: dirs → d.getLastD [] ≠ ignoreFileName ∧
      ¬ restoreTmpSuffix <:+ joinSlash d) :
    joinSlash (dirs ++ [stagingName name uuid]) ∈ (scanSourceTree
      (patternFilters pathMatch [] [] isSizeExcluded) scanPath
      (some children)).files.map ScanEntry.relPath := by
  have hsuffix : ¬ restoreTmpSuffix <:+ joinSlash (dirs ++ [stagingName name uuid]) := by
    intro hrestore
    rw [stagingName, ← joinSlash_suffix] at hrestore
    exact absurd (suffix_of_suffix_length_le (suffix_append _ _) hrestore (by decide))
      (by decide)
  rw [(scanSourceTree_lists _ scanPath fun c hc => Option.some.inj hc ▸ htree).1.files]
  refine mem_map_of_mem (hfile.mem_filePathsOf [] ?_ hsize fun d hd hpre => ⟨?_, ?_⟩)
  · show isExcluded pathMatch [] [] _ = false
    exact if_neg hsuffix
  · exact (hdirs d hd hpre).1
  · exact shouldSkipDir_eq_false_iff.mpr (.inr ⟨(hdirs d hd hpre).2,
      .inl (forall_mem_nil _)⟩)

/-- What a restore of `f` has left behind. -/
theorem staging_scanned_left : ascii "f.0.tmp" ∈ (scanSourceTree
    (patternFilters (fun _ _ => false) [] [] fun _ => false) (ascii "/s")
    (some [.file (stagingName (ascii "f") ⟨ascii "0", by decide⟩) 1
      ⟨0, 0, Instant.zero_nsec_lt⟩ 0o600])).files.map ScanEntry.relPath :=
  have htree : WellNamedNodes [.file (stagingName (ascii "f") ⟨ascii "0", by decide⟩) 1
      ⟨0, 0, Instant.zero_nsec_lt⟩ 0o600] :=
    ⟨⟨⟨by decide, rfl⟩, by decide, by decide⟩, not_mem_nil, trivial⟩
  have hfile : FileIn _ [] _ 1 := .here mem_cons_self
  staging_scanned _ _ htree hfile rfl fun d hd hpre => absurd (prefix_nil.mp hpre) hd

end

/-- `tmp/keep/f` -/
def keepTree : List Node :=
  [.dir (ascii "tmp") true ⟨0, 0, Instant.zero_nsec_lt⟩ 0o755
    [.dir (ascii "keep") true ⟨0, 0, Instant.zero_nsec_lt⟩ 0o755
      [.file (ascii "f") 1 ⟨0, 0, Instant.zero_nsec_lt⟩ 0o644]]]

theorem keepTree_wellNamed : WellNamedNodes keepTree :=
  ⟨⟨⟨⟨by decide, rfl⟩, by decide, by decide⟩, ⟨⟨⟨by decide, rfl⟩, by decide, by decide⟩,
    ⟨⟨by decide, rfl⟩, by decide, by decide⟩, not_mem_nil, trivial⟩, not_mem_nil, trivial⟩,
    not_mem_nil, trivial⟩

theorem keepTree_fileIn : FileIn keepTree [ascii "tmp", ascii "keep"] (ascii "f") 1 :=
  .down mem_cons_self (.down mem_cons_self (.here mem_cons_self))

/-- `tmp/`, `keep/` and `tmp/keep/` -/
def tmpPattern : PlainPattern := ⟨[ascii "tmp"], true, by decide, by decide +kernel⟩

def keepPattern : PlainPattern := ⟨[ascii "keep"], true, by decide, by decide +kernel⟩

def tmpKeepPattern : PlainPattern := ⟨[ascii "tmp", ascii "keep"], true, by decide, by decide +kernel⟩

theorem negated_keep (pat : PlainPattern) (hpat : pat.segs <:+: [ascii "tmp", ascii "keep"]) :
    Negated (fun _ _ => false) ([pat].map PlainPattern.text)
      ([tmpKeepPattern].map PlainPattern.text)
      (joinSlash ([ascii "tmp", ascii "keep"] ++ [ascii "f"])) := by
  have hmatch := @PlainPattern.matchPattern_iff (fun _ _ => false)
    ([ascii "tmp", ascii "keep"] ++ [ascii "f"]) (by decide)
  have hpos := (hmatch pat).mpr (hpat.trans (prefix_append _ _).isInfix)
  have hneg := (hmatch tmpKeepPattern).mpr (by decide)
  have hsuffix : ¬ restoreTmpSuffix <:+
    joinSlash ([ascii "tmp", ascii "keep"] ++ [ascii "f"]) := by decide
  refine ⟨⟨_, mem_singleton_self _, hpos⟩, ?_⟩
  simp only [isExcluded, if_neg hsuffix, map_cons, map_nil, any_cons, any_nil,
    hpos, hneg]
  rfl

/-- `keep/` and `!tmp/keep/` list `tmp/keep/f`. -/
theorem negated_scanned_keep :
    ascii "tmp/keep/f" ∈ (scanSourceTree
      (patternFilters (fun _ _ => false) [ascii "keep/"] [ascii "tmp/keep/"] fun _ => false)
      (ascii "/s") (some keepTree)).files.map ScanEntry.relPath := by
  have hdirs : ∀ d ≠ [], d <+: [ascii "tmp", ascii "keep"] →
      d = [ascii "tmp"] ∨ d = [ascii "tmp", ascii "keep"] := by
    intro d hd hpre
    have hmem : d ∈ [ascii "tmp", ascii "keep"].inits := (mem_inits _ _).mpr hpre
    simpa [inits, hd] using hmem
  refine (negated_scanned_iff (fun _ => false) (ascii "/s") keepTree_wellNamed keepTree_fileIn
    (negated_keep keepPattern (by decide)) rfl ?_).mpr ?_
  · intro d hd hpre
    obtain rfl | rfl := hdirs d hd hpre <;> decide
  · intro d hd hpre
    obtain rfl | rfl := hdirs d hd hpre <;> decide

/-- `tmp/` and `!tmp/keep/` do not. -/
theorem negated_pruned_keep :
    FileIn keepTree [ascii "tmp", ascii "keep"] (ascii "f") 1 ∧
    Negated (fun _ _ => false) [ascii "tmp/"] [ascii "tmp/keep/"] (ascii "tmp/keep/f") ∧
    (scanSourceTree
      (patternFilters (fun _ _ => false) [ascii "tmp/"] [ascii "tmp/keep/"] fun _ => false)
      (ascii "/s") (some keepTree)).files = [] := by
  refine ⟨keepTree_fileIn, negated_keep tmpPattern (by decide), ?_⟩
  have hskip : shouldSkipDir (fun _ _ => false) [ascii "tmp/"] [ascii "tmp/keep/"]
      (pathRel (ascii "/s") (pathJoin [ascii "/s", ascii "tmp"])) = true := by
    have hmatch := @PlainPattern.matchPattern_iff (fun _ _ => false) [ascii "tmp"] (by decide)
    have hpos : matchPattern (fun _ _ => false) (ascii "tmp") (ascii "tmp/") = true :=
      (hmatch tmpPattern).mpr (by decide)
    have hneg : ¬ matchPattern (fun _ _ => false) (ascii "tmp") (ascii "tmp/keep/") = true :=
      (hmatch tmpKeepPattern).not.mpr (by decide)
    have hrel : pathRel (ascii "/s") (pathJoin [ascii "/s", ascii "tmp"]) = ascii "tmp" := by decide
    rw [hrel, ← Bool.not_eq_false, shouldSkipDir_eq_false_iff]
    simp only [mem_singleton, exists_eq_left, forall_eq, hpos, hneg]
    decide
  simp [scanSourceTree, keepTree, scanNodes, scanNode, patternFilters, hskip, Scan.append,
    Scan.empty]

end GbfCore
