import GbfCore.Lib.CleanPath

/-!
# Paths inside a directory

Whether a path lies inside a directory, lexically: cleaned, it continues the cleaned
path of the directory by names. `levelsUp` counts how far a relative path climbs above
its start on the way; joined to a directory it stays inside one that is at least as
many levels higher (`inside_join_levels`), and climbing further leaves some directory
(`not_inside_of_levels`).
-/

namespace GbfCore

open List Nat

variable {a c name suffix : Bytes} {segs : List Bytes} {b : Bytes}

/-- A path that is the directory or lies below it. -/
structure Inside (dir path : Bytes) : Prop where
  rooted : rooted path = rooted dir
  elems : ∃ names, (∀ seg ∈ names, PathName seg) ∧ pathElems path = pathElems dir ++ names

theorem Inside.refl (dir : Bytes) : Inside dir dir :=
  ⟨rfl, [], nofun, (append_nil _).symm⟩

/-! ## Going down -/

section
variable {dir path : Bytes}

/-- Names below a path that is inside. -/
theorem Inside.join (h : Inside dir path) (hb : PathNames b) :
    Inside dir (pathJoin [path, b]) := by
  obtain ⟨names, hnames, helems⟩ := h.elems
  constructor
  · rw [pathJoin_names path hb, rooted_renderPath, h.rooted]
    exact cleanElems_append (cleanElems_pathElems path)
      fun seg hseg => ⟨hb seg hseg, slash_notMem_of_mem_splitSlash hseg⟩
  · refine ⟨names ++ splitSlash b, ?_, ?_⟩
    · intro seg hseg
      rcases mem_append.mp hseg with hseg | hseg
      · exact hnames seg hseg
      · exact hb seg hseg
    · rw [pathElems_pathJoin path hb, helems, append_assoc]

theorem names_of_notMem (h : PathName name) (hslash : slash ∉ name) :
    PathNames name := by
  intro seg hseg
  rw [splitSlash_of_notMem hslash] at hseg
  rw [mem_singleton.mp hseg]
  exact h

/-- Names stay names behind which something other than dots is put. -/
theorem names_suffix (hb : PathNames b) (hslash : slash ∉ suffix) {x : UInt8} (hx : x ∈ suffix)
    (hdot : x ≠ dot) :
    PathNames (b ++ suffix) := by
  intro seg hseg
  rcases mem_splitSlash_append hslash seg hseg with hseg | ⟨t, rfl⟩
  · exact hb seg hseg
  · exact pathName_of_mem (mem_append_right _ hx) hdot

/-- A suffix of the last name stays with it. -/
theorem pathJoin_suffix (a : Bytes) (hb : PathNames b) (hslash : slash ∉ suffix)
    (hboth : PathNames (b ++ suffix)) :
    pathJoin [a, b] ++ suffix = pathJoin [a, b ++ suffix] := by
  obtain ⟨front, last, hsplit⟩ : ∃ front last, splitSlash b = front ++ [last] :=
    ⟨_, _, (dropLast_append_getLast (splitSlash_ne_nil b)).symm⟩
  rw [pathJoin_names a hb, pathJoin_names a hboth, splitSlash_suffix hslash hsplit, hsplit,
    ← append_assoc, ← append_assoc]
  unfold renderPath
  rw [if_neg (append_ne_nil_of_right_ne_nil _ (cons_ne_nil _ _)),
    if_neg (append_ne_nil_of_right_ne_nil _ (cons_ne_nil _ _)), ← joinSlash_suffix]
  split <;> rfl

/-- A file next to one that is inside, with a longer name. -/
theorem Inside.join_suffix (h : Inside dir path) (hb : PathNames b) (hslash : slash ∉ suffix)
    {x : UInt8} (hx : x ∈ suffix) (hdot : x ≠ dot) : Inside dir (pathJoin [path, b] ++ suffix) := by
  have hboth := names_suffix hb hslash hx hdot
  rw [pathJoin_suffix path hb hslash hboth]
  exact h.join hboth

end

/-! ## The last element -/

theorem all_ne_slash_reverse (h : slash ∉ name) :
    ∀ b ∈ name.reverse, (b != slash) = true := by
  intro b hb
  refine bne_iff_ne.mpr ?_
  rintro rfl
  exact h (mem_reverse.mp hb)

/-- Cut at the last slash. -/
theorem dropWhile_reverse_append (h : slash ∉ name) :
    ((a ++ slash :: name).reverse.dropWhile (· != slash)).reverse = a ++ [slash] := by
  rw [reverse_append, reverse_cons, append_assoc,
    dropWhile_append_of_pos (all_ne_slash_reverse h)]
  simp

theorem pathClean_trailing (a : Bytes) (ha : a ≠ []) :
    rooted (a ++ [slash]) = rooted a ∧ pathElems (a ++ [slash]) = pathElems a := by
  have hroot := rooted_append ha [slash]
  refine ⟨hroot, ?_⟩
  have hsplit : splitSlash (a ++ [slash]) = splitSlash a ++ [[]] := splitSlash_append a []
  rw [pathElems, hroot, hsplit, cleanSegs_split, cleanSegs_cons, if_pos (.inl rfl)]
  exact reverse_reverse _

/-- The directory of a clean path. -/
theorem pathDir_renderPath {isRooted : Bool} {elems : List Bytes} (h : CleanElems isRooted elems)
    (hslash : slash ∉ name) :
    rooted (pathDir (renderPath isRooted (elems ++ [name]))) = isRooted ∧
      pathElems (pathDir (renderPath isRooted (elems ++ [name]))) = elems := by
  unfold pathDir
  rw [rooted_pathClean, pathElems_pathClean]
  by_cases hne : elems = []
  · subst hne
    cases isRooted with
    | true =>
      have hrender : renderPath true ([] ++ [name]) = [] ++ slash :: name := by
        simp [renderPath, joinSlash]
      rw [hrender, dropWhile_reverse_append hslash]
      exact ⟨rfl, rfl⟩
    | false =>
      have hrender : renderPath false ([] ++ [name]) = name := by
        simp [renderPath, joinSlash]
      have hdrop : name.reverse.dropWhile (· != slash) = [] := by
        rw [← append_nil name.reverse,
          dropWhile_append_of_pos (all_ne_slash_reverse hslash)]
        rfl
      rw [hrender, hdrop]
      exact ⟨rfl, rfl⟩
  · have hrender : renderPath isRooted (elems ++ [name]) =
        renderPath isRooted elems ++ slash :: name := by
      rw [← splitSlash_of_notMem hslash, renderPath_append hne]
    have hpath : renderPath isRooted elems ≠ [] := by
      intro hnil
      have hback := pathElems_renderPath h
      rw [hnil] at hback
      exact hne hback.symm
    obtain ⟨hroot, helems⟩ := pathClean_trailing _ hpath
    rw [hrender, dropWhile_reverse_append hslash, hroot, helems]
    exact ⟨rooted_renderPath h, pathElems_renderPath h⟩

/-- The directory of a path below one that is inside. -/
theorem Inside.dir_join {dir path : Bytes} (h : Inside dir path) (hb : PathNames b) :
    Inside dir (pathDir (pathJoin [path, b])) := by
  obtain ⟨names, hnames, helems⟩ := h.elems
  obtain ⟨front, last, hsplit⟩ : ∃ front last, splitSlash b = front ++ [last] :=
    ⟨_, _, (dropLast_append_getLast (splitSlash_ne_nil b)).symm⟩
  have hfront : ∀ seg ∈ front, PathName seg ∧ slash ∉ seg := by
    intro seg hseg
    have hmem : seg ∈ splitSlash b := hsplit ▸ mem_append_left _ hseg
    exact ⟨hb seg hmem, slash_notMem_of_mem_splitSlash hmem⟩
  have hlast : slash ∉ last :=
    slash_notMem_of_mem_splitSlash (hsplit ▸ mem_append_right _ (mem_singleton_self _))
  have hclean := cleanElems_append (cleanElems_pathElems path) hfront
  have hjoin : pathJoin [path, b] =
      renderPath (GbfCore.rooted path) ((pathElems path ++ front) ++ [last]) := by
    rw [pathJoin_names path hb, hsplit, append_assoc]
  obtain ⟨hroot, hdir⟩ := pathDir_renderPath hclean hlast
  rw [hjoin]
  refine ⟨hroot.trans h.rooted, names ++ front, ?_, ?_⟩
  · intro seg hseg
    rcases mem_append.mp hseg with hseg | hseg
    · exact hnames seg hseg
    · exact (hfront seg hseg).1
  · rw [hdir, helems, append_assoc]

/-- A clean path ends in its last element. -/
theorem exists_renderPath_eq (isRooted : Bool) (elems : List Bytes) (name : Bytes) :
    ∃ front, renderPath isRooted (elems ++ [name]) = front ++ name ∧
      (front = [] ∨ ∃ a, front = a ++ [slash]) := by
  have hne : elems ++ [name] ≠ [] := append_ne_nil_of_right_ne_nil _ (cons_ne_nil _ _)
  obtain ⟨front, hjoin, hfront⟩ : ∃ front, joinSlash (elems ++ [name]) = front ++ name ∧
      (front = [] ∨ ∃ a, front = a ++ [slash]) := by
    cases elems with
    | nil => exact ⟨[], by simp [joinSlash], .inl rfl⟩
    | cons x elems =>
      refine ⟨joinSlash (x :: elems) ++ [slash], ?_, .inr ⟨_, rfl⟩⟩
      rw [joinSlash_append (cons_ne_nil _ _) (cons_ne_nil _ _), append_assoc]
      simp [joinSlash]
  cases isRooted with
  | false =>
    refine ⟨front, ?_, hfront⟩
    rw [renderPath, if_neg (by decide), if_neg hne, hjoin]
  | true =>
    refine ⟨slash :: front, ?_, .inr ?_⟩
    · rw [renderPath, if_pos rfl, hjoin]
      rfl
    · rcases hfront with rfl | ⟨a, rfl⟩
      · exact ⟨[], rfl⟩
      · exact ⟨slash :: a, rfl⟩

theorem pathBase_append {front : Bytes} (hne : name ≠ []) (hslash : slash ∉ name)
    (hfront : front = [] ∨ ∃ a, front = a ++ [slash]) : pathBase (front ++ name) = name := by
  have hall := all_ne_slash_reverse hslash
  obtain ⟨b, rest, hrev⟩ := exists_cons_of_ne_nil (reverse_ne_nil_iff.mpr hne)
  have hb : b ≠ slash := bne_iff_ne.mp (hall b (hrev ▸ mem_cons_self))
  have hdrop : (front ++ name).reverse.dropWhile (· == slash) = name.reverse ++ front.reverse := by
    rw [reverse_append, hrev, cons_append,
      dropWhile_cons_of_neg (by simpa using hb)]
  have htake : (name.reverse ++ front.reverse).takeWhile (· != slash) = name.reverse := by
    rw [takeWhile_append_of_pos hall]
    rcases hfront with rfl | ⟨a, rfl⟩
    · simp
    · simp
  rw [pathBase, if_neg (append_ne_nil_of_right_ne_nil _ hne)]
  dsimp only
  rw [hdrop, htake, reverse_reverse, if_neg hne]

theorem pathBase_below {dir : Bytes} (hne : name ≠ []) (hslash : slash ∉ name) :
    pathBase (dir ++ slash :: name) = name := by
  have hsplit : dir ++ slash :: name = (dir ++ [slash]) ++ name := by simp
  rw [hsplit, pathBase_append hne hslash (.inr ⟨dir, rfl⟩)]

/-- The last element of a joined path. -/
theorem pathBase_pathJoin (a : Bytes) (hname : PathName name) (hslash : slash ∉ name) :
    pathBase (pathJoin [a, name]) = name := by
  rw [pathJoin_names a (names_of_notMem hname hslash), splitSlash_of_notMem hslash]
  obtain ⟨front, hrender, hfront⟩ := exists_renderPath_eq (rooted a) (pathElems a) name
  rw [hrender]
  exact pathBase_append hname.ne_nil hslash hfront

/-! ## Below a clean directory -/

/-- A clean path with elements, so neither `.` nor the root. -/
def CleanDir (path : Bytes) : Prop :=
  ∃ isRooted elems, CleanElems isRooted elems ∧ elems ≠ [] ∧ path = renderPath isRooted elems

theorem cleanDir_pathJoin (a : Bytes) (hb : PathNames b) :
    CleanDir (pathJoin [a, b]) := by
  refine ⟨rooted a, pathElems a ++ splitSlash b, ?_, ?_, pathJoin_names a hb⟩
  · exact cleanElems_append (cleanElems_pathElems a) fun seg hseg =>
      ⟨hb seg hseg, slash_notMem_of_mem_splitSlash hseg⟩
  · exact append_ne_nil_of_right_ne_nil _ (splitSlash_ne_nil b)

/-- Names joined in two steps. -/
theorem pathJoin_append (a : Bytes) (hb : PathNames b) (hc : PathNames c) :
    pathJoin [a, b, c] = pathJoin [a, b] ++ slash :: c := by
  have hne : b ≠ [] := by
    rintro rfl
    exact (hb [] (by decide)).ne_nil rfl
  have hboth : PathNames (b ++ slash :: c) := by
    intro seg hseg
    rw [splitSlash_append] at hseg
    exact (mem_append.mp hseg).elim (hb seg) (hc seg)
  rw [pathJoin_three hne, pathJoin_names a hboth, pathJoin_names a hb, splitSlash_append,
    ← append_assoc, renderPath_append]
  exact append_ne_nil_of_right_ne_nil _ (splitSlash_ne_nil b)

/-- Names that begin differently lead to different paths. -/
theorem pathJoin_ne (a : Bytes) (hb : PathNames b) (hc : PathNames c)
    (h : (splitSlash b).head? ≠ (splitSlash c).head?) :
    pathJoin [a, b] ≠ pathJoin [a, c] := by
  intro heq
  have helems := congrArg pathElems heq
  rw [pathElems_pathJoin a hb, pathElems_pathJoin a hc] at helems
  exact h (congrArg List.head? (append_cancel_left helems))

section
variable {path b : Bytes} (h : CleanDir path)

include h

theorem CleanDir.join (hb : PathNames b) :
    pathJoin [path, b] = path ++ slash :: b := by
  obtain ⟨isRooted, elems, hclean, hne, rfl⟩ := h
  exact pathJoin_renderPath hclean hne hb

theorem CleanDir.below (hb : PathNames b) :
    CleanDir (path ++ slash :: b) := by
  rw [← h.join hb]
  exact cleanDir_pathJoin path hb

theorem CleanDir.pathDir (hslash : slash ∉ name) :
    pathDir (path ++ slash :: name) = path := by
  obtain ⟨isRooted, elems, hclean, hne, rfl⟩ := h
  have hrender : renderPath isRooted (elems ++ [name]) =
      renderPath isRooted elems ++ slash :: name := by
    rw [← splitSlash_of_notMem hslash, renderPath_append hne]
  obtain ⟨hroot, helems⟩ := pathDir_renderPath hclean hslash
  rw [← hrender]
  have hclean' : GbfCore.pathDir (renderPath isRooted (elems ++ [name])) =
      renderPath (rooted (GbfCore.pathDir (renderPath isRooted (elems ++ [name]))))
        (pathElems (GbfCore.pathDir (renderPath isRooted (elems ++ [name])))) := by
    rw [GbfCore.pathDir, rooted_pathClean, pathElems_pathClean, pathClean_eq]
  rw [hclean', hroot, helems]

end

/-! ## Climbing -/

/-- How many levels above its start a relative path climbs; `depth` names have been
passed. -/
def levelsUp : List Bytes → (depth : Nat) → Nat
  | [], _ => 0
  | seg :: rest, depth =>
    if seg = [] ∨ seg = [dot] then levelsUp rest depth
    else if seg = [dot, dot] then
      match depth with
      | 0 => levelsUp rest 0 + 1
      | depth + 1 => levelsUp rest depth
    else levelsUp rest (depth + 1)

section
variable {seg : Bytes} (rest : List Bytes)

theorem levelsUp_skip (h : seg = [] ∨ seg = [dot]) (depth : Nat) :
    levelsUp (seg :: rest) depth = levelsUp rest depth := by
  rw [levelsUp.eq_def]
  exact if_pos h

theorem levelsUp_out (h : seg = [dot, dot]) : levelsUp (seg :: rest) 0 = levelsUp rest 0 + 1 := by
  subst h
  rfl

theorem levelsUp_back (h : seg = [dot, dot]) (depth : Nat) :
    levelsUp (seg :: rest) (depth + 1) = levelsUp rest depth := by
  subst h
  rfl

theorem levelsUp_name (h : PathName seg) (depth : Nat) :
    levelsUp (seg :: rest) depth = levelsUp rest (depth + 1) := by
  rw [levelsUp.eq_def]
  dsimp only
  rw [if_neg h.ne_dot, if_neg h.ne_dotdot]

end

/-- What is left of a stack of names under a path: the levels climbed are gone, and
only names have come. If none has come, another `..` climbs one level more. -/
theorem cleanSegs_levels (isRooted : Bool) :
    ∀ {names stack : List Bytes}, (∀ seg ∈ names, PathName seg) →
      levelsUp segs names.length ≤ stack.length →
      (∀ seg ∈ stack.take (levelsUp segs names.length), PathName seg) →
      ∃ names', (∀ seg ∈ names', PathName seg) ∧
        cleanSegs isRooted segs (names ++ stack) =
          (stack.drop (levelsUp segs names.length)).reverse ++ names' ∧
        levelsUp (segs ++ [[dot, dot]]) names.length =
          levelsUp segs names.length + if names' = [] then 1 else 0 := by
  induction segs with
  | nil =>
    intro names stack hnames hlen htake
    refine ⟨names.reverse, fun seg hseg => hnames seg (mem_reverse.mp hseg), ?_, ?_⟩
    · show (names ++ stack).reverse = _
      rw [reverse_append]
      rfl
    · cases names with
      | nil => rfl
      | cons top below =>
        rw [if_neg (reverse_ne_nil_iff.mpr (cons_ne_nil top below))]
        rfl
  | cons seg rest ih =>
    intro names stack hnames hlen htake
    rw [cleanSegs_cons]
    by_cases hskip : seg = [] ∨ seg = [dot]
    · rw [levelsUp_skip rest hskip] at hlen htake ⊢
      rw [if_pos hskip, cons_append, levelsUp_skip _ hskip]
      exact ih hnames hlen htake
    rw [if_neg hskip]
    by_cases hup : seg = [dot, dot]
    · rw [if_pos hup]
      cases names with
      | cons top below =>
        -- the last name is taken back
        rw [length_cons, levelsUp_back rest hup] at hlen htake ⊢
        rw [cons_append, cons_append, levelsUp_back _ hup]
        dsimp only
        rw [if_neg (hnames top mem_cons_self).ne_dotdot]
        exact ih (fun s hs => hnames s (mem_cons_of_mem _ hs)) hlen htake
      | nil =>
        -- one name of the stack is gone
        rw [length_nil, levelsUp_out rest hup] at hlen htake ⊢
        cases stack with
        | nil => exact absurd hlen (not_succ_le_zero _)
        | cons top below =>
          rw [nil_append, cons_append, levelsUp_out _ hup]
          dsimp only
          have htop : PathName top := htake top mem_cons_self
          rw [if_neg htop.ne_dotdot]
          have hnil : ∀ s ∈ ([] : List Bytes), PathName s := forall_mem_nil _
          obtain ⟨names', hnames', hclean, hlevels⟩ := ih hnil (le_of_succ_le_succ hlen)
            fun s hs => htake s (mem_cons_of_mem _ hs)
          refine ⟨names', hnames', hclean, ?_⟩
          rw [length_nil] at hlevels
          rw [hlevels]
          omega
    · have hname := pathName_of_ne hskip hup
      rw [levelsUp_name rest hname] at hlen htake ⊢
      rw [if_neg hup, cons_append, levelsUp_name _ hname, ← cons_append]
      exact ih (forall_mem_cons.mpr ⟨hname, hnames⟩) hlen htake

/-- A leading `..` never goes away. -/
theorem dotdot_mem_cleanSegs : ∀ {kept : List Bytes},
    [dot, dot] ∈ kept → [dot, dot] ∈ cleanSegs false segs kept := by
  induction segs with
  | nil => exact fun h => mem_reverse.mpr h
  | cons seg rest ih =>
    intro kept h
    rw [cleanSegs_cons]
    split
    · exact ih h
    · split
      · cases kept with
        | nil => exact absurd h not_mem_nil
        | cons top below =>
          dsimp only
          split
          · exact ih (mem_cons_of_mem _ h)
          · rename_i htop
            exact ih ((mem_cons.mp h).resolve_left (Ne.symm htop))
      · exact ih (mem_cons_of_mem _ h)

/-- Climbing above the stack leaves a `..`. -/
theorem dotdot_of_levels : ∀ {names stack : List Bytes},
    (∀ seg ∈ names ++ stack, PathName seg) → stack.length < levelsUp segs names.length →
      [dot, dot] ∈ cleanSegs false segs (names ++ stack) := by
  induction segs with
  | nil => exact fun _ h => absurd h (not_lt_zero _)
  | cons seg rest ih =>
    intro names stack hall hlen
    rw [cleanSegs_cons]
    by_cases hskip : seg = [] ∨ seg = [dot]
    · rw [levelsUp_skip rest hskip] at hlen
      rw [if_pos hskip]
      exact ih hall hlen
    rw [if_neg hskip]
    by_cases hup : seg = [dot, dot]
    · rw [if_pos hup]
      cases names with
      | cons top below =>
        rw [length_cons, levelsUp_back rest hup] at hlen
        rw [cons_append] at hall ⊢
        dsimp only
        rw [if_neg (hall top mem_cons_self).ne_dotdot]
        exact ih (fun s hs => hall s (mem_cons_of_mem _ hs)) hlen
      | nil =>
        rw [length_nil, levelsUp_out rest hup] at hlen
        cases stack with
        | nil =>
          subst hup
          exact dotdot_mem_cleanSegs (mem_singleton_self _)
        | cons top below =>
          rw [nil_append] at hall ⊢
          dsimp only
          rw [if_neg (hall top mem_cons_self).ne_dotdot]
          have hbelow : ∀ s ∈ [] ++ below, PathName s :=
            fun s hs => hall s (mem_cons_of_mem _ hs)
          exact ih hbelow (lt_of_succ_lt_succ hlen)
    · have hname := pathName_of_ne hskip hup
      rw [levelsUp_name rest hname] at hlen
      rw [if_neg hup, ← cons_append]
      refine ih ?_ hlen
      rw [cons_append]
      exact forall_mem_cons.mpr ⟨hname, hall⟩

/-- One part of a path climbs after another, from the depth that the first one has reached. -/
theorem exists_levelsUp_append (segs : List Bytes) : ∀ depth, ∃ reached, ∀ rest,
    levelsUp (segs ++ rest) depth = levelsUp segs depth + levelsUp rest reached := by
  induction segs with
  | nil => exact fun depth => ⟨depth, fun rest => (zero_add _).symm⟩
  | cons seg segs ih =>
    intro depth
    by_cases hskip : seg = [] ∨ seg = [dot]
    · simp only [cons_append, levelsUp_skip _ hskip]
      exact ih depth
    by_cases hup : seg = [dot, dot]
    · cases depth with
      | zero =>
        obtain ⟨reached, h⟩ := ih 0
        refine ⟨reached, fun rest => ?_⟩
        rw [cons_append, levelsUp_out _ hup, levelsUp_out _ hup, h, add_right_comm]
      | succ depth =>
        simp only [cons_append, levelsUp_back _ hup]
        exact ih depth
    · simp only [cons_append, levelsUp_name _ (pathName_of_ne hskip hup)]
      exact ih (depth + 1)

theorem levelsUp_append (segs rest : List Bytes) (depth : Nat) :
    levelsUp segs depth ≤ levelsUp (segs ++ rest) depth := by
  obtain ⟨reached, h⟩ := exists_levelsUp_append segs depth
  exact h rest ▸ le_add_right _ _

/-- A name at the end does not climb. -/
theorem levelsUp_append_name (segs : List Bytes) (hname : PathName name) (depth : Nat) :
    levelsUp (segs ++ [name]) depth = levelsUp segs depth := by
  obtain ⟨reached, h⟩ := exists_levelsUp_append segs depth
  rw [h, levelsUp_name [] hname]
  rfl

/-! ## Joining a path that climbs -/

/-- The elements of a path behind another one. -/
theorem pathElems_append_any (ha : a ≠ []) (b : Bytes) :
    pathElems (a ++ slash :: b) =
      cleanSegs (rooted a) (splitSlash b) (pathElems a).reverse := by
  rw [pathElems, rooted_append ha, splitSlash_append, cleanSegs_split]
  rfl

/-- A path joined to a directory that is deep enough. -/
theorem inside_join_below {d : Bytes} {below : List Bytes} (hd : d ≠ [])
    (hroot : rooted d = rooted a) (hbelow : ∀ seg ∈ below, PathName seg)
    (helems : pathElems d = pathElems a ++ below)
    (hlevels : levelsUp (splitSlash c) 0 ≤ below.length) : Inside a (pathJoin [d, c]) := by
  have hpath : pathJoin [d, c] = pathClean (d ++ slash :: c) := by
    rw [pathJoin, dropWhile_cons_of_neg (by simpa using hd)]
    simp [joinSlash]
  have hstack : (pathElems d).reverse = below.reverse ++ (pathElems a).reverse := by
    rw [helems, reverse_append]
  have hnil : ∀ s ∈ ([] : List Bytes), PathName s := forall_mem_nil _
  have hlen : levelsUp (splitSlash c) ([] : List Bytes).length ≤ (pathElems d).reverse.length := by
    rw [hstack, length_append, length_reverse]
    exact le_trans hlevels (le_add_right _ _)
  have hk : levelsUp (splitSlash c) 0 ≤ below.reverse.length :=
    le_trans hlevels (le_of_eq length_reverse.symm)
  have htake : ∀ seg ∈ (pathElems d).reverse.take (levelsUp (splitSlash c) 0), PathName seg := by
    intro seg hseg
    rw [hstack, take_append_of_le_length hk] at hseg
    exact hbelow seg (mem_reverse.mp (mem_of_mem_take hseg))
  obtain ⟨names, hnames, hclean, -⟩ := cleanSegs_levels (rooted d) hnil hlen htake
  constructor
  · rw [hpath, rooted_pathClean, rooted_append hd, hroot]
  · refine ⟨(below.reverse.drop (levelsUp (splitSlash c) 0)).reverse ++ names, ?_, ?_⟩
    · intro seg hseg
      rcases mem_append.mp hseg with hseg | hseg
      · exact hbelow seg (mem_reverse.mp (mem_of_mem_drop (mem_reverse.mp hseg)))
      · exact hnames seg hseg
    · rw [hpath, pathElems_pathClean, pathElems_append_any hd]
      refine Eq.trans hclean ?_
      rw [hstack]
      show (List.drop (levelsUp (splitSlash c) 0) _).reverse ++ names = _
      rw [drop_append_of_le_length hk, reverse_append, reverse_reverse,
        append_assoc]

section
variable {sub : Bytes} (hsub : PathName sub) (hslash : slash ∉ sub)
include hsub hslash

/-- The elements of a path below a subdirectory. -/
theorem pathJoin_sub (a c : Bytes) :
    pathJoin [a, sub, c] = renderPath (rooted a)
      (cleanSegs (rooted a) (splitSlash c) (sub :: (pathElems a).reverse)) := by
  have hsubElems : pathElems sub = [sub] := by
    rw [pathElems_of_names (names_of_notMem hsub hslash), splitSlash_of_notMem hslash]
  have hsubRoot : rooted sub = false := rooted_of_names (names_of_notMem hsub hslash)
  have hjoin : joinSlash [sub, c] = sub ++ slash :: c := by simp [joinSlash]
  by_cases ha : a = []
  · subst ha
    have hpath : pathJoin [[], sub, c] = pathClean (sub ++ slash :: c) := by
      rw [pathJoin, dropWhile_cons_of_pos (by rfl),
        dropWhile_cons_of_neg (by simpa using hsub.ne_nil)]
      exact congrArg pathClean hjoin
    rw [hpath, pathClean_eq, rooted_append hsub.ne_nil, hsubRoot,
      pathElems_append_any hsub.ne_nil, hsubRoot, hsubElems]
    rfl
  · have hpath : pathJoin [a, sub, c] = pathClean (a ++ slash :: (sub ++ slash :: c)) := by
      rw [pathJoin, dropWhile_cons_of_neg (by simpa using ha)]
      simp [joinSlash]
    rw [hpath, pathClean_eq, rooted_append ha, pathElems_append_any ha, splitSlash_append,
      splitSlash_of_notMem hslash, singleton_append, cleanSegs_cons, if_neg hsub.ne_dot,
      if_neg hsub.ne_dotdot]

theorem cleanElems_sub (a c : Bytes) :
    CleanElems (rooted a) (cleanSegs (rooted a) (splitSlash c) (sub :: (pathElems a).reverse)) := by
  refine cleanElems_cleanSegs (fun _ hs => slash_notMem_of_mem_splitSlash hs) ?_
  rw [reverse_cons, reverse_reverse]
  refine cleanElems_append (cleanElems_pathElems a) ?_
  intro s hs
  rw [mem_singleton.mp hs]
  exact ⟨hsub, hslash⟩

theorem rooted_pathJoin_sub (a c : Bytes) : rooted (pathJoin [a, sub, c]) = rooted a := by
  rw [pathJoin_sub hsub hslash]
  exact rooted_renderPath (cleanElems_sub hsub hslash a c)

theorem pathElems_pathJoin_sub (a c : Bytes) :
    pathElems (pathJoin [a, sub, c]) =
      cleanSegs (rooted a) (splitSlash c) (sub :: (pathElems a).reverse) := by
  rw [pathJoin_sub hsub hslash]
  exact pathElems_renderPath (cleanElems_sub hsub hslash a c)

/-- Two levels down. -/
theorem pathElems_sub_name (a : Bytes) (hname : PathName name) (hnameSlash : slash ∉ name) :
    pathElems (pathJoin [a, sub, name]) = pathElems a ++ [sub, name] := by
  rw [pathElems_pathJoin_sub hsub hslash, splitSlash_of_notMem hnameSlash, cleanSegs_cons,
    if_neg hname.ne_dot, if_neg hname.ne_dotdot]
  show (name :: sub :: (pathElems a).reverse).reverse = _
  rw [reverse_cons, reverse_cons, reverse_reverse, append_assoc]
  rfl

/-- What is left of the directory, and the names behind it. -/
theorem exists_names_of_levels (a : Bytes) (hlevels : levelsUp (splitSlash c) 0 ≤ 1) :
    ∃ names, (∀ seg ∈ names, PathName seg) ∧
      pathElems (pathJoin [a, sub, c]) =
        ((sub :: (pathElems a).reverse).drop (levelsUp (splitSlash c) 0)).reverse ++ names ∧
      levelsUp (splitSlash c ++ [[dot, dot]]) 0 =
        levelsUp (splitSlash c) 0 + if names = [] then 1 else 0 := by
  have hnil : ∀ s ∈ ([] : List Bytes), PathName s := forall_mem_nil _
  have hlen : levelsUp (splitSlash c) ([] : List Bytes).length ≤
      (sub :: (pathElems a).reverse).length :=
    le_trans hlevels (succ_le_succ (zero_le _))
  have htake : ∀ seg ∈ (sub :: (pathElems a).reverse).take (levelsUp (splitSlash c) 0),
      PathName seg := by
    intro seg hseg
    have hone : seg ∈ (sub :: (pathElems a).reverse).take 1 :=
      take_subset_take_left _ hlevels hseg
    rw [take_succ_cons, take_zero, mem_singleton] at hone
    exact hone ▸ hsub
  obtain ⟨names, hnames, hclean, hup⟩ := cleanSegs_levels (rooted a) hnil hlen htake
  exact ⟨names, hnames, (pathElems_pathJoin_sub hsub hslash a c).trans hclean, hup⟩

/-- **A path that climbs at most one level stays inside**, joined below a subdirectory. -/
theorem inside_join_levels (a : Bytes) (hlevels : levelsUp (splitSlash c) 0 ≤ 1) :
    Inside a (pathJoin [a, sub, c]) := by
  obtain ⟨names, hnames, helems, -⟩ := exists_names_of_levels hsub hslash a hlevels
  refine ⟨rooted_pathJoin_sub hsub hslash a c, ?_⟩
  rcases le_one_iff_eq_zero_or_eq_one.mp hlevels with hk | hk
  · refine ⟨sub :: names, forall_mem_cons.mpr ⟨hsub, hnames⟩, ?_⟩
    rw [helems, hk, drop_zero, reverse_cons, reverse_reverse, append_assoc]
    rfl
  · refine ⟨names, hnames, ?_⟩
    rw [helems, hk, drop_one, tail_cons, reverse_reverse]

/-- The directory above, if a further `..` stays inside. -/
theorem inside_dir_levels (a : Bytes) (hlevels : levelsUp (splitSlash c ++ [[dot, dot]]) 0 ≤ 1) :
    Inside a (pathDir (pathJoin [a, sub, c])) := by
  have hless := le_trans (levelsUp_append (splitSlash c) [[dot, dot]] 0) hlevels
  obtain ⟨names, hnames, helems, hup⟩ := exists_names_of_levels hsub hslash a hless
  -- something of the path is left below the directory
  obtain ⟨rest, hne, hrest, helems⟩ : ∃ rest, rest ≠ [] ∧ (∀ seg ∈ rest, PathName seg) ∧
      pathElems (pathJoin [a, sub, c]) = pathElems a ++ rest := by
    rcases le_one_iff_eq_zero_or_eq_one.mp hless with hk | hk
    · refine ⟨sub :: names, cons_ne_nil _ _, forall_mem_cons.mpr ⟨hsub, hnames⟩, ?_⟩
      rw [helems, hk, drop_zero, reverse_cons, reverse_reverse, append_assoc]
      rfl
    · refine ⟨names, ?_, hnames, ?_⟩
      · intro hnil
        rw [hup, hk, if_pos hnil] at hlevels
        omega
      · rw [helems, hk, drop_one, tail_cons, reverse_reverse]
  obtain ⟨front, last, rfl⟩ : ∃ front last, rest = front ++ [last] :=
    ⟨_, _, (dropLast_append_getLast hne).symm⟩
  have hslashes := (cleanElems_pathElems (pathJoin [a, sub, c])).slash
  rw [helems] at hslashes
  have hfront : ∀ seg ∈ front, PathName seg ∧ slash ∉ seg := by
    intro seg hseg
    have hmem : seg ∈ front ++ [last] := mem_append_left _ hseg
    exact ⟨hrest seg hmem, hslashes seg (mem_append_right _ hmem)⟩
  have hlast : slash ∉ last :=
    hslashes last (mem_append_right _ (mem_append_right _ (mem_singleton_self _)))
  have hrender : pathJoin [a, sub, c] = renderPath (rooted a) ((pathElems a ++ front) ++ [last]) := by
    rw [pathJoin_sub hsub hslash, ← pathElems_pathJoin_sub hsub hslash, helems, append_assoc]
  obtain ⟨hroot, hdir⟩ :=
    pathDir_renderPath (cleanElems_append (cleanElems_pathElems a) hfront) hlast
  rw [hrender]
  exact ⟨hroot, front, fun seg hseg => (hfront seg hseg).1, hdir⟩

/-- **A path that climbs two levels leaves the current directory.** -/
theorem not_inside_of_levels (hlevels : 2 ≤ levelsUp (splitSlash c) 0) :
    ¬ Inside [] (pathJoin [[], sub, c]) := by
  rintro ⟨-, names, hnames, helems⟩
  have hdots : [dot, dot] ∈ cleanSegs false (splitSlash c) ([] ++ [sub]) :=
    dotdot_of_levels (fun s hs => mem_singleton.mp hs ▸ hsub) hlevels
  have hmem : [dot, dot] ∈ names := by
    have heq := helems.symm.trans (pathElems_pathJoin_sub hsub hslash [] c)
    exact (show names = _ from heq) ▸ hdots
  exact (hnames _ hmem).ne_dotdot rfl

end

end GbfCore
