import GbfCore.Lib.Path

/-!
# Clean paths

`filepath.Clean` reduces a path to its elements: names, behind a run of `..` if the
path is relative. A clean path is determined by these elements and by whether it is
rooted (`renderPath`), so that questions about paths become questions about lists of
names: joining appends elements, and a path lies inside another one if it has its
elements and names behind them.
-/

namespace GbfCore

open List

variable {b path seg : Bytes} {elems names : List Bytes} {isRooted : Bool}

/-! ## Splitting and joining -/

theorem slash_notMem_of_mem_splitSlash (h : seg ∈ splitSlash path) :
    slash ∉ seg := by
  unfold splitSlash at h
  rw [splitOn_eq_splitOnP] at h
  induction path generalizing seg with
  | nil =>
    rw [splitOnP_nil, mem_singleton] at h
    subst h
    exact not_mem_nil
  | cons b path ih =>
    rw [splitOnP_cons_eq_if_modifyHead] at h
    split at h
    · rcases mem_cons.mp h with rfl | h
      · exact not_mem_nil
      · exact ih h
    · rename_i hb
      obtain ⟨head, tail, hs⟩ := exists_cons_of_ne_nil (splitOnP_ne_nil (· == slash) path)
      rw [hs, modifyHead_cons] at h
      rcases mem_cons.mp h with rfl | h
      · have hhead : slash ∉ head := ih (by rw [hs]; exact mem_cons_self)
        intro hmem
        rcases mem_cons.mp hmem with rfl | hmem
        · exact hb (by decide)
        · exact hhead hmem
      · exact ih (by rw [hs]; exact mem_cons_of_mem _ h)

theorem splitSlash_ne_nil (path : Bytes) : splitSlash path ≠ [] := splitOnP_ne_nil _ _

theorem splitSlash_append (a b : Bytes) :
    splitSlash (a ++ slash :: b) = splitSlash a ++ splitSlash b :=
  splitOn_append_cons_self a b

theorem splitSlash_of_notMem {name : Bytes} (h : slash ∉ name) : splitSlash name = [name] :=
  splitOn_eq_singleton h

theorem splitSlash_sub {sub : Bytes} (h : slash ∉ sub) (b : Bytes) :
    splitSlash (sub ++ slash :: b) = sub :: splitSlash b := by
  rw [splitSlash_append, splitSlash_of_notMem h]
  rfl

theorem splitSlash_joinSlash {l : List Bytes} (hl : ∀ seg ∈ l, slash ∉ seg) (hne : l ≠ []) :
    splitSlash (joinSlash l) = l :=
  splitOn_intercalate slash hl hne

theorem joinSlash_splitSlash (path : Bytes) : joinSlash (splitSlash path) = path :=
  intercalate_splitOn slash

/-- A path that begins with a slash has an empty first segment. -/
theorem nil_mem_splitSlash (h : path.head? = some slash) :
    [] ∈ splitSlash path := by
  obtain ⟨rest, rfl⟩ := head?_eq_some_iff.mp h
  rw [← nil_append (slash :: rest), splitSlash_append, splitSlash, splitOn_nil]
  exact mem_append_left _ (mem_singleton.mpr rfl)

/-- A prefix without a slash goes to the first segment. -/
theorem splitSlash_prepend {pre : Bytes} (hpre : slash ∉ pre) (s : Bytes) :
    splitSlash (pre ++ s) = (splitSlash s).modifyHead (pre ++ ·) := by
  induction pre with
  | nil => exact (congrFun modifyHead_id (splitSlash s)).symm
  | cons b pre ih =>
    obtain ⟨hb, hpre⟩ := not_or.mp (mt mem_cons.mpr hpre)
    have hne : ¬ (b == slash) = true := fun heq => hb (eq_of_beq heq).symm
    rw [cons_append, splitSlash, splitOn, splitOnP_cons_eq_if_modifyHead, if_neg hne]
    refine (congrArg (modifyHead (cons b)) (ih hpre)).trans ?_
    rw [modifyHead_modifyHead]
    rfl

/-- The segments of a path with a prefix are those of the path, but for the first. -/
theorem mem_splitSlash_prepend {pre : Bytes} (hpre : slash ∉ pre) {s : Bytes} :
    ∀ seg ∈ splitSlash (pre ++ s), seg ∈ splitSlash s ∨ ∃ t, seg = pre ++ t := by
  intro seg hseg
  obtain ⟨head, tail, hs⟩ := exists_cons_of_ne_nil (splitSlash_ne_nil s)
  rw [splitSlash_prepend hpre, hs, modifyHead_cons] at hseg
  rw [hs]
  rcases mem_cons.mp hseg with heq | htail
  · exact .inr ⟨head, heq⟩
  · exact .inl (mem_cons_of_mem _ htail)

theorem joinSlash_append {l l' : List Bytes} (hl : l ≠ []) (hl' : l' ≠ []) :
    joinSlash (l ++ l') = joinSlash l ++ slash :: joinSlash l' := by
  induction l with
  | nil => exact absurd rfl hl
  | cons a rest ih =>
    cases rest with
    | nil =>
      obtain ⟨b, tail, rfl⟩ := exists_cons_of_ne_nil hl'
      simp [joinSlash]
    | cons b rest =>
      have hcons : ∀ t : List Bytes, joinSlash (a :: b :: t) = a ++ slash :: joinSlash (b :: t) := by
        intro t
        simp [joinSlash]
      have ih := ih (cons_ne_nil b rest)
      rw [cons_append] at ih
      rw [cons_append, cons_append, hcons, hcons, ih, append_assoc, cons_append]

theorem joinSlash_suffix (front : List Bytes) (last suffix : Bytes) :
    joinSlash (front ++ [last]) ++ suffix = joinSlash (front ++ [last ++ suffix]) := by
  cases front with
  | nil => simp [joinSlash]
  | cons x front =>
    rw [joinSlash_append (cons_ne_nil x front) (cons_ne_nil last []),
      joinSlash_append (cons_ne_nil x front) (cons_ne_nil (last ++ suffix) [])]
    simp [joinSlash]

/-- A suffix without a slash goes to the last segment. -/
theorem splitSlash_suffix {b last suffix : Bytes} {front : List Bytes} (hslash : slash ∉ suffix)
    (h : splitSlash b = front ++ [last]) :
    splitSlash (b ++ suffix) = front ++ [last ++ suffix] := by
  have hparts : ∀ seg ∈ front ++ [last], slash ∉ seg :=
    fun seg hseg => slash_notMem_of_mem_splitSlash (h ▸ hseg)
  have hb : b ++ suffix = joinSlash (front ++ [last ++ suffix]) := by
    rw [← joinSlash_suffix, ← h, joinSlash_splitSlash]
  rw [hb]
  refine splitSlash_joinSlash ?_ (append_ne_nil_of_right_ne_nil _ (cons_ne_nil _ _))
  intro seg hseg
  rcases mem_append.mp hseg with hseg | hseg
  · exact hparts seg (mem_append_left _ hseg)
  · rw [mem_singleton.mp hseg]
    have hlast := hparts last (mem_append_right _ (mem_singleton_self _))
    exact fun hmem => (mem_append.mp hmem).elim hlast hslash

/-- The segments of a path with a suffix are those of the path, but for the last. -/
theorem mem_splitSlash_append {b suffix : Bytes} (hslash : slash ∉ suffix) :
    ∀ seg ∈ splitSlash (b ++ suffix), seg ∈ splitSlash b ∨ ∃ t, seg = t ++ suffix := by
  intro seg hseg
  have hsplit := (dropLast_append_getLast (splitSlash_ne_nil b)).symm
  rw [splitSlash_suffix hslash hsplit] at hseg
  rw [hsplit]
  rcases mem_append.mp hseg with hfront | hlast
  · exact .inl (mem_append_left _ hfront)
  · exact .inr ⟨_, mem_singleton.mp hlast⟩

/-! ## Names -/

/-- A name that can be an element of a clean path. -/
structure PathName (seg : Bytes) : Prop where
  ne_nil : seg ≠ []
  not_dot : isDotName seg = false

/-- A path whose elements are all names. -/
abbrev PathNames (path : Bytes) : Prop := ∀ seg ∈ splitSlash path, PathName seg

theorem PathName.sub {sub b : Bytes} (hsub : PathName sub) (hslash : slash ∉ sub)
    (hb : PathNames b) : PathNames (sub ++ slash :: b) := by
  rw [PathNames, splitSlash_sub hslash]
  exact forall_mem_cons.mpr ⟨hsub, hb⟩

theorem PathName.ne_dot (h : PathName seg) : ¬ (seg = [] ∨ seg = [dot]) := by
  rintro (hnil | hdot)
  · exact h.ne_nil hnil
  · have := h.not_dot
    rw [isDotName_iff.mpr (.inl hdot)] at this
    cases this

theorem PathName.ne_dotdot (h : PathName seg) : seg ≠ [dot, dot] := by
  intro hdot
  have := h.not_dot
  rw [isDotName_iff.mpr (.inr hdot)] at this
  cases this

theorem pathName_of_ne (h : ¬ (seg = [] ∨ seg = [dot])) (h' : seg ≠ [dot, dot]) :
    PathName seg := by
  refine ⟨fun hnil => h (.inl hnil), ?_⟩
  by_contra hname
  rcases isDotName_iff.mp (Bool.not_eq_false _ ▸ hname) with hdot | hdot
  · exact h (.inr hdot)
  · exact h' hdot

theorem pathName_of_mem {b : UInt8} (h : b ∈ seg) (hb : b ≠ dot) : PathName seg := by
  refine ⟨ne_nil_of_mem h, ?_⟩
  by_contra hname
  rcases isDotName_iff.mp (Bool.not_eq_false _ ▸ hname) with rfl | rfl
  · exact hb (mem_singleton.mp h)
  · simp only [mem_cons, not_mem_nil, or_false, or_self] at h
    exact hb h

/-! ## The elements of a clean path -/

/-- The path is absolute. -/
def rooted (path : Bytes) : Bool := decide (path.head? = some slash)

/-- The elements of the cleaned path. -/
def pathElems (path : Bytes) : List Bytes := cleanSegs (rooted path) (splitSlash path) []

/-- The clean path with these elements. -/
def renderPath (isRooted : Bool) (elems : List Bytes) : Bytes :=
  if isRooted then slash :: joinSlash elems else if elems = [] then [dot] else joinSlash elems

theorem pathClean_eq (path : Bytes) : pathClean path = renderPath (rooted path) (pathElems path) :=
  rfl

/-- Names behind a run of `..`, which a rooted path does not have. -/
structure CleanElems (isRooted : Bool) (elems : List Bytes) : Prop where
  shape : ∃ k names, elems = replicate k [dot, dot] ++ names ∧
    (isRooted = true → k = 0) ∧ ∀ seg ∈ names, PathName seg
  slash : ∀ seg ∈ elems, slash ∉ seg

theorem cleanSegs_cons (isRooted : Bool) (seg : Bytes) (rest kept : List Bytes) :
    cleanSegs isRooted (seg :: rest) kept =
      if seg = [] ∨ seg = [dot] then cleanSegs isRooted rest kept
      else if seg = [dot, dot] then
        match kept with
        | [] => cleanSegs isRooted rest (if isRooted then [] else [seg])
        | top :: below =>
          if top = [dot, dot] then cleanSegs isRooted rest (seg :: kept)
          else cleanSegs isRooted rest below
      else cleanSegs isRooted rest (seg :: kept) :=
  cleanSegs.eq_def isRooted (seg :: rest) kept

/-- One part of a path after another. -/
theorem cleanSegs_split (isRooted : Bool) (segs rest : List Bytes) : ∀ kept,
    cleanSegs isRooted (segs ++ rest) kept =
      cleanSegs isRooted rest (cleanSegs isRooted segs kept).reverse := by
  induction segs with
  | nil =>
    intro kept
    show cleanSegs isRooted rest kept = cleanSegs isRooted rest kept.reverse.reverse
    rw [reverse_reverse]
  | cons seg segs ih =>
    intro kept
    rw [cons_append, cleanSegs_cons, cleanSegs_cons]
    split
    · exact ih kept
    · split
      · cases kept with
        | nil => exact ih _
        | cons top below =>
          dsimp only
          split
          · exact ih _
          · exact ih _
      · exact ih _

/-- Names are kept. -/
theorem cleanSegs_names (h : ∀ seg ∈ names, PathName seg) :
    ∀ kept, cleanSegs isRooted names kept = kept.reverse ++ names := by
  induction names with
  | nil =>
    intro kept
    exact (append_nil _).symm
  | cons seg rest ih =>
    intro kept
    obtain ⟨hseg, hrest⟩ := forall_mem_cons.mp h
    rw [cleanSegs_cons, if_neg hseg.ne_dot, if_neg hseg.ne_dotdot, ih hrest, reverse_cons,
      append_assoc, singleton_append]

/-- The names at the end of a path are its last elements. -/
theorem cleanSegs_append (h : ∀ seg ∈ names, PathName seg) (segs : List Bytes) (kept : List Bytes) :
    cleanSegs isRooted (segs ++ names) kept = cleanSegs isRooted segs kept ++ names := by
  rw [cleanSegs_split, cleanSegs_names h, reverse_reverse]

/-- The run of `..` in front of a relative path is kept. -/
theorem cleanSegs_dots (k : Nat) (rest : List Bytes) : ∀ n,
    cleanSegs false (replicate k [dot, dot] ++ rest) (replicate n [dot, dot]) =
      cleanSegs false rest (replicate (n + k) [dot, dot]) := by
  induction k with
  | zero => intro n; rfl
  | succ k ih =>
    intro n
    rw [replicate_succ, cons_append, cleanSegs_cons, if_neg (by decide), if_pos rfl]
    have hstep : cleanSegs false (replicate k [dot, dot] ++ rest)
        (replicate (n + 1) [dot, dot]) = cleanSegs false rest
          (replicate (n + (k + 1)) [dot, dot]) := by
      rw [ih, show n + 1 + k = n + (k + 1) by omega]
    cases n with
    | zero => exact hstep
    | succ n => exact hstep

/-- Cleaning leaves clean elements as they are. -/
theorem cleanSegs_clean (h : CleanElems isRooted elems) :
    cleanSegs isRooted elems [] = elems := by
  obtain ⟨k, names, rfl, hk, hnames⟩ := h.shape
  cases isRooted with
  | true =>
    rw [hk rfl]
    exact cleanSegs_names hnames []
  | false =>
    refine Eq.trans (cleanSegs_dots k names 0) ?_
    rw [cleanSegs_names hnames, reverse_replicate, Nat.zero_add]

/-- Cleaning gives clean elements. The elements so far are names on top of the run of
`..`. -/
theorem cleanElems_cleanSegs {segs : List Bytes} (hslash : ∀ seg ∈ segs, slash ∉ seg)
    {kept : List Bytes} (hkept : CleanElems isRooted kept.reverse) :
    CleanElems isRooted (cleanSegs isRooted segs kept) := by
  induction segs generalizing kept with
  | nil => exact hkept
  | cons seg rest ih =>
    obtain ⟨hseg, hrest⟩ := forall_mem_cons.mp hslash
    obtain ⟨k, names, heq, hk, hnames⟩ := hkept.shape
    rw [cleanSegs_cons]
    split
    · exact ih hrest hkept
    · rename_i hdot
      split
      · rename_i hdotdot
        subst hdotdot
        cases kept with
        | nil =>
          cases isRooted with
          | true => exact ih hrest hkept
          | false =>
            exact ih hrest ⟨⟨1, [], rfl, nofun, nofun⟩, fun s hs => by
              rw [mem_singleton.mp hs]
              exact hseg⟩
        | cons top below =>
          rw [reverse_cons] at heq
          have hslash' : ∀ s ∈ below.reverse, slash ∉ s := fun s hs =>
            hkept.slash s (by rw [reverse_cons]; exact mem_append_left _ hs)
          dsimp only
          split
          · -- `..` on top: there is no name yet
            rename_i htop
            subst htop
            have hnil : names = [] := by
              rcases eq_nil_or_concat names with hnil | ⟨init, last, rfl⟩
              · exact hnil
              · rw [concat_eq_append, ← append_assoc] at heq
                have hlast : [dot, dot] = last :=
                  singleton_inj.mp (append_inj_right' heq rfl)
                exact absurd hlast.symm (hnames last (by simp)).ne_dotdot
            subst hnil
            have hroot : isRooted = false := by
              cases isRooted with
              | false => rfl
              | true =>
                rw [hk rfl] at heq
                exact absurd (congrArg length heq) (by simp)
            refine ih hrest ⟨⟨k + 1, [], ?_, ?_, nofun⟩, ?_⟩
            · rw [reverse_cons, reverse_cons, heq, append_nil, append_nil,
                replicate_succ']
            · intro htrue
              rw [hroot] at htrue
              cases htrue
            · intro s hs
              rw [reverse_cons] at hs
              rcases mem_append.mp hs with hs | hs
              · exact hkept.slash s hs
              · rw [mem_singleton.mp hs]
                exact hseg
          · -- a name on top goes
            rename_i htop
            refine ih hrest ⟨?_, hslash'⟩
            rcases eq_nil_or_concat names with rfl | ⟨init, last, rfl⟩
            · cases k with
              | zero => exact absurd (congrArg length heq) (by simp)
              | succ k =>
                rw [append_nil, replicate_succ'] at heq
                exact absurd (singleton_inj.mp (append_inj_right' heq rfl)) htop
            · rw [concat_eq_append, ← append_assoc] at heq
              exact ⟨k, init, append_inj_left' heq rfl, hk,
                fun s hs => hnames s (by simp [hs])⟩
      · rename_i hdotdot
        refine ih hrest ⟨⟨k, names ++ [seg], ?_, hk, ?_⟩, ?_⟩
        · rw [reverse_cons, heq, append_assoc]
        · intro s hs
          rcases mem_append.mp hs with hs | hs
          · exact hnames s hs
          · rw [mem_singleton.mp hs]
            exact pathName_of_ne hdot hdotdot
        · intro s hs
          rw [reverse_cons] at hs
          rcases mem_append.mp hs with hs | hs
          · exact hkept.slash s hs
          · rw [mem_singleton.mp hs]
            exact hseg

theorem cleanElems_pathElems (path : Bytes) : CleanElems (rooted path) (pathElems path) :=
  cleanElems_cleanSegs (fun _ hs => slash_notMem_of_mem_splitSlash hs)
    ⟨⟨0, [], rfl, fun _ => rfl, nofun⟩, nofun⟩

/-! ## Rendering and reading -/

theorem head?_joinSlash_ne (h : CleanElems isRooted elems) (hne : elems ≠ []) :
    (joinSlash elems).head? ≠ some slash := by
  intro hhead
  have hmem : [] ∈ splitSlash (joinSlash elems) := nil_mem_splitSlash hhead
  rw [splitSlash_joinSlash h.slash hne] at hmem
  obtain ⟨k, names, rfl, -, hnames⟩ := h.shape
  rcases mem_append.mp hmem with hmem | hmem
  · exact absurd (eq_of_mem_replicate hmem) (by decide)
  · exact (hnames _ hmem).ne_nil rfl

theorem rooted_renderPath (h : CleanElems isRooted elems) :
    rooted (renderPath isRooted elems) = isRooted := by
  cases isRooted with
  | true => rfl
  | false =>
    rw [renderPath, if_neg (by decide)]
    split
    · rfl
    · rename_i hne
      exact decide_eq_false (head?_joinSlash_ne h hne)

/-- A rendered path has the elements it was rendered from. -/
theorem pathElems_renderPath (h : CleanElems isRooted elems) :
    pathElems (renderPath isRooted elems) = elems := by
  rw [pathElems, rooted_renderPath h]
  by_cases hne : elems = []
  · subst hne
    cases isRooted <;> rfl
  · have hsplit := splitSlash_joinSlash h.slash hne
    cases isRooted with
    | true =>
      show cleanSegs true (splitSlash ([] ++ slash :: joinSlash elems)) [] = elems
      rw [splitSlash_append, hsplit]
      exact cleanSegs_clean h
    | false =>
      rw [renderPath, if_neg (by decide), if_neg hne, hsplit]
      exact cleanSegs_clean h

theorem rooted_pathClean (path : Bytes) : rooted (pathClean path) = rooted path :=
  rooted_renderPath (cleanElems_pathElems path)

theorem pathElems_pathClean (path : Bytes) : pathElems (pathClean path) = pathElems path :=
  pathElems_renderPath (cleanElems_pathElems path)

/-! ## Joining -/

theorem rooted_append {a : Bytes} (ha : a ≠ []) (b : Bytes) : rooted (a ++ b) = rooted a := by
  cases a with
  | nil => exact absurd rfl ha
  | cons x a => rfl

/-- The elements of a path with names behind it. -/
theorem pathElems_append {a : Bytes} (ha : a ≠ []) (hb : PathNames b) :
    pathElems (a ++ slash :: b) = pathElems a ++ splitSlash b := by
  rw [pathElems, rooted_append ha, splitSlash_append, cleanSegs_append hb]
  rfl

theorem pathElems_of_names (hb : PathNames b) :
    pathElems b = splitSlash b :=
  cleanSegs_names hb []

theorem rooted_of_names (hb : PathNames b) :
    rooted b = false :=
  decide_eq_false fun hhead => (hb _ (nil_mem_splitSlash hhead)).ne_nil rfl

/-- **Joining names to a path appends them to its elements.** -/
theorem pathJoin_names (a : Bytes) (hb : PathNames b) :
    pathJoin [a, b] = renderPath (rooted a) (pathElems a ++ splitSlash b) := by
  have hbne : b ≠ [] := by
    rintro rfl
    exact (hb [] (by decide)).ne_nil rfl
  by_cases ha : a = []
  · subst ha
    have hdrop : ([[], b] : List Bytes).dropWhile (· == []) = [b] := by
      rw [dropWhile_cons_of_pos rfl, dropWhile_cons_of_neg (by simpa using hbne)]
    rw [pathJoin, hdrop]
    show pathClean (joinSlash [b]) = _
    rw [show joinSlash [b] = b by simp [joinSlash], pathClean_eq, pathElems_of_names hb,
      rooted_of_names hb]
    rfl
  · have hdrop : ([a, b] : List Bytes).dropWhile (· == []) = [a, b] := by
      rw [dropWhile_cons_of_neg (by simpa using ha)]
    rw [pathJoin, hdrop]
    show pathClean (joinSlash [a, b]) = _
    rw [show joinSlash [a, b] = a ++ slash :: b by simp [joinSlash], pathClean_eq,
      rooted_append ha, pathElems_append ha hb]

theorem cleanElems_append (h : CleanElems isRooted elems)
    (hnames : ∀ seg ∈ names, PathName seg ∧ slash ∉ seg) :
    CleanElems isRooted (elems ++ names) := by
  obtain ⟨k, front, rfl, hk, hfront⟩ := h.shape
  refine ⟨⟨k, front ++ names, (append_assoc _ _ _), hk, ?_⟩, ?_⟩
  · intro s hs
    rcases mem_append.mp hs with hs | hs
    · exact hfront s hs
    · exact (hnames s hs).1
  · intro s hs
    rcases mem_append.mp hs with hs | hs
    · exact h.slash s hs
    · exact (hnames s hs).2

/-- A path with another one joined below it, three parts at once. -/
theorem pathJoin_three (hb : b ≠ []) (a c : Bytes) :
    pathJoin [a, b, c] = pathJoin [a, b ++ slash :: c] := by
  have hne : b ++ slash :: c ≠ [] := by simp
  by_cases ha : a = []
  · subst ha
    rw [pathJoin, pathJoin, dropWhile_cons_of_pos (a := []) rfl,
      dropWhile_cons_of_pos (a := []) rfl, dropWhile_cons_of_neg (by simpa using hb),
      dropWhile_cons_of_neg (by simp)]
    show pathClean (joinSlash [b, c]) = pathClean (joinSlash [b ++ slash :: c])
    simp [joinSlash]
  · rw [pathJoin, pathJoin, dropWhile_cons_of_neg (by simpa using ha),
      dropWhile_cons_of_neg (by simpa using ha)]
    show pathClean (joinSlash [a, b, c]) = pathClean (joinSlash [a, b ++ slash :: c])
    simp [joinSlash]

/-- A path below one that has elements. -/
theorem renderPath_append (hne : elems ≠ []) (b : Bytes) :
    renderPath isRooted (elems ++ splitSlash b) = renderPath isRooted elems ++ slash :: b := by
  have hjoin : joinSlash (elems ++ splitSlash b) = joinSlash elems ++ slash :: b := by
    rw [joinSlash_append hne (splitSlash_ne_nil b), joinSlash_splitSlash]
  have hne' : elems ++ splitSlash b ≠ [] := append_ne_nil_of_left_ne_nil hne _
  cases isRooted with
  | true =>
    rw [renderPath, renderPath, if_pos rfl, if_pos rfl, hjoin]
    rfl
  | false =>
    rw [renderPath, if_neg (by decide), if_neg hne', renderPath, if_neg (by decide), if_neg hne,
      hjoin]

/-- Joining names to a clean path with elements. -/
theorem pathJoin_renderPath (h : CleanElems isRooted elems) (hne : elems ≠ [])
    (hb : PathNames b) :
    pathJoin [renderPath isRooted elems, b] = renderPath isRooted elems ++ slash :: b := by
  rw [pathJoin_names _ hb, rooted_renderPath h, pathElems_renderPath h, renderPath_append hne]

/-! ## Absolute and relative paths -/

/-- A working directory (`os.Getwd`). -/
structure WorkDir where
  path : Bytes
  rooted : rooted path = true

/-- `filepath.Abs`. -/
def pathAbs (cwd : WorkDir) (path : Bytes) : Bytes :=
  if rooted path then pathClean path else pathJoin [cwd.path, path]

theorem rooted_pathAbs (cwd : WorkDir) (path : Bytes) : rooted (pathAbs cwd path) = true := by
  unfold pathAbs
  split
  · rename_i hroot
    rw [rooted_pathClean, hroot]
  · have hne : cwd.path ≠ [] := by
      intro hnil
      have := cwd.rooted
      rw [hnil] at this
      cases this
    have hjoin : pathJoin [cwd.path, path] = pathClean (joinSlash [cwd.path, path]) := by
      rw [pathJoin, dropWhile_cons_of_neg (by simpa using hne)]
    rw [hjoin, rooted_pathClean]
    exact (rooted_append hne _).trans cwd.rooted

/-- The way from the elements of one path to those of another. -/
def relElems : List Bytes → List Bytes → List Bytes
  | b :: base, t :: targ =>
    if b = t then relElems base targ
    else replicate (base.length + 1) [dot, dot] ++ t :: targ
  | base, targ => replicate base.length [dot, dot] ++ targ

/-- `filepath.Rel` of two absolute paths, where it does not fail. -/
def pathRel (base targ : Bytes) : Bytes :=
  if pathElems base = pathElems targ then [dot]
  else joinSlash (relElems (pathElems base) (pathElems targ))

theorem relElems_append (base names : List Bytes) : relElems base (base ++ names) = names := by
  induction base with
  | nil => cases names <;> rfl
  | cons b base ih =>
    rw [cons_append, relElems, if_pos rfl, ih]

theorem pathElems_pathJoin (a : Bytes) (hb : PathNames b) :
    pathElems (pathJoin [a, b]) = pathElems a ++ splitSlash b := by
  rw [pathJoin_names a hb]
  refine pathElems_renderPath (cleanElems_append (cleanElems_pathElems a) ?_)
  exact fun seg hseg => ⟨hb seg hseg, slash_notMem_of_mem_splitSlash hseg⟩

/-- The way back from what was joined. -/
theorem pathRel_pathJoin (a : Bytes) (hb : PathNames b) :
    pathRel a (pathJoin [a, b]) = b := by
  unfold pathRel
  rw [pathElems_pathJoin a hb, if_neg, relElems_append, joinSlash_splitSlash]
  intro heq
  exact splitSlash_ne_nil b (self_eq_append_right.mp heq)

theorem pathClean_of_names (hb : PathNames b) :
    pathClean b = b := by
  rw [pathClean_eq, rooted_of_names hb, pathElems_of_names hb, renderPath, if_neg (by decide),
    if_neg (splitSlash_ne_nil b), joinSlash_splitSlash]

/-- A byte of a path that is not a slash stands in a segment. -/
theorem exists_mem_splitSlash {b : UInt8} (h : b ∈ path) (hb : b ≠ slash) :
    ∃ seg ∈ splitSlash path, b ∈ seg := by
  have hjoin : ∀ l : List Bytes, b ∈ joinSlash l → ∃ seg ∈ l, b ∈ seg := by
    intro l
    induction l with
    | nil => exact fun h => absurd h not_mem_nil
    | cons a rest ih =>
      cases rest with
      | nil => exact fun h => ⟨a, mem_singleton_self a, by simpa [joinSlash] using h⟩
      | cons c rest =>
        intro h
        have happ : joinSlash (a :: c :: rest) = a ++ slash :: joinSlash (c :: rest) := by
          refine (joinSlash_append (cons_ne_nil a []) (cons_ne_nil c rest)).trans ?_
          simp [joinSlash]
        rw [happ] at h
        rcases mem_append.mp h with h | h
        · exact ⟨a, mem_cons_self, h⟩
        · obtain ⟨seg, hseg, hmem⟩ := ih ((mem_cons.mp h).resolve_left hb)
          exact ⟨seg, mem_cons_of_mem a hseg, hmem⟩
  rw [← joinSlash_splitSlash path] at h
  exact hjoin _ h

end GbfCore
