import GbfCore.Lib.Handles

/-!
# Growing a tree of directories

What a new directory does to the paths below a root: one path is added, and nothing else
changes (`grown_add`). `Grown` composes, so a sequence of such steps adds the paths of each.
Every other call leaves the directories as they are (`sameDirs_of_outcome`).
-/

namespace GbfCore

variable {a e x : Nat}
variable {path : List Bytes}

namespace Tree

variable {t : Tree}

theorem walk_lt (ha : a < t.fresh) (h : t.walk a path = some e) :
    e < t.fresh := by
  induction path generalizing a with
  | nil =>
    cases h
    exact ha
  | cons name path ih =>
    simp only [walk] at h
    split at h
    · cases h
    · rename_i x hentry
      split at h
      · exact ih (t.entry_lt hentry) h
      · cases h

/-- No directory has two paths below the root. -/
def Proper (t : Tree) (root : Nat) : Prop :=
  ∀ ⦃p q e⦄, t.walk root p = some e → t.walk root q = some e → p = q

/-- Nothing but directories stands on the way to a path. -/
def Clear (t : Tree) (root : Nat) (path : List Bytes) : Prop :=
  ∀ ⦃p name d x⦄, p ++ [name] <+: path → t.walk root p = some d → t.entry d name = some x →
    t.obj x = some .dir

/-- A walk goes through the directories before its end. -/
theorem walk_prefix {rest : List Bytes} (h : t.walk a (path ++ rest) = some e) :
    ∃ d, t.walk a path = some d ∧ t.walk d rest = some e := by
  induction path generalizing a with
  | nil => exact ⟨a, rfl, h⟩
  | cons name path ih =>
    simp only [List.cons_append, walk] at h ⊢
    split at h
    · cases h
    · split at h
      · rename_i hdir
        obtain ⟨d, hd, hrest⟩ := ih h
        exact ⟨d, (if_pos hdir).trans hd, hrest⟩
      · cases h

theorem clear_of_walk {root : Nat} (h : t.walk root path = some e) :
    t.Clear root path := by
  rintro p name d x ⟨rest, rfl⟩ hp hentry
  rw [List.append_assoc, walk_append hp, List.singleton_append, walk, hentry] at h
  by_contra hdir
  cases (if_neg hdir).symm.trans h

/-- These paths have become directories, and no others. -/
structure Grown (t t' : Tree) (root : Nat) (paths : Set (List Bytes)) : Prop where
  walk_iff : ∀ q, (∃ e, t'.walk root q = some e) ↔ (∃ e, t.walk root q = some e) ∨ q ∈ paths
  mono : ∀ {q e}, t.walk root q = some e → t'.walk root q = some e
  proper : t.Proper root → t'.Proper root
  clear : ∀ {q}, t.Clear root q → t'.Clear root q
  dir : t.obj root = some .dir → t'.obj root = some .dir

section
variable {root : Nat}

theorem Grown.refl : Grown t t root ∅ :=
  ⟨fun _ => (or_iff_left (Set.notMem_empty _)).symm, id, id, id, id⟩

theorem Grown.trans {t₁ t₂ : Tree} {A B : Set (List Bytes)} (h₁ : Grown t t₁ root A)
    (h₂ : Grown t₁ t₂ root B) : Grown t t₂ root (A ∪ B) where
  walk_iff q := by rw [h₂.walk_iff, h₁.walk_iff, Set.mem_union, or_assoc]
  mono h := h₂.mono (h₁.mono h)
  proper h := h₂.proper (h₁.proper h)
  clear h := h₂.clear (h₁.clear h)
  dir h := h₂.dir (h₁.dir h)

section
variable {d : Nat} (hd : t.obj d = some .dir) {name : Bytes} (hnone : t.entry d name = none)
include hnone

/-- What a walk finds in the larger tree. -/
theorem walk_add_cases {q : List Bytes} (ha : a < t.fresh)
    (h : (t.add d hd name .dir).walk a q = some e) :
    t.walk a q = some e ∨ (∃ p, t.walk a p = some d ∧ q = p ++ [name]) ∧ e = t.fresh := by
  induction q generalizing a with
  | nil => exact .inl h
  | cons n q ih =>
    simp only [walk, entry_add] at h
    split at h
    · cases h
    · rename_i x hentry
      split at h
      · rename_i hdir
        split at hentry
        · -- the new directory, which is empty
          rename_i hnew
          obtain ⟨rfl, rfl⟩ := hnew
          cases hentry
          cases q with
          | nil =>
            cases h
            exact .inr ⟨⟨[], rfl, rfl⟩, rfl⟩
          | cons n' q =>
            have hempty : (t.add a hd n .dir).entry t.fresh n' = none := by
              rw [entry_add, if_neg (fun heq => Nat.ne_of_gt ha heq.1)]
              cases hx : t.entry t.fresh n' with
              | none => rfl
              | some y => cases t.obj_fresh.symm.trans (t.entry_dir hx)
            rw [walk, hempty] at h
            cases h
        · rw [obj_add, if_neg (ne_fresh hentry)] at hdir
          have hwalk : ∀ path, t.walk a (n :: path) = t.walk x path := by
            intro path
            rw [walk, hentry]
            exact if_pos hdir
          rcases ih (t.entry_lt hentry) h with hold | ⟨⟨p, hp, rfl⟩, rfl⟩
          · exact .inl ((hwalk q).trans hold)
          · exact .inr ⟨⟨n :: p, (hwalk p).trans hp, rfl⟩, rfl⟩
      · cases h

/-- **A new directory adds one path.** -/
theorem grown_add (hdir : t.obj root = some .dir) (hproper : t.Proper root)
    (hwalk : t.walk root path = some d) :
    Grown t (t.add d hd name .dir) root {path ++ [name]} := by
  have hroot := t.obj_lt hdir
  have hkeeps : t.KeepsDirs (t.add d hd name .dir) := keepsDirs_add hnone
  have hnew : (t.add d hd name .dir).walk root (path ++ [name]) = some t.fresh := by
    refine walk_child (walk_mono hkeeps hwalk) ?_ ?_
    · rw [entry_add, if_pos ⟨rfl, rfl⟩]
    · rw [obj_add, if_pos rfl]
  have hpath : ∀ {p}, t.walk root p = some d → p = path := fun hp => hproper hp hwalk
  constructor
  · intro q
    constructor
    · rintro ⟨e, he⟩
      rcases walk_add_cases hd hnone hroot he with hold | ⟨⟨p, hp, rfl⟩, -⟩
      · exact .inl ⟨e, hold⟩
      · exact .inr (hpath hp ▸ rfl)
    · rintro (⟨e, he⟩ | rfl)
      · exact ⟨e, walk_mono hkeeps he⟩
      · exact ⟨_, hnew⟩
  · exact walk_mono hkeeps
  · intro _ p q e hp hq
    rcases walk_add_cases hd hnone hroot hp with hp | ⟨⟨p', hp', rfl⟩, rfl⟩
    · rcases walk_add_cases hd hnone hroot hq with hq | ⟨-, rfl⟩
      · exact hproper hp hq
      · exact absurd (walk_lt hroot hp) (Nat.lt_irrefl _)
    · rcases walk_add_cases hd hnone hroot hq with hq | ⟨⟨q', hq', rfl⟩, -⟩
      · exact absurd (walk_lt hroot hq) (Nat.lt_irrefl _)
      · rw [hpath hp', hpath hq']
  · intro q hclear p name' d' x hpre hp hentry
    rw [obj_add]
    split
    · rfl
    · rename_i hx
      rw [entry_add] at hentry
      split at hentry
      · exact absurd (Option.some.inj hentry).symm hx
      · rcases walk_add_cases hd hnone hroot hp with hp | ⟨-, rfl⟩
        · exact hclear hpre hp hentry
        · cases t.obj_fresh.symm.trans (t.entry_dir hentry)
  · exact obj_grow_of_obj

end

end

/-! ## The same directories -/

/-- The same inodes are directories, and they have the same names. -/
structure SameDirs (t t' : Tree) : Prop where
  obj : ∀ x, t'.obj x = some .dir ↔ t.obj x = some .dir
  entry : ∀ {d name x}, t.obj x = some .dir → (t'.entry d name = some x ↔ t.entry d name = some x)

theorem SameDirs.refl (t : Tree) : SameDirs t t := ⟨fun _ => .rfl, fun _ => .rfl⟩

theorem SameDirs.walk_iff {t' : Tree} (h : SameDirs t t') :
    t'.walk a path = some e ↔ t.walk a path = some e := by
  constructor
  · exact walk_mono fun hentry hdir =>
      have hdir := (h.obj _).mp hdir
      ⟨(h.entry hdir).mp hentry, hdir⟩
  · exact walk_mono fun hentry hdir => ⟨(h.entry hdir).mpr hentry, (h.obj _).mpr hdir⟩

theorem sameDirs_add {d : Nat} (hd : t.obj d = some .dir) {name content : Bytes}
    (hnone : t.entry d name = none) : SameDirs t (t.add d hd name (.file content)) := by
  have hobj : ∀ x, (t.add d hd name (.file content)).obj x = some .dir ↔ t.obj x = some .dir := by
    intro x
    rw [obj_add]
    split
    · rename_i hx
      rw [hx, t.obj_fresh]
      exact iff_of_false (by rintro ⟨⟩) (by rintro ⟨⟩)
    · exact .rfl
  refine ⟨hobj, fun {d' name' x} hdir => ?_⟩
  rw [entry_add]
  split
  · rename_i heq
    rw [heq.1, heq.2, hnone]
    refine iff_of_false (fun hx => ?_) (by rintro ⟨⟩)
    cases hx
    cases t.obj_fresh.symm.trans hdir
  · exact .rfl

theorem sameDirs_write {b b' : Bytes} (hx : t.obj x = some (.file b)) :
    SameDirs t (t.write x b b' hx) := by
  refine ⟨fun y => ?_, fun _ => .rfl⟩
  rw [obj_write]
  split
  · rename_i hy
    rw [hy, hx]
    exact iff_of_false nofun nofun
  · exact .rfl

theorem sameDirs_remove {d : Nat} (hd : t.obj d = some .dir) {name : Bytes}
    (hold : ∀ y, t.entry d name = some y → t.obj y ≠ some .dir) :
    SameDirs t (t.remove d hd name) := by
  refine ⟨fun _ => .rfl, fun {d' name' y} hdir => ?_⟩
  rw [entry_remove]
  split
  · rename_i heq
    rw [heq.1, heq.2]
    exact iff_of_false (by rintro ⟨⟩) fun hy => hold y hy hdir
  · exact .rfl

theorem sameDirs_move {d : Nat} (hd : t.obj d = some .dir) {source target : Bytes}
    (hx : t.entry d source = some x) (hfile : t.obj x ≠ some .dir)
    (htarget : ∀ y, t.entry d target = some y → t.obj y ≠ some .dir) :
    SameDirs t (t.move d hd source target x (t.entry_lt hx)) := by
  refine ⟨fun _ => .rfl, fun {d' name' y} hdir => ?_⟩
  rw [entry_move]
  split
  · rename_i heq
    rw [heq.1, heq.2, hx]
    refine iff_of_false (by rintro ⟨⟩) fun hy => ?_
    cases hy
    exact hfile hdir
  · split
    · rename_i heq
      rw [heq.1, heq.2]
      refine iff_of_false (fun hy => ?_) fun hy => htarget y hy hdir
      cases hy
      exact hfile hdir
    · exact .rfl

end Tree

/-! ## Calls -/

namespace DirCall

/-- The call can make a directory. -/
def MakesDir : DirCall → Prop
  | mkdirAll _ => True
  | mkdir _ _ => True
  | _ => False

variable {c : DirCall} {r : c.Answer} {m m' : Machine} {faults : Faults}

/-- **No other call changes the directories.** -/
theorem sameDirs_of_outcome (hc : ¬ c.MakesDir) (h : c.Outcome faults m r m') :
    m.tree.SameDirs m'.tree := by
  have hsame : ∀ {m' : Machine}, m' = m → m.tree.SameDirs m'.tree := by
    rintro _ rfl
    exact .refl _
  cases c with
  | mkdirAll path => exact absurd trivial hc
  | mkdir dir name => exact absurd trivial hc
  | openRoot path =>
    cases r with
    | error e => exact hsame h
    | ok f =>
      obtain ⟨x, -, -, rfl⟩ := h
      exact .refl _
  | openDir dir name =>
    cases r with
    | error e => exact hsame h.1
    | ok f =>
      obtain ⟨d, x, -, -, -, -, rfl⟩ := h
      exact .refl _
  | stat dir name => exact hsame h.1
  | chmod file mode => exact hsame h
  | sync fd => exact hsame h
  | utimes dir name => exact hsame h
  | close fd =>
    cases h
    exact .refl _
  | create dir name =>
    cases r with
    | error e => exact hsame h
    | ok f =>
      obtain ⟨d, hd, -, hnone, -, rfl⟩ := h
      exact Tree.sameDirs_add hd hnone
  | write file data =>
    cases r with
    | error e =>
      rcases h with h | ⟨x, b, k, hx, -, rfl⟩
      · exact hsame h
      · exact Tree.sameDirs_write hx
    | ok =>
      obtain ⟨x, b, hx, -, rfl⟩ := h
      exact Tree.sameDirs_write hx
  | rename dir source target =>
    cases r with
    | error e => exact hsame h
    | ok =>
      obtain ⟨d, x, hd, hx, -, hfile, htarget, rfl⟩ := h
      split
      · exact .refl _
      · exact Tree.sameDirs_move hd hx hfile htarget
  | unlink dir name =>
    cases r with
    | error e => exact hsame h.1
    | ok =>
      obtain ⟨d, hd, -, ⟨x, hx, hfile⟩, rfl⟩ := h
      refine Tree.sameDirs_remove hd fun y hy => ?_
      cases hx.symm.trans hy
      exact hfile

/-- A descriptor stays open until it is closed. -/
theorem fd_of_outcome {fd : Nat} (hc : c ≠ .close fd) (h : c.Outcome faults m r m')
    (hfd : m.fd fd = some x) : m'.fd fd = some x := by
  have hsame : ∀ {m' : Machine}, m' = m → m'.fd fd = some x := by
    rintro _ rfl
    exact hfd
  -- a new descriptor is another one
  have hnew : ∀ {f : Nat} {y : Option Nat}, m.fd f = none →
      Function.update m.fd f y fd = some x := by
    intro f y hf
    have hne : fd ≠ f := by
      rintro rfl
      cases hf.symm.trans hfd
    exact (Function.update_of_ne hne _ _).trans hfd
  cases c with
  | openRoot path =>
    cases r with
    | error e => exact hsame h
    | ok f =>
      obtain ⟨x, -, hf, rfl⟩ := h
      exact hnew hf
  | mkdirAll path =>
    cases r with
    | error e => exact hsame h
    | ok =>
      rcases h with rfl | rfl
      · exact hfd
      · exact hfd
  | openDir dir name =>
    cases r with
    | error e => exact hsame h.1
    | ok f =>
      obtain ⟨d, x, -, -, -, hf, rfl⟩ := h
      exact hnew hf
  | mkdir dir name =>
    cases r with
    | error e => exact hsame h.1
    | ok =>
      obtain ⟨d, hd, -, -, rfl⟩ := h
      exact hfd
  | stat dir name => exact hsame h.1
  | chmod file mode => exact hsame h
  | sync fd => exact hsame h
  | utimes dir name => exact hsame h
  | close fd' =>
    cases h
    have hne : fd ≠ fd' := fun heq => hc (heq ▸ rfl)
    exact (Function.update_of_ne hne _ _).trans hfd
  | create dir name =>
    cases r with
    | error e => exact hsame h
    | ok f =>
      obtain ⟨d, hd, -, -, hf, rfl⟩ := h
      exact hnew hf
  | write file data =>
    cases r with
    | error e =>
      rcases h with h | ⟨y, b, k, hy, -, rfl⟩
      · exact hsame h
      · exact hfd
    | ok =>
      obtain ⟨y, b, hy, -, rfl⟩ := h
      exact hfd
  | rename dir source target =>
    cases r with
    | error e => exact hsame h
    | ok =>
      obtain ⟨d, y, hd, hy, -, -, -, rfl⟩ := h
      split
      · exact hfd
      · exact hfd
  | unlink dir name =>
    cases r with
    | error e => exact hsame h.1
    | ok =>
      obtain ⟨d, hd, -, -, rfl⟩ := h
      exact hfd

end DirCall

end GbfCore
