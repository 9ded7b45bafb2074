import GbfCore.Lib.Calls
import GbfCore.Lib.Path

/-!
# Directories through handles

A tree of directories, files and symbolic links, and the POSIX calls that name an entry
by an open directory and one name: `openat`, `mkdirat`, `renameat` and so on. A `Machine`
is such a tree together with the descriptors of a process. It also keeps what has
happened: which directories were opened from the root through real directory entries,
which files were created in those, and which of the created names are still there.

`DirCall.Outcome` is what each call can answer and leave behind. Where `faults.io` holds
any call may fail at any time.
-/

namespace GbfCore

open Function Nat

variable {b b' name name' : Bytes} {d' e : Nat} {path : List Bytes} {o : Obj} {x : Nat} {d : Nat}

/-- What an inode is. The entries of a directory are kept apart. -/
inductive Obj where
  | file (content : Bytes)
  | dir
  | link (target : Bytes)
deriving DecidableEq

/-- Inodes and the entries of the directories among them. -/
structure Tree where
  obj : Nat → Option Obj
  entry : Nat → Bytes → Option Nat
  /-- The next inode number. -/
  fresh : Nat
  obj_lt : ∀ {x o}, obj x = some o → x < fresh
  entry_lt : ∀ {d name x}, entry d name = some x → x < fresh
  entry_dir : ∀ {d name x}, entry d name = some x → obj d = some .dir

namespace Tree

variable (t : Tree)

theorem obj_fresh : t.obj t.fresh = none := by
  cases h : t.obj t.fresh with
  | none => rfl
  | some o => exact absurd (t.obj_lt h) (lt_irrefl _)

/-- What stands under a name. -/
def held (d : Nat) (name : Bytes) : Option Obj := (t.entry d name).bind t.obj

/-- Change one entry of a directory. -/
def setEntry (d : Nat) (hd : t.obj d = some .dir) (name : Bytes) (x : Option Nat)
    (hx : ∀ y, x = some y → y < t.fresh) : Tree where
  obj := t.obj
  entry := update t.entry d (update (t.entry d) name x)
  fresh := t.fresh
  obj_lt := t.obj_lt
  entry_lt := by
    intro d' name' y h
    by_cases hd' : d' = d
    · subst hd'
      rw [update_self] at h
      by_cases hname : name' = name
      · subst hname
        rw [update_self] at h
        exact hx y h
      · rw [update_of_ne hname] at h
        exact t.entry_lt h
    · rw [update_of_ne hd'] at h
      exact t.entry_lt h
  entry_dir := by
    intro d' name' y h
    by_cases hd' : d' = d
    · exact hd' ▸ hd
    · rw [update_of_ne hd'] at h
      exact t.entry_dir h

/-- A new inode, without a name yet. -/
def grow (o : Obj) : Tree where
  obj := update t.obj t.fresh (some o)
  entry := t.entry
  fresh := t.fresh + 1
  obj_lt := by
    intro x o' h
    by_cases hx : x = t.fresh
    · exact hx ▸ lt_succ_self _
    · rw [update_of_ne hx] at h
      exact lt_succ_of_lt (t.obj_lt h)
  entry_lt h := lt_succ_of_lt (t.entry_lt h)
  entry_dir := by
    intro d name x h
    have hdir := t.entry_dir h
    have hne : d ≠ t.fresh := fun heq => lt_irrefl _ (heq ▸ t.obj_lt hdir)
    rw [update_of_ne hne]
    exact hdir

theorem obj_grow_of_obj {t : Tree} {o' : Obj} (h : t.obj x = some o) :
    (t.grow o').obj x = some o := by
  have hne : x ≠ t.fresh := fun heq => lt_irrefl _ (heq ▸ t.obj_lt h)
  exact (update_of_ne hne _ _).trans h

/-- A new inode under a name. -/
def add (d : Nat) (hd : t.obj d = some .dir) (name : Bytes) (o : Obj) : Tree :=
  (t.grow o).setEntry d (obj_grow_of_obj hd) name (some t.fresh) fun y hy => by
    cases hy
    exact lt_succ_self _

/-- Give a file this content. -/
def write (x : Nat) (b b' : Bytes) (hx : t.obj x = some (.file b)) : Tree where
  obj := update t.obj x (some (.file b'))
  entry := t.entry
  fresh := t.fresh
  obj_lt := by
    intro y o h
    by_cases hy : y = x
    · exact hy ▸ t.obj_lt hx
    · rw [update_of_ne hy] at h
      exact t.obj_lt h
  entry_lt := t.entry_lt
  entry_dir := by
    intro d name y h
    have hdir := t.entry_dir h
    have hne : d ≠ x := by
      rintro rfl
      cases hdir.symm.trans hx
    rw [update_of_ne hne]
    exact hdir

/-- Take a name away. -/
def remove (d : Nat) (hd : t.obj d = some .dir) (name : Bytes) : Tree :=
  t.setEntry d hd name none fun _ h => nomatch h

/-- Move an inode from one name of a directory to another. -/
def move (d : Nat) (hd : t.obj d = some .dir) (source target : Bytes) (x : Nat)
    (hx : x < t.fresh) : Tree :=
  (t.setEntry d hd target (some x) fun y hy => by cases hy; exact hx).remove d hd source

section
variable {t} {d : Nat} {hd : t.obj d = some .dir}

theorem entry_setEntry {x : Option Nat} {hx : ∀ y, x = some y → y < t.fresh} (d' : Nat)
    (name' : Bytes) :
    (t.setEntry d hd name x hx).entry d' name' =
      if d' = d ∧ name' = name then x else t.entry d' name' := by
  show update t.entry d (update (t.entry d) name x) d' name' = _
  by_cases hd' : d' = d
  · subst hd'
    rw [update_self]
    by_cases hname : name' = name
    · subst hname
      rw [update_self, if_pos ⟨rfl, rfl⟩]
    · rw [update_of_ne hname, if_neg (fun h => hname h.2)]
  · rw [update_of_ne hd', if_neg (fun h => hd' h.1)]

theorem entry_add (d' : Nat) (name' : Bytes) :
    (t.add d hd name o).entry d' name' =
      if d' = d ∧ name' = name then some t.fresh else t.entry d' name' :=
  entry_setEntry d' name'

theorem entry_remove (d' : Nat) (name' : Bytes) :
    (t.remove d hd name).entry d' name' =
      if d' = d ∧ name' = name then none else t.entry d' name' :=
  entry_setEntry d' name'

theorem entry_move {source target : Bytes} {hx : x < t.fresh} (d' : Nat) (name' : Bytes) :
    (t.move d hd source target x hx).entry d' name' =
      if d' = d ∧ name' = source then none
      else if d' = d ∧ name' = target then some x else t.entry d' name' := by
  refine (entry_remove d' name').trans ?_
  rw [entry_setEntry]

theorem obj_add (x : Nat) :
    (t.add d hd name o).obj x = if x = t.fresh then some o else t.obj x := by
  show update t.obj t.fresh (some o) x = _
  by_cases hx : x = t.fresh
  · rw [if_pos hx, hx, update_self]
  · rw [if_neg hx, update_of_ne hx]

theorem obj_write {hx : t.obj x = some (.file b)} (y : Nat) :
    (t.write x b b' hx).obj y = if y = x then some (.file b') else t.obj y := by
  show update t.obj x (some (.file b')) y = _
  by_cases hy : y = x
  · rw [if_pos hy, hy, update_self]
  · rw [if_neg hy, update_of_ne hy]

end

/-! ## Walks -/

/-- Down through real directories. -/
def walk : Nat → List Bytes → Option Nat
  | d, [] => some d
  | d, name :: rest =>
    match t.entry d name with
    | none => none
    | some x => if t.obj x = some .dir then walk x rest else none

theorem walk_append {t : Tree} {rest : List Bytes} (h : t.walk d path = some e) :
    t.walk d (path ++ rest) = t.walk e rest := by
  induction path generalizing d with
  | nil =>
    cases h
    rfl
  | cons name path ih =>
    simp only [List.cons_append, walk] at h ⊢
    cases hentry : t.entry d name with
    | none =>
      rw [hentry] at h
      cases h
    | some x =>
      rw [hentry] at h
      dsimp only at h ⊢
      split at h
      · rename_i hdir
        rw [if_pos hdir]
        exact ih h
      · cases h

theorem walk_child {t : Tree} (h : t.walk d path = some e) (hentry : t.entry e name = some x)
    (hdir : t.obj x = some .dir) :
    t.walk d (path ++ [name]) = some x := by
  rw [walk_append h, walk, hentry]
  exact if_pos hdir

/-- Every directory that is listed stays a directory and stays listed. -/
def KeepsDirs (t t' : Tree) : Prop :=
  ∀ {d name x}, t.entry d name = some x → t.obj x = some .dir →
    t'.entry d name = some x ∧ t'.obj x = some .dir

theorem walk_mono {t t' : Tree} (hkeeps : KeepsDirs t t') (h : t.walk d path = some e) :
    t'.walk d path = some e := by
  induction path generalizing d with
  | nil => exact h
  | cons name path ih =>
    simp only [walk] at h ⊢
    cases hentry : t.entry d name with
    | none =>
      rw [hentry] at h
      cases h
    | some x =>
      rw [hentry] at h
      dsimp only at h
      split at h
      · rename_i hdir
        obtain ⟨hentry', hdir'⟩ := hkeeps hentry hdir
        rw [hentry']
        dsimp only
        rw [if_pos hdir']
        exact ih h
      · cases h

/-! ## What a change leaves -/

section
variable {t : Tree} {d : Nat}

theorem ne_fresh (h : t.entry d name = some x) : x ≠ t.fresh :=
  fun heq => lt_irrefl _ (heq ▸ t.entry_lt h)

theorem held_of_entry_none (h : t.entry d name = none) :
    t.held d name = none := by
  rw [held, h]
  rfl

theorem held_of_entry (h : t.entry d name = some x) :
    t.held d name = t.obj x := by
  rw [held, h]
  rfl

/-- Two trees with the same entry, and the same inode behind it. -/
theorem held_congr {t' : Tree} (hentry : t'.entry d name = t.entry d name)
    (hobj : ∀ x, t.entry d name = some x → t'.obj x = t.obj x) :
    t'.held d name = t.held d name := by
  cases h : t.entry d name with
  | none => rw [held_of_entry_none h, held_of_entry_none (hentry.trans h)]
  | some x => rw [held_of_entry h, held_of_entry (hentry.trans h), hobj x h]

theorem held_grow (o : Obj) (d : Nat) (name : Bytes) : (t.grow o).held d name = t.held d name :=
  held_congr rfl fun _ hx => update_of_ne (ne_fresh hx) _ _

theorem held_add_self (hd : t.obj d = some .dir) :
    (t.add d hd name o).held d name = some o := by
  have hentry : (t.add d hd name o).entry d name = some t.fresh := by
    rw [entry_add, if_pos ⟨rfl, rfl⟩]
  rw [held_of_entry hentry, obj_add, if_pos rfl]

theorem held_add_of_ne (hd : t.obj d = some .dir) (hne : ¬ (d' = d ∧ name' = name)) :
    (t.add d hd name o).held d' name' = t.held d' name' := by
  refine held_congr ?_ fun x hx => ?_
  · rw [entry_add, if_neg hne]
  · rw [obj_add, if_neg (ne_fresh hx)]

theorem held_write_of_ne (hx : t.obj x = some (.file b)) (hne : t.entry d name ≠ some x) :
    (t.write x b b' hx).held d name = t.held d name := by
  refine held_congr rfl fun y hy => ?_
  rw [obj_write, if_neg]
  rintro rfl
  exact hne hy

theorem held_remove_self (hd : t.obj d = some .dir) :
    (t.remove d hd name).held d name = none := by
  refine held_of_entry_none ?_
  rw [entry_remove, if_pos ⟨rfl, rfl⟩]

theorem held_remove_of_ne (hd : t.obj d = some .dir) (hne : ¬ (d' = d ∧ name' = name)) :
    (t.remove d hd name).held d' name' = t.held d' name' := by
  refine held_congr ?_ fun _ _ => rfl
  rw [entry_remove, if_neg hne]

section
variable {d x : Nat} (hd : t.obj d = some .dir) {source target : Bytes} (hx : x < t.fresh)

theorem held_move_source : (t.move d hd source target x hx).held d source = none := by
  refine held_of_entry_none ?_
  rw [entry_move, if_pos ⟨rfl, rfl⟩]

theorem held_move_target (hne : target ≠ source) :
    (t.move d hd source target x hx).held d target = t.obj x := by
  refine held_of_entry ?_
  rw [entry_move, if_neg (fun h => hne h.2), if_pos ⟨rfl, rfl⟩]

theorem held_move_of_ne (hsource : ¬ (d' = d ∧ name' = source))
    (htarget : ¬ (d' = d ∧ name' = target)) :
    (t.move d hd source target x hx).held d' name' = t.held d' name' := by
  refine held_congr ?_ fun _ _ => rfl
  rw [entry_move, if_neg hsource, if_neg htarget]

theorem keepsDirs_move (hsource : ∀ y, t.entry d source = some y → t.obj y ≠ some .dir)
    (htarget : ∀ y, t.entry d target = some y → t.obj y ≠ some .dir) :
    KeepsDirs t (t.move d hd source target x hx) := by
  intro d' name' y hentry hdir
  refine ⟨?_, hdir⟩
  rw [entry_move, if_neg, if_neg]
  · exact hentry
  · rintro ⟨rfl, rfl⟩
    exact htarget y hentry hdir
  · rintro ⟨rfl, rfl⟩
    exact hsource y hentry hdir

end

theorem keepsDirs_grow (o : Obj) : KeepsDirs t (t.grow o) :=
  fun hentry hdir => ⟨hentry, obj_grow_of_obj hdir⟩

theorem keepsDirs_add {hd : t.obj d = some .dir} (hnone : t.entry d name = none) :
    KeepsDirs t (t.add d hd name o) := by
  intro d' name' y hentry hdir
  constructor
  · rw [entry_add, if_neg]
    · exact hentry
    · rintro ⟨rfl, rfl⟩
      cases hnone.symm.trans hentry
  · rw [obj_add, if_neg (ne_fresh hentry)]
    exact hdir

theorem keepsDirs_write {hx : t.obj x = some (.file b)} :
    KeepsDirs t (t.write x b b' hx) := by
  intro d name y hentry hdir
  refine ⟨hentry, ?_⟩
  rw [obj_write, if_neg]
  · exact hdir
  · rintro rfl
    cases hdir.symm.trans hx

theorem keepsDirs_remove {hd : t.obj d = some .dir}
    (hname : ∀ y, t.entry d name = some y → t.obj y ≠ some .dir) :
    KeepsDirs t (t.remove d hd name) := by
  intro d' name' y hentry hdir
  refine ⟨?_, hdir⟩
  rw [entry_remove, if_neg]
  · exact hentry
  · rintro ⟨rfl, rfl⟩
    exact hname y hentry hdir

end

end Tree

/-- A tree, the descriptors of a process, and what has happened. -/
structure Machine where
  tree : Tree
  /-- The open descriptors, with their inodes. -/
  fd : Nat → Option Nat
  /-- The directory that was opened by its path. -/
  root : Option Nat
  /-- The directories opened from the root through real directory entries. -/
  reached : Set Nat
  /-- The files created in such directories. -/
  created : Set Nat
  /-- The names of created files that were not moved or removed since. -/
  staged : Set (Nat × Bytes)

/-- The errors a program tells apart. -/
inductive DirError where
  | notExist
  | exist
  | loop
  | notDir
  | other
deriving DecidableEq, Repr

/-- The calls. Directories and files are given by their descriptors. -/
inductive DirCall where
  /-- open with `O_DIRECTORY` -/
  | openRoot (path : Bytes)
  | mkdirAll (path : Bytes)
  /-- `openat` with `O_DIRECTORY | O_NOFOLLOW` -/
  | openDir (dir : Nat) (name : Bytes)
  | mkdir (dir : Nat) (name : Bytes)
  /-- `fstatat` with `AT_SYMLINK_NOFOLLOW` -/
  | stat (dir : Nat) (name : Bytes)
  /-- `openat` with `O_CREAT | O_EXCL` -/
  | create (dir : Nat) (name : Bytes)
  | write (file : Nat) (data : Bytes)
  | chmod (file : Nat) (mode : Nat)
  | sync (fd : Nat)
  | close (fd : Nat)
  | rename (dir : Nat) (source target : Bytes)
  | unlink (dir : Nat) (name : Bytes)
  /-- `utimensat` with `AT_SYMLINK_NOFOLLOW` -/
  | utimes (dir : Nat) (name : Bytes)
deriving DecidableEq, Repr

namespace DirCall

/-- What a call answers. -/
abbrev Answer : DirCall → Type
  | openRoot _ => Except DirError Nat
  | openDir _ _ => Except DirError Nat
  | create _ _ => Except DirError Nat
  | _ => Except DirError Unit

/-- The directory a call acts in. -/
def dir? : DirCall → Option Nat
  | openDir dir _ => some dir
  | mkdir dir _ => some dir
  | stat dir _ => some dir
  | create dir _ => some dir
  | rename dir _ _ => some dir
  | unlink dir _ => some dir
  | utimes dir _ => some dir
  | _ => none

/-- The file a call acts on. -/
def file? : DirCall → Option Nat
  | write file _ => some file
  | chmod file _ => some file
  | _ => none

/-- The names a call is given. -/
def names : DirCall → List Bytes
  | openDir _ name => [name]
  | mkdir _ name => [name]
  | stat _ name => [name]
  | create _ name => [name]
  | rename _ source target => [source, target]
  | unlink _ name => [name]
  | utimes _ name => [name]
  | _ => []

/-- Which calls may fail without a reason in the tree. -/
structure Faults where
  io : Prop
  unlink : Prop

/-- What a call can answer and leave behind. -/
def Outcome (faults : Faults) (m : Machine) : (c : DirCall) → c.Answer → Machine → Prop
  | openRoot _, r, m' =>
    match r with
    | .ok f => ∃ x, m.tree.obj x = some .dir ∧ m.fd f = none ∧
        m' = { m with
          fd := update m.fd f (some x)
          root := some x
          reached := insert x m.reached }
    | .error _ => m' = m
  | mkdirAll _, r, m' =>
    match r with
    | .ok () => m' = m ∨ m' = { m with tree := m.tree.grow .dir }
    | .error _ => m' = m
  | openDir dir name, r, m' =>
    match r with
    | .ok f => ∃ d x, m.fd dir = some d ∧ m.tree.entry d name = some x ∧
        m.tree.obj x = some .dir ∧ m.fd f = none ∧
        m' = { m with
          fd := update m.fd f (some x)
          reached := m.reached ∪ {y | y = x ∧ d ∈ m.reached} }
    | .error e => m' = m ∧ (faults.io ∨ ∃ d, m.fd dir = some d ∧
        match m.tree.entry d name with
        | none => e = .notExist
        | some x => m.tree.obj x ≠ some .dir ∧ (e = .loop ∨ e = .notDir))
  | mkdir dir name, r, m' =>
    match r with
    | .ok () => ∃ d, ∃ hd : m.tree.obj d = some .dir, m.fd dir = some d ∧
        m.tree.entry d name = none ∧ m' = { m with tree := m.tree.add d hd name .dir }
    | .error e => m' = m ∧ (faults.io ∨
        e = .exist ∧ ∃ d, m.fd dir = some d ∧ m.tree.entry d name ≠ none)
  | stat dir name, r, m' =>
    m' = m ∧ (faults.io ∨ ∃ d, m.fd dir = some d ∧
      match r with
      | .ok () => m.tree.entry d name ≠ none
      | .error e => e = .notExist ∧ m.tree.entry d name = none)
  | create dir name, r, m' =>
    match r with
    | .ok f => ∃ d, ∃ hd : m.tree.obj d = some .dir, m.fd dir = some d ∧
        m.tree.entry d name = none ∧ m.fd f = none ∧
        m' = { m with
          tree := m.tree.add d hd name (.file [])
          fd := update m.fd f (some m.tree.fresh)
          created := m.created ∪ {x | x = m.tree.fresh ∧ d ∈ m.reached}
          staged := insert (d, name) m.staged }
    | .error _ => m' = m
  | write file data, r, m' =>
    match r with
    | .ok () => ∃ x b, ∃ hx : m.tree.obj x = some (.file b), m.fd file = some x ∧
        m' = { m with tree := m.tree.write x b (b ++ data) hx }
    | .error _ => m' = m ∨ ∃ x b k, ∃ hx : m.tree.obj x = some (.file b), m.fd file = some x ∧
        m' = { m with tree := m.tree.write x b (b ++ data.take k) hx }
  | close fd, _, m' => m' = { m with fd := update m.fd fd none }
  | rename dir source target, r, m' =>
    match r with
    | .ok () => ∃ d x, ∃ hd : m.tree.obj d = some .dir, ∃ hx : m.tree.entry d source = some x,
        m.fd dir = some d ∧ m.tree.obj x ≠ some .dir ∧
        (∀ y, m.tree.entry d target = some y → m.tree.obj y ≠ some .dir) ∧
        -- two names of one file are left alone
        m' = if m.tree.entry d target = some x then m
          else { m with
            tree := m.tree.move d hd source target x (m.tree.entry_lt hx)
            staged := m.staged \ {(d, source), (d, target)} }
    | .error _ => m' = m
  | unlink dir name, r, m' =>
    match r with
    | .ok () => ∃ d, ∃ hd : m.tree.obj d = some .dir, m.fd dir = some d ∧
        (∃ x, m.tree.entry d name = some x ∧ m.tree.obj x ≠ some .dir) ∧
        m' = { m with
          tree := m.tree.remove d hd name
          staged := m.staged \ {(d, name)} }
    | .error _ => m' = m ∧ (faults.unlink ∨
        ∀ d, m.fd dir = some d → m.tree.entry d name = none)
  | chmod _ _, _, m' => m' = m
  | sync _, _, m' => m' = m
  | utimes _ _, _, m' => m' = m

end DirCall

end GbfCore
