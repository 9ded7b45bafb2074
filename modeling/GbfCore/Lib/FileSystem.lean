import GbfCore.Lib.Bytes

/-!
# A file system with hard links

Names refer to inodes and inodes have contents, so that one file can have several
names. The operations are the atomic ones of POSIX: opening with `O_CREAT` and
`O_TRUNC`, writing to an open file, `link(2)`, which refuses an existing target, and
`unlink(2)`. Inode numbers are handed out in order; that no name refers to one that
was not handed out is part of the type.
-/

namespace GbfCore

open Function Option

/-- Names, inodes and contents. -/
@[ext]
structure FileSystem where
  inode : Bytes → Option Nat
  content : Nat → Bytes
  /-- The next inode number. -/
  fresh : Nat
  inode_lt : ∀ {name x}, inode name = some x → x < fresh

namespace FileSystem

variable (fs : FileSystem)

/-- No files. -/
def empty : FileSystem where
  inode _ := none
  content _ := []
  fresh := 0
  inode_lt h := nomatch h

/-- The content under a name. -/
def read (name : Bytes) : Option Bytes :=
  (fs.inode name).map fs.content

theorem read_eq_some {fs : FileSystem} {name b : Bytes} :
    fs.read name = some b ↔ ∃ x, fs.inode name = some x ∧ fs.content x = b :=
  map_eq_some_iff

theorem read_eq_none {fs : FileSystem} {name : Bytes} : fs.read name = none ↔ fs.inode name = none :=
  map_eq_none_iff

/-- The inode an open with `O_CREAT` ends up with. -/
def opened (name : Bytes) : Nat :=
  (fs.inode name).getD fs.fresh

theorem opened_of_absent {name : Bytes} (h : fs.inode name = none) : fs.opened name = fs.fresh := by
  rw [opened, h]
  rfl

/-- Open with `O_CREAT | O_TRUNC`. -/
def create (name : Bytes) : FileSystem where
  inode := update fs.inode name (some (fs.opened name))
  content := update fs.content (fs.opened name) []
  fresh := fs.fresh + 1
  inode_lt := by
    intro name' x h
    by_cases hname : name' = name
    · subst hname
      rw [update_self] at h
      cases h
      unfold opened
      cases hold : fs.inode name' with
      | none => exact Nat.lt_succ_self _
      | some y => exact Nat.lt_succ_of_lt (fs.inode_lt hold)
    · rw [update_of_ne hname] at h
      exact Nat.lt_succ_of_lt (fs.inode_lt h)

theorem inode_create_self (name : Bytes) : (fs.create name).inode name = some (fs.opened name) :=
  update_self _ _ _

/-- Let an open file have this content. -/
def write (x : Nat) (b : Bytes) : FileSystem where
  inode := fs.inode
  content := update fs.content x b
  fresh := fs.fresh
  inode_lt := fs.inode_lt

/-- `link(2)` where it succeeds: the source exists. -/
def link (x : Nat) (hx : x < fs.fresh) (target : Bytes) : FileSystem where
  inode := update fs.inode target (some x)
  content := fs.content
  fresh := fs.fresh
  inode_lt := by
    intro name y h
    by_cases hname : name = target
    · subst hname
      rw [update_self] at h
      cases h
      exact hx
    · rw [update_of_ne hname] at h
      exact fs.inode_lt h

/-- `unlink(2)`. -/
def unlink (name : Bytes) : FileSystem where
  inode := update fs.inode name none
  content := fs.content
  fresh := fs.fresh
  inode_lt := by
    intro name' x h
    by_cases hname : name' = name
    · subst hname
      rw [update_self] at h
      cases h
    · rw [update_of_ne hname] at h
      exact fs.inode_lt h

/-- `rename(2)` where it succeeds: the source exists. -/
def rename (x : Nat) (hx : x < fs.fresh) (source target : Bytes) : FileSystem :=
  (fs.link x hx target).unlink source

/-- The outcomes of `link(2)`. -/
inductive Linked where
  | done (fs : FileSystem)
  /-- `EEXIST` -/
  | targetExists
  /-- `ENOENT` -/
  | noSource

/-- `link(2)`. -/
def tryLink (source target : Bytes) : Linked :=
  if (fs.inode target).isSome then .targetExists
  else
    match h : fs.inode source with
    | none => .noSource
    | some x => .done (fs.link x (fs.inode_lt h) target)

theorem tryLink_done {fs fs' : FileSystem} {source target : Bytes}
    (h : fs.tryLink source target = .done fs') :
    fs.inode target = none ∧
      ∃ x, fs.inode source = some x ∧ fs'.inode = update fs.inode target (some x) ∧
        fs'.content = fs.content ∧ fs'.fresh = fs.fresh := by
  unfold tryLink at h
  split at h
  · cases h
  · rename_i htarget
    split at h
    · cases h
    · rename_i x hx
      cases h
      exact ⟨not_isSome_iff_eq_none.mp htarget, x, hx, rfl, rfl, rfl⟩

/-- A link to a free name succeeds. -/
theorem exists_tryLink_done {fs : FileSystem} {source target : Bytes} {x : Nat}
    (htarget : fs.inode target = none) (hsource : fs.inode source = some x) :
    ∃ fs', fs.tryLink source target = .done fs' := by
  unfold tryLink
  rw [htarget, if_neg (by decide)]
  split
  · rename_i hnone
    rw [hnone] at hsource
    cases hsource
  · exact ⟨_, rfl⟩

end FileSystem

end GbfCore
