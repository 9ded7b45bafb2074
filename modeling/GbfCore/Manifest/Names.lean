import GbfCore.Lib.Path

/-!
# The names of manifest files (manifest.go)

Readers find a manifest by its name in a flat directory: `isManifestFile` filters
the names, everything else is left to the content.
-/

namespace GbfCore

open List

/-- The suffix of a manifest file. -/
def jsonZst : Bytes := ascii ".json.zst"

/-- `isManifestFile`. -/
def isManifestFile (name : Bytes) : Bool :=
  if ascii ".alive." <:+: name then false
  else decide (jsonZst <:+ name) || decide (ascii ".json" <:+ name)

theorem getLast?_of_suffix {t s : Bytes} (h : t <:+ s) (ht : t ≠ []) :
    s.getLast? = t.getLast? := by
  obtain ⟨pre, rfl⟩ := h
  rw [getLast?_append_of_ne_nil _ ht]

/-- The last byte of a path that does not end in a slash is that of its last
element. -/
theorem getLast?_pathBase {path : Bytes} {b : UInt8} (h : path.getLast? = some b)
    (hb : b ≠ slash) : (pathBase path).getLast? = some b := by
  rw [getLast?_eq_head?_reverse] at h
  obtain ⟨rest, hrest⟩ : ∃ rest, path.reverse = b :: rest := head?_eq_some_iff.mp h
  have hne : path ≠ [] := by
    rintro rfl
    cases hrest
  have hbase : (path.reverse.dropWhile (· == slash)).takeWhile (· != slash) =
      b :: rest.takeWhile (· != slash) := by
    rw [hrest, dropWhile_cons_of_neg (by simpa using hb),
      takeWhile_cons_of_pos (by simpa using hb)]
  rw [pathBase, if_neg hne]
  dsimp only
  rw [hbase, if_neg (by simp), getLast?_reverse]
  rfl

/-- A manifest name ends in a `t` or an `n`. -/
theorem getLast?_of_isManifestFile {name : Bytes} (h : isManifestFile name = true) :
    name.getLast? = some 0x74 ∨ name.getLast? = some 0x6e := by
  unfold isManifestFile at h
  split at h
  · cases h
  · rcases Bool.or_eq_true _ _ ▸ h with h | h
    · exact .inl (getLast?_of_suffix (of_decide_eq_true h) (by decide))
    · exact .inr (getLast?_of_suffix (of_decide_eq_true h) (by decide))

/-- Which is that of its path. -/
theorem getLast?_below {name : Bytes} (h : isManifestFile name = true) (dir : Bytes) :
    (dir ++ slash :: name).getLast? = some 0x74 ∨ (dir ++ slash :: name).getLast? = some 0x6e := by
  have hne : name ≠ [] := by
    rintro rfl
    exact absurd h (by decide)
  rw [getLast?_append_of_ne_nil _ (cons_ne_nil _ _), ← singleton_append,
    getLast?_append_of_ne_nil _ hne]
  exact getLast?_of_isManifestFile h

end GbfCore
