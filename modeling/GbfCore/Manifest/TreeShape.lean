import GbfCore.Manifest.Build

/-!
# The tree of a manifest (manifest_validate.go)

`ValidateStructure` looks at one directory at a time. That the keys, the files and the lists of
subdirectories make up a tree (`Manifest.IsTree`) is a statement about all of them together. Of
the manifests it accepts, those are trees in which every key is listed by a directory and
no name is listed twice in one, as a file and as a subdirectory (`isTree_iff`).
-/

namespace GbfCore

open List

variable {key name p q : Bytes} {f : FileEntry}

/-! ## Paths as lists of names -/

/-- The names on the way to a path; the root has none. -/
def pathSegs (path : Bytes) : List Bytes := if path = [] then [] else splitSlash path

theorem pathSegs_of_ne {path : Bytes} (h : path ≠ []) : pathSegs path = splitSlash path := if_neg h

theorem pathSegs_eq_nil {path : Bytes} : pathSegs path = [] ↔ path = [] := by
  unfold pathSegs
  split
  · rename_i h
    exact iff_of_true rfl h
  · rename_i h
    exact iff_of_false (splitSlash_ne_nil path) h

theorem pathSegs_inj (h : pathSegs p = pathSegs q) : p = q := by
  by_cases hp : p = []
  · rw [hp, pathSegs_eq_nil.mpr rfl] at h
    rw [hp, pathSegs_eq_nil.mp h.symm]
  · have hq : q ≠ [] := fun hq => hp (pathSegs_eq_nil.mp (h.trans (pathSegs_eq_nil.mpr hq)))
    rw [pathSegs_of_ne hp, pathSegs_of_ne hq] at h
    rw [← joinSlash_splitSlash p, h, joinSlash_splitSlash]

theorem pathSegs_childPath (dirPath : Bytes) (h : EntryName name) :
    pathSegs (childPath dirPath name) = pathSegs dirPath ++ [name] := by
  unfold childPath
  split
  · rename_i hroot
    rw [hroot, pathSegs_of_ne h.ne_nil, pathSegs_eq_nil.mpr rfl, splitSlash_of_notMem h.slash,
      nil_append]
  · rename_i hne
    rw [pathSegs_of_ne (append_ne_nil_of_left_ne_nil hne _), pathSegs_of_ne hne,
      splitSlash_append, splitSlash_of_notMem h.slash]

theorem childPath_ne_nil (dirPath : Bytes) (h : EntryName name) :
    childPath dirPath name ≠ [] := by
  intro hnil
  have hsegs := pathSegs_childPath dirPath h
  rw [hnil, pathSegs_eq_nil.mpr rfl] at hsegs
  exact append_ne_nil_of_right_ne_nil _ (cons_ne_nil _ _) hsegs.symm

/-- A path tells its directory and its name. -/
theorem childPath_inj {name' : Bytes} (h : EntryName name) (h' : EntryName name')
    (heq : childPath p name = childPath q name') : p = q ∧ name = name' := by
  have hsegs := congrArg pathSegs heq
  rw [pathSegs_childPath p h, pathSegs_childPath q h'] at hsegs
  obtain ⟨hdirs, hname⟩ := append_inj' hsegs rfl
  exact ⟨pathSegs_inj hdirs, singleton_injective hname⟩

/-- The path leads through the other one. -/
def ProperPathPrefix (p q : Bytes) : Prop := p ++ [slash] <+: q

theorem ProperPathPrefix.segs (h : ProperPathPrefix p q) (hp : p ≠ []) :
    ∃ rest, rest ≠ [] ∧ pathSegs q = pathSegs p ++ rest := by
  obtain ⟨rest, rfl⟩ := h
  rw [append_assoc, singleton_append,
    pathSegs_of_ne (append_ne_nil_of_left_ne_nil hp _), pathSegs_of_ne hp, splitSlash_append]
  exact ⟨_, splitSlash_ne_nil rest, rfl⟩

/-! ## Trees -/

namespace Manifest

/-- Keys that the root leads to through lists of subdirectories. -/
inductive Reachable (m : Manifest) : Bytes → Prop
  | root : Reachable m []
  | sub {dirPath name : Bytes} {d : Dir} (h : Reachable m dirPath)
      (hd : m.lookupDir dirPath = some (some d)) (hname : name ∈ d.subDirList) :
      Reachable m (childPath dirPath name)

/-- Keys, files and subdirectories make up a tree. -/
structure IsTree (m : Manifest) : Prop where
  notKey : ∀ f ∈ m.allFiles, ∀ key, m.HasDir key → key ≠ [] → f.name ≠ key
  notAbove : ∀ f ∈ m.allFiles, ∀ g ∈ m.allFiles, ¬ ProperPathPrefix f.name g.name
  notAboveKey : ∀ f ∈ m.allFiles, ∀ key, m.HasDir key → ¬ ProperPathPrefix f.name key
  reachable : ∀ key, m.HasDir key → key ≠ [] → m.Reachable key

/-- Every key but the root is listed by a directory, and a directory lists no name as a file and
as a subdirectory. -/
structure Consistent (m : Manifest) : Prop where
  listed : ∀ key, m.HasDir key → key ≠ [] → ∃ dirPath d name,
    m.lookupDir dirPath = some (some d) ∧ name ∈ d.subDirList ∧ key = childPath dirPath name
  apart : ∀ dirPath d, m.lookupDir dirPath = some (some d) →
    ∀ f ∈ d.fileList, f.name ∉ d.subDirList

end Manifest

theorem hasDir_of_lookup {m : Manifest} {d : Option Dir} (h : m.lookupDir key = some d) :
    m.HasDir key := by
  rw [Manifest.HasDir, h]
  exact Option.some_ne_none d

section
variable {m : Manifest} (hm : m.Structured)
include hm

theorem dirOk_of_lookup {d : Dir} (h : m.lookupDir key = some (some d)) :
    DirOk m key d := by
  obtain ⟨d', hd', hok⟩ := hm.dirs _ (lookupDir_eq_some.mp h)
  cases hd'
  exact hok

/-- A file and its directory. -/
theorem dir_of_mem_allFiles (hf : f ∈ m.allFiles) :
    ∃ key d name, m.lookupDir key = some (some d) ∧ (∃ f₀ ∈ d.fileList, f₀.name = name) ∧
      EntryName name ∧ f.name = childPath key name := by
  obtain ⟨⟨key, d⟩, he, hfd⟩ := mem_flatMap.mp hf
  obtain ⟨d, rfl, hok⟩ := hm.dirs _ he
  obtain ⟨f₀, hf₀, rfl⟩ := mem_map.mp hfd
  exact ⟨key, d, f₀.name, lookupDir_eq_some.mpr he, ⟨f₀, hf₀, rfl⟩, (hok.files f₀ hf₀).name, rfl⟩

theorem name_ne_nil_of_mem_allFiles (hf : f ∈ m.allFiles) : f.name ≠ [] := by
  obtain ⟨key, d, name, -, -, hname, heq⟩ := dir_of_mem_allFiles hm hf
  rw [heq]
  exact childPath_ne_nil key hname

/-- The directory that lists a key is the one its path leads through. -/
theorem Manifest.Consistent.parent (hc : m.Consistent) (hkey : m.HasDir key) (hne : key ≠ []) :
    ∃ dirPath d name, m.lookupDir dirPath = some (some d) ∧
      name ∈ d.subDirList ∧ EntryName name ∧ key = childPath dirPath name ∧
      pathSegs key = pathSegs dirPath ++ [name] := by
  obtain ⟨dirPath, d, name, hd, hmem, rfl⟩ := hc.listed key hkey hne
  have hname := ((dirOk_of_lookup hm hd).subDirs name hmem).1
  exact ⟨dirPath, d, name, hd, hmem, hname, rfl, pathSegs_childPath dirPath hname⟩

/-- **What a key leads through is a key.** -/
theorem Manifest.Consistent.prefix_hasDir (hc : m.Consistent) (hq : q ≠ []) :
    ∀ {key : Bytes}, m.HasDir key → pathSegs q <+: pathSegs key → m.HasDir q := by
  have hlen : ∀ n {key : Bytes}, (pathSegs key).length = n → m.HasDir key →
      pathSegs q <+: pathSegs key → m.HasDir q := by
    intro n
    induction n with
    | zero =>
      intro key hkey _ hpre
      rw [length_eq_zero_iff.mp hkey] at hpre
      exact absurd (pathSegs_eq_nil.mp (prefix_nil.mp hpre)) hq
    | succ n ih =>
      intro key hlen hkey hpre
      have hne : key ≠ [] := by
        rintro rfl
        cases hlen
      obtain ⟨dirPath, d, name, hd, -, -, -, hsegs⟩ := hc.parent hm hkey hne
      rw [hsegs] at hpre hlen
      rcases prefix_concat_iff.mp hpre with heq | hpre
      · rw [← hsegs] at heq
        exact pathSegs_inj heq ▸ hkey
      · refine ih ?_ (hasDir_of_lookup hd) hpre
        rw [length_append] at hlen
        exact Nat.succ.inj hlen
  exact fun {key} => hlen _ rfl

theorem Manifest.Consistent.reachable (hc : m.Consistent) :
    ∀ key, m.HasDir key → key ≠ [] → m.Reachable key := by
  have hlen : ∀ n {key : Bytes}, (pathSegs key).length = n → m.HasDir key → m.Reachable key := by
    intro n
    induction n with
    | zero =>
      intro key hkey _
      rw [pathSegs_eq_nil.mp (length_eq_zero_iff.mp hkey)]
      exact .root
    | succ n ih =>
      intro key hlen hkey
      have hne : key ≠ [] := by
        rintro rfl
        cases hlen
      obtain ⟨dirPath, d, name, hd, hmem, -, rfl, hsegs⟩ := hc.parent hm hkey hne
      rw [hsegs, length_append] at hlen
      exact .sub (ih (Nat.succ.inj hlen) (hasDir_of_lookup hd)) hd hmem
  exact fun key hkey _ => hlen _ rfl hkey

/-- No file has the path of a directory. -/
theorem Manifest.Consistent.notKey (hc : m.Consistent) (hf : f ∈ m.allFiles) :
    ¬ m.HasDir f.name := by
  intro hkey
  obtain ⟨key, d, name, hd, ⟨f₀, hf₀, hname⟩, hentry, heq⟩ := dir_of_mem_allFiles hm hf
  obtain ⟨dirPath, d', name', hd', hmem, hentry', hsame, -⟩ :=
    hc.parent hm hkey (name_ne_nil_of_mem_allFiles hm hf)
  obtain ⟨rfl, rfl⟩ := childPath_inj hentry hentry' (heq.symm.trans hsame)
  cases hd.symm.trans hd'
  exact hc.apart key d hd f₀ hf₀ (hname ▸ hmem)

/-- No directory lies below a file. -/
theorem Manifest.Consistent.not_prefix (hc : m.Consistent) (hf : f ∈ m.allFiles)
    (hkey : m.HasDir key) : ¬ pathSegs f.name <+: pathSegs key :=
  fun hpre => hc.notKey hm hf (hc.prefix_hasDir hm (name_ne_nil_of_mem_allFiles hm hf) hkey hpre)

/-- **The accepted manifests that are trees.** -/
theorem isTree_iff : m.IsTree ↔ m.Consistent := by
  constructor
  · intro ht
    constructor
    · intro key hkey hne
      cases ht.reachable key hkey hne with
      | root => exact absurd rfl hne
      | sub h hd hname => exact ⟨_, _, _, hd, hname, rfl⟩
    · intro dirPath d hd f hf hmem
      obtain ⟨hname, hthere⟩ := (dirOk_of_lookup hm hd).subDirs _ hmem
      refine ht.notKey { f with name := childPath dirPath f.name } ?_ _ hthere
        (childPath_ne_nil dirPath hname) rfl
      exact mem_flatMap.mpr ⟨_, lookupDir_eq_some.mp hd,
        mem_map.mpr ⟨f, hf, rfl⟩⟩
  · intro hc
    refine ⟨fun f hf key hkey _ heq => hc.notKey hm hf (heq ▸ hkey), fun f hf g hg habove => ?_,
      fun f hf key hkey habove => ?_, hc.reachable hm⟩
    · obtain ⟨rest, hrest, hsegs⟩ := habove.segs (name_ne_nil_of_mem_allFiles hm hf)
      obtain ⟨key, d, name, hd, -, hentry, heq⟩ := dir_of_mem_allFiles hm hg
      rw [heq, pathSegs_childPath key hentry, ← dropLast_append_getLast hrest,
        ← append_assoc] at hsegs
      obtain ⟨hdirs, -⟩ := append_inj' hsegs rfl
      exact hc.not_prefix hm hf (hasDir_of_lookup hd) ⟨_, hdirs.symm⟩
    · obtain ⟨rest, -, hsegs⟩ := habove.segs (name_ne_nil_of_mem_allFiles hm hf)
      exact hc.not_prefix hm hf hkey ⟨rest, hsegs.symm⟩

end

end GbfCore
