import GbfCore.Lib.Disk

/-!
# Running programs on a disk

An `Image` is a disk that can be computed with: lists of directories, names and inodes.
`Image.run` runs a program on it, as long as its calls succeed or ask for something that
is not there, or is there already; `record_run` says that what it computes is a run on the disk
of the image.
-/

namespace GbfCore

open List Function Option Prod Bool

variable {path : Bytes} {α : Type} {now : Int}

/-- Directories, names with their inodes, and inodes with their content and time. -/
structure Image where
  dirs : List Bytes
  names : List (Bytes × Nat)
  inodes : List (Bytes × Int)
deriving DecidableEq

instance (name : Bytes) : Decidable (PathName name) :=
  decidable_of_iff (name ≠ [] ∧ isDotName name = false) ⟨fun h => ⟨h.1, h.2⟩, fun h => ⟨h.1, h.2⟩⟩

namespace Image

/-- Names refer to inodes, and no name is a directory. -/
structure Valid (i : Image) : Prop where
  inode_lt : ∀ p ∈ i.names, p.2 < i.inodes.length
  apart : ∀ p ∈ i.names, p.1 ∉ i.dirs

instance (i : Image) : Decidable i.Valid :=
  decidable_of_iff ((∀ p ∈ i.names, p.2 < i.inodes.length) ∧ ∀ p ∈ i.names, p.1 ∉ i.dirs)
    ⟨fun h => ⟨h.1, h.2⟩, fun h => ⟨h.1, h.2⟩⟩

variable (i : Image)

def inode (path : Bytes) : Option Nat := i.names.lookup path

theorem mem_of_inode {i : Image} {x : Nat} (h : i.inode path = some x) :
    (path, x) ∈ i.names := by
  obtain ⟨l, l', hsplit, -⟩ := lookup_eq_some_iff.mp h
  rw [hsplit]
  exact mem_append_right _ mem_cons_self

/-- The disk of an image. -/
def disk (h : i.Valid) : Disk where
  fs := {
    inode := i.inode
    content := fun x => (i.inodes.getD x ([], 0)).1
    fresh := i.inodes.length
    inode_lt := fun hx => h.inode_lt _ (mem_of_inode hx) }
  modTime x := (i.inodes.getD x ([], 0)).2
  isDir path := path ∈ i.dirs
  apart := by
    intro path hdir
    by_contra hne
    obtain ⟨x, hx⟩ := ne_none_iff_exists'.mp hne
    exact h.apart _ (mem_of_inode hx) hdir
  finite := by
    refine Set.Finite.subset ((finite_toSet (i.names.map fst)).union
      (finite_toSet i.dirs)) ?_
    rintro path (hne | hdir)
    · obtain ⟨x, hx⟩ := ne_none_iff_exists'.mp hne
      exact .inl (mem_map.mpr ⟨_, mem_of_inode hx, rfl⟩)
    · exact .inr hdir

/-- Nothing at all. -/
def empty : Image := ⟨[], [], []⟩

theorem valid_empty : empty.Valid := ⟨nofun, nofun⟩

theorem disk_empty : empty.disk valid_empty = Disk.empty := by
  refine Disk.ext rfl rfl (funext fun path => propext ?_)
  exact mem_nil_iff path

/-- Whether the directory of a path is there. -/
def hasParent (path : Bytes) : Bool :=
  i.dirs.any fun dir => decide (dir ++ [slash] <+: path ∧ slash ∉ path.drop (dir.length + 1))

/-- The entry a path makes in a directory. -/
def entryOf (dir path : Bytes) : Option DirEntry :=
  if dir ++ [slash] <+: path then
    let name := path.drop (dir.length + 1)
    if h : PathName name ∧ slash ∉ name then some ⟨name, i.dirs.contains path, h.1, h.2⟩ else none
  else none

def children (dir : Bytes) : List DirEntry :=
  ((i.names.map fst ++ i.dirs).filterMap (i.entryOf dir)).insertionSort
    fun a b => ¬ b.name < a.name

def absent (path : Bytes) : Bool := (i.inode path).isNone && !i.dirs.contains path

/-- The directories on the way to a path. -/
def wayTo (path : Bytes) : List Bytes :=
  path.inits.filter fun dir => decide (dir = path ∨ dir ++ [slash] <+: path)

def write (x : Nat) (data : Bytes) (now : Int) : Image :=
  { i with inodes := i.inodes.set x (data, now) }

def create (now : Int) (path : Bytes) : Image :=
  match i.inode path with
  | some x => { i with inodes := i.inodes.set x ([], now) ++ [([], 0)] }
  | none => {
      i with
      names := (path, i.inodes.length) :: i.names
      inodes := i.inodes ++ [([], now)] }

def unlink (path : Bytes) : Image := { i with names := i.names.filter fun p => p.1 != path }

def link (x : Nat) (target : Bytes) : Image :=
  { i with names := (target, x) :: i.names.filter fun p => p.1 != target }

/-- A call that succeeds, or finds that something is not there or is there already. -/
def step (now : Int) : (c : FsCall) → Option (c.Answer × Image)
  | .readDir path =>
    if i.dirs.contains path then some (.ok (i.children path), i)
    else if i.absent path then some (.error .notExist, i)
    else none
  | .readFile path =>
    match i.inode path with
    | some x => some (.ok (i.inodes.getD x ([], 0)).1, i)
    | none => some (.error .notExist, i)
  | .stat path =>
    if i.absent path then some (.error .notExist, i)
    else some (.ok (((i.inode path).map fun x => (i.inodes.getD x ([], 0)).2).getD 0), i)
  | .mkdirAll path =>
    if (wayTo path).all fun dir => (i.inode dir).isNone then
      some (.ok (), { i with dirs := wayTo path ++ i.dirs })
    else none
  | .create path =>
    if i.hasParent path && !i.dirs.contains path then some (.ok (), i.create now path) else none
  | .write path data => (i.inode path).map fun x => (.ok (), i.write x data now)
  | .sync _ => some (.ok (), i)
  | .close _ => some (.ok (), i)
  | .openFile path => if i.absent path then none else some (.ok (), i)
  | .copy _ _ => none
  | .rename source target =>
    if i.hasParent target && !i.dirs.contains target && source != target then
      (i.inode source).map fun x => (.ok (), (i.link x target).unlink source)
    else none
  | .link source target =>
    if !i.absent target then some (.error .exist, i)
    else if i.hasParent target then (i.inode source).map fun x => (.ok (), i.link x target)
    else none
  | .remove path =>
    if i.absent path then none
    else if i.dirs.contains path && !(i.children path).isEmpty then none
    else some (.ok (), { i.unlink path with dirs := i.dirs.filter (· != path) })

/-- Run a program, and keep its calls. -/
def run {α : Type} (now : Int) : FsProg α → Image → Option (α × List (Sigma FsCall.Answer) × Image)
  | .ret a, i => some (a, [], i)
  | .call c next, i =>
    match i.step now c with
    | some (r, i') =>
      if i'.Valid then (run now (next r) i').map fun p => (p.1, ⟨c, r⟩ :: p.2.1, p.2.2) else none
    | none => none

/-! ## Its runs are runs -/

section
variable {i i' : Image}

theorem mem_wayTo {dir : Bytes} : dir ∈ wayTo path ↔ OnPath dir path := by
  rw [wayTo, mem_filter, mem_inits, decide_eq_true_eq]
  constructor
  · rintro ⟨-, rfl | ⟨rest, rfl⟩⟩
    · exact .refl _
    · exact .inr ⟨rest, by simp⟩
  · rintro (rfl | ⟨rest, rfl⟩)
    · exact ⟨prefix_rfl, .inl rfl⟩
    · exact ⟨prefix_append _ _, .inr ⟨rest, by simp⟩⟩

theorem inode_filter (path g : Bytes) :
    (i.names.filter fun p => p.1 != path).lookup g = if g = path then none else i.inode g := by
  unfold inode
  induction i.names with
  | nil => simp
  | cons p rest ih =>
    obtain ⟨name, x⟩ := p
    by_cases hname : name = path
    · subst hname
      rw [filter_cons_of_neg (by simp), ih]
      by_cases hg : g = name
      · rw [if_pos hg, if_pos hg]
      · rw [if_neg hg, if_neg hg, lookup_cons, beq_false_of_ne hg]
    · rw [filter_cons_of_pos (by simpa using hname), lookup_cons, lookup_cons, ih]
      by_cases hg : g = name
      · subst hg
        rw [if_neg hname, if_neg hname]
      · rw [beq_false_of_ne hg]

theorem inode_link (x : Nat) (target : Bytes) :
    (i.link x target).inode = update i.inode target (some x) := by
  funext g
  unfold link
  by_cases hg : g = target
  · subst hg
    rw [update_self, inode, lookup_cons_self]
  · rw [update_of_ne hg, inode, lookup_cons, beq_false_of_ne hg]
    exact (inode_filter target g).trans (if_neg hg)

theorem inode_unlink (path : Bytes) :
    (i.unlink path).inode = update i.inode path none := by
  funext g
  refine (inode_filter path g).trans ?_
  by_cases hg : g = path
  · rw [if_pos hg, hg, update_self]
  · rw [if_neg hg, update_of_ne hg]

/-- An inode is written, in a list and in a function. -/
theorem getD_set {β : Type} (l : List α) (f : α → β) (v v₀ : α) {x : Nat} (hx : x < l.length) :
    (fun y => f ((l.set x v).getD y v₀)) = update (fun y => f (l.getD y v₀)) x (f v) := by
  funext y
  by_cases hy : y = x
  · subst hy
    rw [update_self, getD_eq_getElem?_getD, List.getElem?_set_self hx]
    rfl
  · rw [update_of_ne hy, getD_eq_getElem?_getD, getD_eq_getElem?_getD,
      List.getElem?_set_ne (Ne.symm hy)]

theorem getD_append_default (l : List α) (v₀ : α) (y : Nat) :
    (l ++ [v₀]).getD y v₀ = l.getD y v₀ := by
  rcases lt_or_ge y l.length with hy | hy
  · rw [getD_append _ _ _ _ hy]
  · rw [getD_append_right _ _ _ _ hy, getD_eq_default _ _ hy]
    cases y - l.length <;> rfl

theorem getD_append {β : Type} (l : List α) (f : α → β) (v v₀ : α) :
    (fun y => f ((l ++ [v]).getD y v₀)) =
      update (fun y => f (l.getD y v₀)) l.length (f v) := by
  funext y
  rcases lt_trichotomy y l.length with hy | rfl | hy
  · rw [update_of_ne hy.ne, List.getD_append _ _ _ _ hy]
  · rw [update_self, getD_append_right _ _ _ _ le_rfl, Nat.sub_self]
    rfl
  · rw [update_of_ne hy.ne', getD_eq_default _ _ (by simpa using Nat.succ_le_of_lt hy),
      getD_eq_default _ _ hy.le]

variable (h : i.Valid) (h' : i'.Valid)

theorem absent_iff : i.absent path = true ↔ (i.disk h).Absent path := by
  rw [absent, and_eq_true, isNone_iff_eq_none, not_eq_true', ← not_eq_true,
    contains_iff_mem]
  exact Iff.rfl

theorem hasParent_disk (hp : i.hasParent path = true) :
    (i.disk h).HasParent path := by
  obtain ⟨dir, hdir, hpath⟩ := any_eq_true.mp hp
  obtain ⟨⟨rest, rfl⟩, hslash⟩ := of_decide_eq_true hpath
  refine ⟨dir, rest, by simp, ?_, hdir⟩
  have hlen : dir.length + 1 = (dir ++ [slash]).length := by simp
  rwa [hlen, drop_left] at hslash

theorem lists_children (dir : Bytes) : (i.disk h).Lists dir (i.children dir) := by
  have hentry : ∀ {e}, e ∈ i.children dir →
      dir ++ slash :: e.name ∈ i.names.map fst ++ i.dirs ∧
        e.isDir = i.dirs.contains (dir ++ slash :: e.name) := by
    intro e he
    obtain ⟨path, hmem, hsome⟩ := mem_filterMap.mp ((mem_insertionSort _).mp he)
    unfold entryOf at hsome
    split at hsome
    · rename_i hpre
      obtain ⟨rest, rfl⟩ := hpre
      have hlen : dir.length + 1 = (dir ++ [slash]).length := by simp
      obtain ⟨hname, hsome⟩ := dite_none_right_eq_some.mp hsome
      cases hsome
      dsimp only
      rw [hlen, drop_left, ← singleton_append, ← append_assoc]
      exact ⟨hmem, rfl⟩
    · cases hsome
  have hinode : ∀ {path}, path ∈ i.names.map fst → i.inode path ≠ none := by
    intro path hmem hnone
    obtain ⟨p, hp, rfl⟩ := mem_map.mp hmem
    exact absurd (lookup_eq_none_iff.mp hnone p hp) (by simp)
  refine ⟨?_, ?_, ?_⟩
  · intro e he htrue
    exact contains_iff_mem.mp ((hentry he).2.symm.trans htrue)
  · intro e he hfalse
    obtain ⟨hmem, hdir⟩ := hentry he
    refine hinode ((mem_append.mp hmem).resolve_right fun hin => ?_)
    rw [hfalse, contains_iff_mem.mpr hin] at hdir
    cases hdir
  · intro name hname hslash habsent
    refine ⟨⟨name, i.dirs.contains (dir ++ slash :: name), hname, hslash⟩, ?_, rfl⟩
    refine (mem_insertionSort _).mpr (mem_filterMap.mpr ⟨dir ++ slash :: name, ?_, ?_⟩)
    · by_contra hnot
      obtain ⟨hnames, hdirs⟩ := not_or.mp fun hor => hnot (mem_append.mpr hor)
      refine habsent ⟨?_, hdirs⟩
      refine lookup_eq_none_iff.mpr fun p hp => ?_
      rw [bne_iff_ne]
      intro heq
      exact hnames (mem_map.mpr ⟨p, hp, heq.symm⟩)
    · have hpre : dir ++ [slash] <+: dir ++ slash :: name := ⟨name, by simp⟩
      have hdrop : (dir ++ slash :: name).drop (dir.length + 1) = name := by simp
      unfold entryOf
      rw [if_pos hpre]
      dsimp only
      simp only [hdrop]
      rw [dif_pos ⟨hname, hslash⟩]

/-- **A step is an outcome.** -/
theorem outcome_step {c : FsCall} {r : c.Answer} (hstep : i.step now c = some (r, i')) :
    Disk.Outcome .none now (i.disk h) c r (i'.disk h') := by
  cases c with
  | readDir path =>
    simp only [step] at hstep
    split at hstep
    · rename_i hdir
      cases hstep
      exact ⟨rfl, ⟨contains_iff_mem.mp hdir, lists_children h path⟩, rfl, rfl⟩
    · obtain ⟨habsent, heq⟩ := ite_none_right_eq_some.mp hstep
      cases heq
      obtain ⟨hinode, hnot⟩ := (absent_iff h).mp habsent
      exact ⟨rfl, .inr ⟨hnot, iff_of_true rfl hinode⟩, rfl, rfl⟩
  | readFile path =>
    cases hx : i.inode path with
    | some x =>
      simp only [step, hx] at hstep
      cases hstep
      have hread : (i.disk h).fs.read path = some (i.inodes.getD x ([], 0)).1 :=
        FileSystem.read_eq_some.mpr ⟨x, hx, rfl⟩
      refine ⟨⟨rfl, .inr ⟨id, ?_⟩⟩, trivial, rfl, rfl⟩
      rw [hread]
    | none =>
      simp only [step, hx] at hstep
      cases hstep
      have hread : (i.disk h).fs.read path = none := congrArg (Option.map _) hx
      refine ⟨⟨rfl, .inr ⟨id, ?_⟩⟩, trivial, rfl, rfl⟩
      rw [hread]
  | stat path =>
    by_cases habsent : i.absent path = true
    · simp only [step, habsent] at hstep
      cases hstep
      exact ⟨rfl, .inr ⟨rfl, (absent_iff h).mp habsent⟩, rfl, rfl⟩
    · simp only [step, habsent] at hstep
      cases hstep
      refine ⟨rfl, ⟨fun hnone => habsent ((absent_iff h).mpr hnone), fun x hx => ?_⟩, rfl, rfl⟩
      rw [show i.inode path = some x from hx]
      rfl
  | mkdirAll path =>
    obtain ⟨hway, heq⟩ := ite_none_right_eq_some.mp hstep
    cases heq
    refine ⟨rfl, fun dir hdir => ?_, ?_, rfl⟩
    · exact isNone_iff_eq_none.mp (all_eq_true.mp hway dir (mem_wayTo.mpr hdir))
    · funext dir
      exact propext (mem_append.trans (or_comm.trans (or_congr_right mem_wayTo)))
  | create path =>
    obtain ⟨hwhere, heq⟩ := ite_none_right_eq_some.mp hstep
    obtain ⟨hparent, hdir⟩ := and_eq_true_iff.mp hwhere
    have hdir : path ∉ i.dirs := fun hmem => by
      rw [contains_iff_mem.mpr hmem] at hdir
      cases hdir
    have hparent := hasParent_disk h hparent
    cases hx : i.inode path with
    | some x =>
      have hlt := h.inode_lt _ (mem_of_inode hx)
      have hopened : (i.disk h).fs.opened path = x := congrArg (Option.getD · _) hx
      simp only [create, hx] at heq
      cases heq
      refine ⟨FileSystem.ext ?_ ?_ ?_, ⟨hparent, hdir⟩, rfl, ?_⟩
      · show i.inode = update i.inode path (some ((i.disk h).fs.opened path))
        rw [hopened, ← hx, update_eq_self]
      · show _ = update (i.disk h).fs.content ((i.disk h).fs.opened path) []
        rw [hopened]
        refine Eq.trans (funext fun y => ?_) (getD_set i.inodes fst ([], now) ([], 0) hlt)
        exact congrArg fst (getD_append_default _ _ y)
      · show (i.inodes.set x ([], now) ++ [([], 0)]).length = i.inodes.length + 1
        simp
      · show _ = update (i.disk h).modTime ((i.disk h).fs.opened path) now
        rw [hopened]
        refine Eq.trans (funext fun y => ?_) (getD_set i.inodes snd ([], now) ([], 0) hlt)
        exact congrArg snd (getD_append_default _ _ y)
    | none =>
      have hopened : (i.disk h).fs.opened path = i.inodes.length := congrArg (Option.getD · _) hx
      simp only [create, hx] at heq
      cases heq
      refine ⟨FileSystem.ext ?_ ?_ ?_, ⟨hparent, hdir⟩, rfl, ?_⟩
      · show inode _ = update i.inode path (some ((i.disk h).fs.opened path))
        rw [hopened]
        funext g
        by_cases hg : g = path
        · subst hg
          rw [update_self, inode, lookup_cons_self]
        · rw [update_of_ne hg, inode, lookup_cons, beq_false_of_ne hg]
          rfl
      · show _ = update (i.disk h).fs.content ((i.disk h).fs.opened path) []
        rw [hopened]
        exact getD_append i.inodes fst ([], now) ([], 0)
      · show (i.inodes ++ [([], now)]).length = i.inodes.length + 1
        simp
      · show _ = update (i.disk h).modTime ((i.disk h).fs.opened path) now
        rw [hopened]
        exact getD_append i.inodes snd ([], now) ([], 0)
  | write path data =>
    obtain ⟨x, hx, heq⟩ := map_eq_some_iff.mp hstep
    cases heq
    have hlt := h.inode_lt _ (mem_of_inode hx)
    refine ⟨⟨x, hx, FileSystem.ext rfl (getD_set i.inodes fst _ _ hlt) ?_⟩, .inl rfl, rfl, ?_⟩
    · exact length_set
    · refine (getD_set i.inodes snd _ _ hlt).trans ?_
      rw [Disk.touch, show (i.disk h).fs.inode path = some x from hx]
      rfl
  | sync _ =>
    cases hstep
    exact ⟨rfl, .inl rfl, rfl, rfl⟩
  | close _ =>
    cases hstep
    exact ⟨rfl, .inl rfl, rfl, rfl⟩
  | openFile path =>
    obtain ⟨habsent, heq⟩ := ite_none_left_eq_some.mp hstep
    cases heq
    exact ⟨rfl, fun hnone => habsent ((absent_iff h).mpr hnone), rfl, rfl⟩
  | copy _ _ => cases hstep
  | rename source target =>
    obtain ⟨hwhere, heq⟩ := ite_none_right_eq_some.mp hstep
    obtain ⟨x, hx, heq⟩ := map_eq_some_iff.mp heq
    cases heq
    simp only [and_eq_true, not_eq_true', ← not_eq_true, contains_iff_mem]
      at hwhere
    obtain ⟨⟨hparent, hdir⟩, -⟩ := hwhere
    refine ⟨⟨x, hx, FileSystem.ext ?_ rfl rfl⟩, ⟨hasParent_disk h hparent, hdir⟩, rfl, rfl⟩
    refine (inode_unlink source).trans ?_
    rw [inode_link]
    rfl
  | link source target =>
    simp only [step] at hstep
    split at hstep
    · rename_i hthere
      cases hstep
      refine ⟨rfl, .inr (.inl ⟨rfl, fun habsent => ?_⟩), rfl, rfl⟩
      rw [(absent_iff h).mpr habsent] at hthere
      cases hthere
    rename_i habsent
    rw [not_eq_true, not_eq_false'] at habsent
    obtain ⟨hparent, heq⟩ := ite_none_right_eq_some.mp hstep
    obtain ⟨x, hx, heq⟩ := map_eq_some_iff.mp heq
    cases heq
    obtain ⟨hnone, hdir⟩ := (absent_iff h).mp habsent
    refine ⟨?_, ⟨hasParent_disk h hparent, hdir⟩, rfl, rfl⟩
    obtain ⟨fs', hlink⟩ := FileSystem.exists_tryLink_done hnone hx
    obtain ⟨-, y, hy, hinode, hcontent, hfresh⟩ := FileSystem.tryLink_done hlink
    cases hx.symm.trans hy
    refine hlink.trans (congrArg _ (FileSystem.ext ?_ hcontent hfresh))
    exact hinode.trans (inode_link x target).symm
  | remove path =>
    obtain ⟨habsent, heq⟩ := ite_none_left_eq_some.mp hstep
    obtain ⟨hempty, heq⟩ := ite_none_left_eq_some.mp heq
    cases heq
    refine ⟨FileSystem.ext (inode_unlink path) rfl rfl,
      ⟨fun hnone => habsent ((absent_iff h).mpr hnone), fun hdir name hname hslash => ?_⟩, ?_, rfl⟩
    · by_contra hchild
      obtain ⟨e, he, -⟩ := (lists_children h path).all hname hslash hchild
      refine hempty ?_
      rw [contains_iff_mem.mpr hdir, isEmpty_eq_false_iff.mpr (ne_nil_of_mem he)]
      rfl
    · funext dir
      exact propext (mem_filter.trans (and_congr_right' bne_iff_ne))

/-- **What an image computes is a run.** -/
theorem record_run {p : FsProg α} {a : α} {log : List (Sigma FsCall.Answer)}
    (hrun : run now p i = some (a, log, i')) :
    p.Record (Disk.Outcome .none now) (i.disk h) log a (i'.disk h') := by
  induction p generalizing i log with
  | ret b =>
    cases hrun
    exact ⟨rfl, rfl, rfl⟩
  | call c next ih =>
    unfold run at hrun
    split at hrun
    · rename_i r i₁ hstep
      obtain ⟨hvalid, hrun⟩ := ite_none_right_eq_some.mp hrun
      obtain ⟨⟨b, rest, i₂⟩, hrest, heq⟩ := map_eq_some_iff.mp hrun
      cases heq
      exact ⟨r, i₁.disk hvalid, rest, outcome_step h hvalid hstep, rfl, ih r hvalid hrest⟩
    · cases hrun

end

/-- A call on a valid image that leaves a valid one. -/
def stepValid (now : Int) (i : Subtype Valid) (c : FsCall) : Option (c.Answer × Subtype Valid) :=
  match i.1.step now c with
  | some (r, i') => if h : i'.Valid then some (r, ⟨i', h⟩) else none
  | none => none

theorem outcome_stepValid {i i' : Subtype Valid} {c : FsCall} {r : c.Answer}
    (h : stepValid now i c = some (r, i')) :
    Disk.Outcome .none now (i.1.disk i.2) c r (i'.1.disk i'.2) := by
  unfold stepValid at h
  split at h
  · rename_i hstep
    obtain ⟨hvalid, heq⟩ := dite_none_right_eq_some.mp h
    cases heq
    exact outcome_step i.2 hvalid hstep
  · cases h

end Image

end GbfCore
