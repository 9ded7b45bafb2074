import GbfCore.Manifest.TrashSafety

/-!
# A legacy manifest and its checksum file

`moveOrDeleteOneManifest` handles two files with separate calls, each of which can fail. What
the file system answers is given beforehand (`FsAnswers`). The two files stay together exactly
if the answers are of a kind (`FsAnswers.Keep`): once the manifest has arrived in the trash, its
checksum is found and arrives as well, and the two leave the old directory alike
(`pair_together_iff`). The code ignores the errors of the second file, so `pair_separated` finds
a manifest in the trash that has lost its checksum.
-/

namespace GbfCore

open Function Prog Option FileSystem

variable {path srcPath dstDir body checksum : Bytes} {removed : Except FsError Unit}
  {unreadable : Bytes → Prop} {fs fs' : FileSystem}

/-! ## The answers of the file system -/

/-- What the file system answers to a call, by the number of calls made before. -/
def FsAnswers : Type := Nat → (c : FsCall) → c.Answer

/-- A call gets the answer of its time and has an effect that belongs to this answer. -/
def FsCall.Answered (answers : FsAnswers) (unreadable : Bytes → Prop) (s : Nat × FileSystem)
    (c : FsCall) (r : c.Answer) (s' : Nat × FileSystem) : Prop :=
  r = answers s.1 c ∧ s'.1 = s.1 + 1 ∧ c.Outcome unreadable s.2 r s'.2

namespace FsAnswers

variable (answers : FsAnswers) (i : Nat) (source target : Bytes)

/-- A move that begins now is a rename. -/
def Renames : Prop := answers i (.rename source target) = .ok ()

/-- It has to copy, and gets as far as the copy. -/
def Opens : Prop :=
  answers i (.rename source target) = .error .crossDevice ∧
    answers (i + 1) (.openFile source) = .ok () ∧
    answers (i + 2) (.mkdirAll (pathDir target)) = .ok () ∧
    answers (i + 3) (.create target) = .ok ()

/-- The file arrives under its new name. -/
def Arrives : Prop :=
  answers.Renames i source target ∨
    answers.Opens i source target ∧ answers (i + 4) (.copy source target) = .ok ()

/-- The file leaves its old name. -/
def Departs : Prop :=
  answers.Renames i source target ∨
    answers.Opens i source target ∧ answers (i + 4) (.copy source target) = .ok () ∧
      answers (i + 5) (.remove source) = .ok ()

/-- A copy breaks off, and what there is of it cannot be removed. -/
def Tears : Prop :=
  answers.Opens i source target ∧ answers (i + 4) (.copy source target) ≠ .ok () ∧
    answers (i + 5) (.remove target) ≠ .ok ()

/-- The number of calls made when a file has arrived. -/
def behind : Nat :=
  match answers i (.rename source target) with
  | .ok () => i + 1
  | .error _ => i + 6

/-- The answers that keep a manifest and its checksum together. In the trash mode the manifest
is moved first, and its checksum if it is found; otherwise the checksum is removed first. -/
def Keep (srcPath : Bytes) : (trashDir : Option Bytes) → Prop
  | some dstDir =>
    let target := pathJoin [dstDir, pathBase srcPath]
    let next := answers.behind 0 srcPath target
    ¬ answers.Tears 0 srcPath target ∧
      (answers.Arrives 0 srcPath target →
        (∃ t, answers next (.stat (manifestChecksumPath srcPath)) = .ok t) ∧
        answers.Arrives (next + 1) (manifestChecksumPath srcPath) (manifestChecksumPath target) ∧
        (answers.Departs 0 srcPath target ↔
          answers.Departs (next + 1) (manifestChecksumPath srcPath) (manifestChecksumPath target)))
  | none =>
    answers 0 (.remove (manifestChecksumPath srcPath)) = .ok () ↔
      answers 1 (.remove srcPath) = .ok ()

variable {answers i source target}

theorem Departs.arrives (h : answers.Departs i source target) : answers.Arrives i source target :=
  h.imp id fun h => ⟨h.1, h.2.1⟩

theorem Tears.not_arrives (h : answers.Tears i source target) :
    ¬ answers.Arrives i source target := by
  rintro (hrename | hcopy)
  · exact nomatch hrename.symm.trans h.1.1
  · exact h.2.1 hcopy.2

end FsAnswers

/-! ## Files with one name -/

/-- None of the names is a link to the file of another one. -/
def Unlinked (names : List Bytes) (fs : FileSystem) : Prop :=
  ∀ g ∈ names, ∀ g' ∈ names, ∀ {x}, fs.inode g = some x → fs.inode g' = some x → g = g'

section
variable {names : List Bytes} {source target g : Bytes}

theorem Unlinked.ne_opened (h : Unlinked names fs) (ht : target ∈ names) (hg : g ∈ names)
    (hne : g ≠ target) : fs.inode g ≠ some (fs.opened target) := by
  cases hold : fs.inode target with
  | none => exact inode_ne_opened hold g
  | some y =>
    intro hx
    rw [opened, hold] at hx
    exact hne (h g hg target ht hx hold)

theorem Unlinked.create (h : Unlinked names fs) (ht : target ∈ names) :
    Unlinked names (fs.create target) := by
  intro g hg g' hg' x hx hx'
  by_cases heq : g = target
  · by_cases heq' : g' = target
    · exact heq.trans heq'.symm
    · rw [heq, fs.inode_create_self] at hx
      exact absurd ((update_of_ne heq' _ _).symm.trans (hx'.trans hx.symm))
        (h.ne_opened ht hg' heq')
  · by_cases heq' : g' = target
    · rw [heq', fs.inode_create_self] at hx'
      exact absurd ((update_of_ne heq _ _).symm.trans (hx.trans hx'.symm))
        (h.ne_opened ht hg heq)
    · exact h g hg g' hg' ((update_of_ne heq _ _).symm.trans hx)
        ((update_of_ne heq' _ _).symm.trans hx')

theorem Unlinked.unlink (h : Unlinked names fs) (name : Bytes) :
    Unlinked names (fs.unlink name) := by
  have hinode : ∀ {g x}, (fs.unlink name).inode g = some x → fs.inode g = some x := by
    intro g x hx
    by_cases heq : g = name
    · subst heq
      cases (update_self _ _ _).symm.trans hx
    · exact (update_of_ne heq _ _).symm.trans hx
  exact fun g hg g' hg' x hx hx' => h g hg g' hg' (hinode hx) (hinode hx')

theorem Unlinked.rename {x : Nat} (h : Unlinked names fs) (hs : source ∈ names)
    (hx : fs.inode source = some x) :
    Unlinked names (fs.rename x (fs.inode_lt hx) source target) := by
  -- a name other than the two keeps its inode, and the target has that of the source
  have hinode : ∀ {g y}, (fs.rename x (fs.inode_lt hx) source target).inode g = some y →
      g = target ∧ y = x ∨ g ≠ source ∧ fs.inode g = some y := by
    intro g y hy
    by_cases hsource : g = source
    · subst hsource
      cases (update_self _ _ _).symm.trans hy
    have hlinked : update fs.inode target (some x) g = some y :=
      (update_of_ne hsource _ _).symm.trans hy
    by_cases htarget : g = target
    · rw [htarget, update_self] at hlinked
      exact .inl ⟨htarget, (some.inj hlinked).symm⟩
    · rw [update_of_ne htarget] at hlinked
      exact .inr ⟨hsource, hlinked⟩
  intro g hg g' hg' y hy hy'
  rcases hinode hy with ⟨hgt, hyx⟩ | ⟨hne, hold⟩
  · rcases hinode hy' with ⟨hgt', -⟩ | ⟨hne', hold'⟩
    · exact hgt.trans hgt'.symm
    · exact absurd (h g' hg' source hs hold' (hyx ▸ hx)) hne'
  · rcases hinode hy' with ⟨-, hyx⟩ | ⟨-, hold'⟩
    · exact absurd (h g hg source hs hold (hyx ▸ hx)) hne
    · exact h g hg g' hg' hold hold'

end

/-! ## One move -/

/-- What a move leaves behind, told by the answers. -/
structure MoveDone (answers : FsAnswers) (i : Nat) (names : List Bytes)
    (source target data : Bytes) (fs : FileSystem) (r : Except FsError Unit) (i' : Nat)
    (fs' : FileSystem) : Prop where
  ok : r = .ok () ↔ answers.Arrives i source target
  time : r = .ok () → i' = answers.behind i source target
  departed : answers.Departs i source target → fs'.read source = none
  stayed : ¬ answers.Departs i source target → fs'.read source = some data
  arrived : answers.Arrives i source target → fs'.read target = some data
  torn : answers.Tears i source target → ∃ n, fs'.read target = some (data.take n)
  refused : ¬ answers.Arrives i source target → ¬ answers.Tears i source target →
    fs'.read target = none ∨ fs'.read target = fs.read target
  others : ∀ g ∈ names, g ≠ source → g ≠ target → fs'.read g = fs.read g
  unlinked : Unlinked names fs'

section
variable {answers : FsAnswers} {i i' : Nat} {names : List Bytes} {source target data : Bytes}

/-- A move that gave up before it wrote anything. -/
theorem moveDone_refused {e : FsError} (hlinks : Unlinked names fs)
    (hdata : fs.read source = some data) (harrives : ¬ answers.Arrives i source target)
    (htears : ¬ answers.Tears i source target) :
    MoveDone answers i names source target data fs (.error e) i' fs := by
  have hdeparts : ¬ answers.Departs i source target := mt FsAnswers.Departs.arrives harrives
  exact ⟨iff_of_false nofun harrives, nofun, fun h => absurd h hdeparts, fun _ => hdata,
    fun h => absurd h harrives, fun h => absurd h htears, fun _ _ => .inr rfl,
    fun _ _ _ _ => rfl, hlinks⟩

/-- A copy that broke off, and the attempt to remove it. -/
theorem moveDone_broken {e : FsError} (hne : source ≠ target) (hs : source ∈ names)
    (ht : target ∈ names) (hlinks : Unlinked names fs) (hdata : fs.read source = some data)
    (hopens : answers.Opens i source target)
    (hcopy : answers (i + 4) (.copy source target) = .error e) (n : Nat)
    (hremove : removed = answers (i + 5) (.remove target))
    (hout : (FsCall.remove target).Outcome unreadable
      ((fs.create target).write (fs.opened target) (data.take n)) removed fs') :
    MoveDone answers i names source target data fs (.error e) i' fs' := by
  have harrives : ¬ answers.Arrives i source target := by
    rintro (hrename | hcopied)
    · exact nomatch hrename.symm.trans hopens.1
    · exact nomatch hcopied.2.symm.trans hcopy
  have hdeparts : ¬ answers.Departs i source target := mt FsAnswers.Departs.arrives harrives
  have hwritten : Unlinked names ((fs.create target).write (fs.opened target) (data.take n)) :=
    hlinks.create ht
  have hread : ∀ g ∈ names, g ≠ target → fs'.read g = fs.read g := by
    intro g hg hgt
    have hkept := read_written_of_ne (data.take n) hgt (hlinks.ne_opened ht hg hgt)
    rcases removed with e | ⟨⟩
    · exact hout ▸ hkept
    · exact hout ▸ (read_unlink_of_ne hgt).trans hkept
  rcases removed with e' | ⟨⟩
  · obtain rfl : fs' = _ := hout
    have htears : answers.Tears i source target := by
      refine ⟨hopens, ?_, ?_⟩
      · rw [hcopy]
        nofun
      · rw [← hremove]
        nofun
    exact ⟨iff_of_false nofun harrives, nofun, fun h => absurd h hdeparts,
      fun _ => (hread source hs hne).trans hdata, fun h => absurd h harrives,
      fun _ => ⟨n, read_written_self _⟩, fun _ h => absurd htears h,
      fun g hg _ hgt => hread g hg hgt, hwritten⟩
  · obtain rfl : fs' = _ := hout
    exact ⟨iff_of_false nofun harrives, nofun, fun h => absurd h hdeparts,
      fun _ => (hread source hs hne).trans hdata, fun h => absurd h harrives,
      fun h => absurd hremove.symm h.2.2,
      fun _ _ => .inl (read_eq_none.mpr (update_self _ _ _)),
      fun g hg _ hgt => hread g hg hgt, hwritten.unlink target⟩

/-- A copy that was completed, and the attempt to remove the source. -/
theorem moveDone_copied (hne : source ≠ target) (hs : source ∈ names)
    (ht : target ∈ names) (hlinks : Unlinked names fs) (hdata : fs.read source = some data)
    (hopens : answers.Opens i source target)
    (hcopy : answers (i + 4) (.copy source target) = .ok ())
    (hremove : removed = answers (i + 5) (.remove source))
    (hout : (FsCall.remove source).Outcome unreadable
      ((fs.create target).write (fs.opened target) data) removed fs') :
    MoveDone answers i names source target data fs (.ok ()) (i + 6) fs' := by
  have harrives : answers.Arrives i source target := .inr ⟨hopens, hcopy⟩
  have htime : i + 6 = answers.behind i source target := by
    rw [FsAnswers.behind, hopens.1]
  have hdeparts : answers.Departs i source target ↔ removed = .ok () := by
    rw [hremove]
    refine ⟨fun h => ?_, fun h => .inr ⟨hopens, hcopy, h⟩⟩
    rcases h with hrename | h
    · exact nomatch hrename.symm.trans hopens.1
    · exact h.2.2
  have hwritten : Unlinked names ((fs.create target).write (fs.opened target) data) :=
    hlinks.create ht
  have hread : ∀ g ∈ names, g ≠ target →
      ((fs.create target).write (fs.opened target) data).read g = fs.read g :=
    fun g hg hgt => read_written_of_ne data hgt (hlinks.ne_opened ht hg hgt)
  rcases removed with e | ⟨⟩
  · obtain rfl : fs' = _ := hout
    exact ⟨iff_of_true rfl harrives, fun _ => htime, fun h => (nomatch hdeparts.mp h),
      fun _ => (hread source hs hne).trans hdata, fun _ => read_written_self data,
      fun h => absurd harrives h.not_arrives, fun h => absurd harrives h,
      fun g hg _ hgt => hread g hg hgt, hwritten⟩
  · obtain rfl : fs' = _ := hout
    exact ⟨iff_of_true rfl harrives, fun _ => htime,
      fun _ => read_eq_none.mpr (update_self _ _ _),
      fun h => absurd (hdeparts.mpr rfl) h,
      fun _ => (read_unlink_of_ne hne.symm).trans (read_written_self data),
      fun h => absurd harrives h.not_arrives, fun h => absurd harrives h,
      fun g hg hgs hgt => (read_unlink_of_ne hgs).trans (hread g hg hgt), hwritten.unlink source⟩

/-- **Every move does what the answers say.** -/
theorem moveDone_renameWithFallback {r : Except FsError Unit} (hne : source ≠ target)
    (hs : source ∈ names) (ht : target ∈ names) (hlinks : Unlinked names fs)
    (hdata : fs.read source = some data)
    (h : (renameWithFallback source target).Exec (FsCall.Answered answers unreadable) (i, fs) r
      (i', fs')) :
    MoveDone answers i names source target data fs r i' fs' := by
  obtain ⟨renamed, ⟨i₁, fs₁⟩, ⟨hrename, rfl, hout⟩, h⟩ := exec_call h
  dsimp only at hrename hout h
  rcases renamed with e | ⟨⟩
  · obtain rfl : fs₁ = fs := hout
    have hnot : ¬ answers.Renames i source target := fun h => nomatch hrename.trans h
    -- where the copy is not reached the answers promise nothing
    have hrefused : ¬ answers.Opens i source target → ∀ e : FsError,
        MoveDone answers i names source target data fs₁ (.error e) i' fs₁ :=
      fun hopens e => moveDone_refused hlinks hdata (not_or.mpr ⟨hnot, fun h => hopens h.1⟩)
        fun h => hopens h.1
    cases e with
    | crossDevice =>
      obtain ⟨opened, ⟨i₂, fs₂⟩, ⟨hopen, rfl, hout⟩, h⟩ := exec_call h
      obtain rfl : fs₂ = fs₁ := hout
      rcases opened with e | ⟨⟩
      · obtain ⟨rfl, heq⟩ := h
        cases heq
        exact hrefused (fun h => nomatch hopen.trans h.2.1) e
      obtain ⟨made, ⟨i₃, fs₃⟩, ⟨hmake, rfl, hout⟩, h⟩ := exec_call h
      obtain rfl : fs₃ = fs₂ := hout
      rcases made with e | ⟨⟩
      · obtain ⟨rfl, heq⟩ := h
        cases heq
        exact hrefused (fun h => nomatch hmake.trans h.2.2.1) e
      obtain ⟨created, ⟨i₄, fs₄⟩, ⟨hcreate, rfl, hout⟩, h⟩ := exec_call h
      rcases created with e | ⟨⟩
      · obtain rfl : fs₄ = fs₃ := hout
        obtain ⟨rfl, heq⟩ := h
        cases heq
        exact hrefused (fun h => nomatch hcreate.trans h.2.2.2) e
      obtain rfl : fs₄ = fs₃.create target := hout
      have hopens : answers.Opens i source target :=
        ⟨hrename.symm, hopen.symm, hmake.symm, hcreate.symm⟩
      obtain ⟨copied, ⟨i₅, fs₅⟩, ⟨hcopy, rfl, hout⟩, h⟩ := exec_call h
      obtain ⟨data', x, hread, hx, hwritten⟩ := hout
      obtain rfl : fs₃.opened target = x :=
        some.inj ((fs₃.inode_create_self target).symm.trans hx)
      rw [read_create_of_ne hne (hlinks.ne_opened ht hs hne), hdata] at hread
      cases hread
      rcases copied with e | ⟨⟩
      · obtain ⟨n, rfl⟩ := hwritten
        obtain ⟨removed, ⟨i₆, fs₆⟩, ⟨hremove, rfl, hout⟩, h⟩ := exec_call h
        obtain ⟨rfl, heq⟩ := h
        cases heq
        exact moveDone_broken hne hs ht hlinks hdata hopens hcopy.symm n hremove hout
      · subst hwritten
        obtain ⟨removed, ⟨i₆, fs₆⟩, ⟨hremove, rfl, hout⟩, h⟩ := exec_call h
        obtain ⟨rfl, heq⟩ := h
        cases heq
        exact moveDone_copied hne hs ht hlinks hdata hopens hcopy.symm hremove hout
    | _ =>
      obtain ⟨rfl, heq⟩ := h
      cases heq
      exact hrefused (fun h => nomatch hrename.trans h.1) _
  · obtain ⟨rfl, heq⟩ := h
    cases heq
    obtain ⟨x, hx, rfl⟩ := hout
    have hmoved := moved_rename hx hne
    obtain rfl := some.inj (hmoved.there.symm.trans hdata)
    have hrenames : answers.Renames i source target := hrename.symm
    have htime : i + 1 = answers.behind i source target := by
      rw [FsAnswers.behind, ← hrename]
    exact ⟨iff_of_true rfl (.inl hrenames), fun _ => htime, fun _ => hmoved.gone,
      fun h => absurd (.inl hrenames) h, fun _ => hmoved.arrived,
      fun h => absurd (.inl hrenames) h.not_arrives, fun h => absurd (.inl hrenames) h,
      fun g _ => hmoved.others g, hlinks.rename hs hx⟩

theorem exec_answered {α : Type} {c : FsCall} {k : c.Answer → FsProg α} {r : c.Answer} {a : α}
    {s : Nat × FileSystem} (hr : answers i c = r) (hout : c.Outcome unreadable fs r fs')
    (h : (k r).Exec (FsCall.Answered answers unreadable) (i + 1, fs') a s) :
    (ask c >>= k).Exec (FsCall.Answered answers unreadable) (i, fs) a s :=
  ⟨r, (i + 1, fs'), ⟨hr.symm, rfl, hout⟩, h⟩

/-- **Every answer can be given**, and a copy that breaks off may have copied nothing. -/
theorem exists_renameWithFallback (answers : FsAnswers) (unreadable : Bytes → Prop) (i : Nat)
    (hne : source ≠ target) (hs : source ∈ names) (ht : target ∈ names)
    (hlinks : Unlinked names fs) (hdata : fs.read source = some data) :
    ∃ r i' fs', (renameWithFallback source target).Exec (FsCall.Answered answers unreadable)
        (i, fs) r (i', fs') ∧
      (¬ answers.Arrives i source target → fs.read target = none → data ≠ [] →
        fs'.read target ≠ some data) := by
  have hrefused : ¬ answers.Arrives i source target → fs.read target = none → data ≠ [] →
      fs.read target ≠ some data := by
    intro _ hfree _
    rw [hfree]
    exact (some_ne_none _).symm
  cases hrename : answers i (.rename source target) with
  | ok _ =>
    obtain ⟨x, hx, -⟩ := read_eq_some.mp hdata
    exact ⟨_, _, _, exec_answered hrename ⟨x, hx, rfl⟩ ⟨rfl, rfl⟩, fun h => absurd (.inl hrename) h⟩
  | error e =>
    cases e with
    | crossDevice =>
      cases hopen : answers (i + 1) (.openFile source) with
      | error e =>
        exact ⟨_, _, _, exec_answered hrename rfl <| exec_answered hopen rfl ⟨rfl, rfl⟩, hrefused⟩
      | ok _ =>
      cases hmake : answers (i + 2) (.mkdirAll (pathDir target)) with
      | error e =>
        exact ⟨_, _, _, exec_answered hrename rfl <| exec_answered hopen rfl <|
          exec_answered hmake rfl ⟨rfl, rfl⟩, hrefused⟩
      | ok _ =>
      cases hcreate : answers (i + 3) (.create target) with
      | error e =>
        exact ⟨_, _, _, exec_answered hrename rfl <| exec_answered hopen rfl <|
          exec_answered hmake rfl <| exec_answered hcreate rfl ⟨rfl, rfl⟩, hrefused⟩
      | ok _ =>
      have hread : (fs.create target).read source = some data :=
        (read_create_of_ne hne (hlinks.ne_opened ht hs hne)).trans hdata
      cases hcopy : answers (i + 4) (.copy source target) with
      | ok _ =>
        obtain ⟨fs', hout⟩ : ∃ fs', (FsCall.remove source).Outcome unreadable
            ((fs.create target).write (fs.opened target) data)
            (answers (i + 5) (.remove source)) fs' := by
          cases answers (i + 5) (.remove source) <;> exact ⟨_, rfl⟩
        exact ⟨_, _, _, exec_answered hrename rfl <| exec_answered hopen rfl <|
          exec_answered hmake rfl <| exec_answered hcreate rfl <|
          exec_answered hcopy ⟨data, _, hread, fs.inode_create_self target, rfl⟩ <|
          exec_answered rfl hout ⟨rfl, rfl⟩,
          fun h => absurd (.inr ⟨⟨hrename, hopen, hmake, hcreate⟩, hcopy⟩) h⟩
      | error e =>
        obtain ⟨fs', hout, htorn⟩ : ∃ fs', (FsCall.remove target).Outcome unreadable
            ((fs.create target).write (fs.opened target) (data.take 0))
            (answers (i + 5) (.remove target)) fs' ∧
            (fs'.read target = none ∨ fs'.read target = some []) := by
          cases answers (i + 5) (.remove target) with
          | error e => exact ⟨_, rfl, .inr (read_written_self _)⟩
          | ok _ => exact ⟨_, rfl, .inl (read_eq_none.mpr (update_self _ _ _))⟩
        refine ⟨_, _, fs', exec_answered hrename rfl <| exec_answered hopen rfl <|
          exec_answered hmake rfl <| exec_answered hcreate rfl <|
          exec_answered hcopy ⟨data, _, hread, fs.inode_create_self target, 0, rfl⟩ <|
          exec_answered rfl hout ⟨rfl, rfl⟩, fun _ _ hsome hdata' => ?_⟩
        rcases htorn with hnone | hempty
        · cases hnone.symm.trans hdata'
        · exact hsome (some.inj (hempty.symm.trans hdata')).symm
    | _ => exact ⟨_, _, _, exec_answered hrename rfl ⟨rfl, rfl⟩, hrefused⟩

end

/-! ## The two files -/

/-- A manifest with its checksum file. -/
structure Pair (fs : FileSystem) (path body checksum : Bytes) : Prop where
  body : fs.read path = some body
  checksum : fs.read (manifestChecksumPath path) = some checksum

/-- Neither of the two files is there. -/
structure NoPair (fs : FileSystem) (path : Bytes) : Prop where
  body : fs.read path = none
  checksum : fs.read (manifestChecksumPath path) = none

/-- Neither of the two files has been put there: what was there before still is, or the
manifest of before is gone. -/
structure Spared (fs fs' : FileSystem) (path : Bytes) : Prop where
  body : fs'.read path = none ∨ fs'.read path = fs.read path
  checksum : fs'.read (manifestChecksumPath path) = fs.read (manifestChecksumPath path)

/-- Both files or neither are in the old directory, both or neither have been put into the
trash, and a manifest that could be loaded before can be loaded wherever it is now. -/
structure Together (P : Primitives) (hook : DecryptHook) (srcPath : Bytes)
    (trashDir : Option Bytes) (body checksum : Bytes) (fs fs' : FileSystem) : Prop where
  source : Pair fs' srcPath body checksum ∨ NoPair fs' srcPath
  trash : ∀ dstDir ∈ trashDir, Pair fs' (pathJoin [dstDir, pathBase srcPath]) body checksum ∨
    Spared fs fs' (pathJoin [dstDir, pathBase srcPath])
  loads : (loadManifest P hook fs srcPath).isOk = true →
    (fs'.read srcPath ≠ none → (loadManifest P hook fs' srcPath).isOk = true) ∧
    ∀ dstDir ∈ trashDir, ¬ Spared fs fs' (pathJoin [dstDir, pathBase srcPath]) →
      (loadManifest P hook fs' (pathJoin [dstDir, pathBase srcPath])).isOk = true

/-- The names of the two files in the two directories. -/
def pairNames (source target : Bytes) : List Bytes :=
  [source, manifestChecksumPath source, target, manifestChecksumPath target]

/-- The directories are different, and so are the four names. -/
structure Apart (source target : Bytes) : Prop where
  body : source ≠ target
  checksum : manifestChecksumPath source ≠ manifestChecksumPath target
  up : manifestChecksumPath source ≠ target
  down : source ≠ manifestChecksumPath target

section
variable {P : Primitives} {hook : DecryptHook}

/-- A manifest is loaded alike wherever it is. -/
theorem Pair.loads {path' : Bytes} (h : Pair fs path body checksum)
    (h' : Pair fs' path' body checksum) (hok : (loadManifest P hook fs path).isOk = true) :
    (loadManifest P hook fs' path').isOk = true := by
  have hcheck : verifyManifestChecksum P fs' path' body = verifyManifestChecksum P fs path body := by
    unfold verifyManifestChecksum
    rw [h.checksum, h'.checksum]
  unfold loadManifest at hok ⊢
  rw [h.body] at hok
  rw [h'.body]
  dsimp only at hok ⊢
  rw [hcheck]
  cases hfirst : (if isGBREnvelope body then Except.ok ()
      else verifyManifestChecksum P fs path body) with
  | error e =>
    rw [hfirst] at hok
    cases hok
  | ok _ =>
    rw [hfirst] at hok
    cases hdata : loadManifestFromData P hook body with
    | error e =>
      rw [hdata] at hok
      cases hok
    | ok m => rfl

theorem together_of {trashDir : Option Bytes} (hpair : Pair fs srcPath body checksum)
    (hsource : Pair fs' srcPath body checksum ∨ NoPair fs' srcPath)
    (htrash : ∀ dstDir ∈ trashDir, Pair fs' (pathJoin [dstDir, pathBase srcPath]) body checksum ∨
      Spared fs fs' (pathJoin [dstDir, pathBase srcPath])) :
    Together P hook srcPath trashDir body checksum fs fs' := by
  refine ⟨hsource, htrash, fun hok => ⟨fun hsome => ?_, fun dstDir hdst hspared => ?_⟩⟩
  · rcases hsource with hthere | hnone
    · exact hpair.loads hthere hok
    · exact absurd hnone.body hsome
  · exact hpair.loads ((htrash dstDir hdst).resolve_right hspared) hok

theorem checksumPath_ne (path : Bytes) : manifestChecksumPath path ≠ path := by
  intro heq
  have hlen := congrArg List.length heq
  rw [manifestChecksumPath, List.length_append] at hlen
  have : (ascii ".sha256").length = 7 := rfl
  omega

/-- What becomes of a file if each of its ends is decided by one fact. -/
theorem pair_or_noPair_iff {A B : Prop} (hgone : A → fs.read path = none)
    (hthere : ¬ A → fs.read path = some body)
    (hgone' : B → fs.read (manifestChecksumPath path) = none)
    (hthere' : ¬ B → fs.read (manifestChecksumPath path) = some checksum) :
    (Pair fs path body checksum ∨ NoPair fs path) ↔ (A ↔ B) := by
  constructor
  · rintro (h | h)
    · have hA : ¬ A := fun hA => some_ne_none _ (h.body.symm.trans (hgone hA))
      have hB : ¬ B := fun hB => some_ne_none _ (h.checksum.symm.trans (hgone' hB))
      exact iff_of_false hA hB
    · have hA : A := by_contra fun hA => some_ne_none _ ((hthere hA).symm.trans h.body)
      have hB : B := by_contra fun hB => some_ne_none _ ((hthere' hB).symm.trans h.checksum)
      exact iff_of_true hA hB
  · intro h
    by_cases hA : A
    · exact .inr ⟨hgone hA, hgone' (h.mp hA)⟩
    · exact .inl ⟨hthere hA, hthere' (mt h.mpr hA)⟩

/-! ### Deleting -/

theorem read_of_removed (h : (FsCall.remove path).Outcome unreadable fs removed fs') :
    (removed = .ok () → fs'.read path = none) ∧ (removed ≠ .ok () → fs'.read path = fs.read path) ∧
      ∀ g, g ≠ path → fs'.read g = fs.read g := by
  rcases removed with e | ⟨⟩
  · obtain rfl : fs' = fs := h
    exact ⟨nofun, fun _ => rfl, fun _ _ => rfl⟩
  · obtain rfl : fs' = fs.unlink path := h
    exact ⟨fun _ => read_eq_none.mpr (update_self _ _ _), fun hne => absurd rfl hne,
      fun g hg => read_unlink_of_ne hg⟩

variable {answers : FsAnswers} {i : Nat} {r : Except OpError Unit}

/-- Deleting: both removals are tried, and each may fail. -/
theorem together_delete_iff (hpair : Pair fs srcPath body checksum)
    (h : (moveOrDeleteOneManifest srcPath none).Exec (FsCall.Answered answers unreadable) (0, fs) r
      (i, fs')) :
    Together P hook srcPath none body checksum fs fs' ↔ answers.Keep srcPath none := by
  have hne := checksumPath_ne srcPath
  obtain ⟨first, ⟨i₁, fs₁⟩, ⟨hfirst, rfl, hout⟩, h⟩ := exec_call h
  obtain ⟨second, ⟨i₂, fs₂⟩, ⟨hsecond, rfl, hout'⟩, h⟩ := exec_call h
  obtain ⟨-, heq⟩ := h
  cases heq
  obtain ⟨hgone, hkept, hothers⟩ := read_of_removed hout
  obtain ⟨hgone', hkept', hothers'⟩ := read_of_removed hout'
  have hiff : (Pair fs' srcPath body checksum ∨ NoPair fs' srcPath) ↔
      (second = .ok () ↔ first = .ok ()) :=
    pair_or_noPair_iff hgone'
      (fun h => (hkept' h).trans ((hothers _ hne.symm).trans hpair.body))
      (fun h => (hothers' _ hne).trans (hgone h))
      (fun h => (hothers' _ hne).trans ((hkept h).trans hpair.checksum))
  have hkeep : answers.Keep srcPath none ↔ (second = .ok () ↔ first = .ok ()) := by
    rw [hfirst, hsecond]
    exact Iff.comm
  rw [hkeep, ← hiff]
  exact ⟨fun h => h.source, fun h => together_of hpair h nofun⟩

/-- A run of the two removals. -/
theorem exists_delete (answers : FsAnswers) (unreadable : Bytes → Prop) (srcPath : Bytes)
    (fs : FileSystem) : ∃ r i fs', (moveOrDeleteOneManifest srcPath none).Exec
      (FsCall.Answered answers unreadable) (0, fs) r (i, fs') := by
  have hsome : ∀ (i : Nat) (path : Bytes) (fs : FileSystem), ∃ fs',
      (FsCall.remove path).Outcome unreadable fs (answers i (.remove path)) fs' := by
    intro i path fs
    cases answers i (.remove path) <;> exact ⟨_, rfl⟩
  obtain ⟨fs₁, hout⟩ := hsome 0 (manifestChecksumPath srcPath) fs
  obtain ⟨fs₂, hout'⟩ := hsome 1 srcPath fs₁
  exact ⟨_, _, fs₂, exec_answered rfl hout <| exec_answered rfl hout' ⟨rfl, rfl⟩⟩

/-! ### Moving to the trash -/

section
variable {target : Bytes} {moved : Except FsError Unit}

/-- The manifest is being moved, and its checksum has not been touched. -/
structure FirstMoved (answers : FsAnswers) (target : Bytes) (fs : FileSystem)
    (moved : Except FsError Unit) (i : Nat) (fs₁ : FileSystem) (srcPath body checksum : Bytes) :
    Prop where
  apart : Apart srcPath target
  pair : Pair fs srcPath body checksum
  done : MoveDone answers 0 (pairNames srcPath target) srcPath target body fs moved i fs₁

theorem FirstMoved.checksum_source (h : FirstMoved answers target fs moved i fs' srcPath body checksum) :
    fs'.read (manifestChecksumPath srcPath) = some checksum :=
  (h.done.others _ (by simp [pairNames]) (checksumPath_ne _) h.apart.up).trans h.pair.checksum

theorem FirstMoved.checksum_target (h : FirstMoved answers target fs moved i fs' srcPath body checksum) :
    fs'.read (manifestChecksumPath target) = fs.read (manifestChecksumPath target) :=
  h.done.others _ (by simp [pairNames]) h.apart.down.symm (checksumPath_ne _)

/-- The first file has not arrived, and the second is not tried. -/
theorem FirstMoved.refused {e : FsError}
    (h : FirstMoved answers target fs (.error e) i fs' srcPath body checksum) :
    ¬ answers.Arrives 0 srcPath target ∧ Pair fs' srcPath body checksum ∧
      (¬ answers.Tears 0 srcPath target → Spared fs fs' target) := by
  have harrives : ¬ answers.Arrives 0 srcPath target := fun h' => nomatch h.done.ok.mpr h'
  have hdeparts := mt FsAnswers.Departs.arrives harrives
  exact ⟨harrives, ⟨h.done.stayed hdeparts, h.checksum_source⟩,
    fun htears => ⟨h.done.refused harrives htears, h.checksum_target⟩⟩

/-- The second move begins where the first has ended. -/
theorem FirstMoved.second {fs₁ : FileSystem} {i' : Nat} {moved' : Except FsError Unit}
    (h : FirstMoved answers target fs (.ok ()) i fs₁ srcPath body checksum)
    (hdone : MoveDone answers (i + 1) (pairNames srcPath target) (manifestChecksumPath srcPath)
      (manifestChecksumPath target) checksum fs₁ moved' i' fs') :
    fs'.read target = some body ∧
      ((Pair fs' srcPath body checksum ∨ NoPair fs' srcPath) ↔
        (answers.Departs 0 srcPath target ↔ answers.Departs (i + 1) (manifestChecksumPath srcPath)
          (manifestChecksumPath target))) := by
  have hkept : fs'.read srcPath = fs₁.read srcPath :=
    hdone.others _ (by simp [pairNames]) (checksumPath_ne _).symm h.apart.down
  refine ⟨?_, pair_or_noPair_iff (fun h' => hkept.trans (h.done.departed h'))
    (fun h' => hkept.trans (h.done.stayed h')) hdone.departed hdone.stayed⟩
  rw [hdone.others _ (by simp [pairNames]) h.apart.up.symm (checksumPath_ne _).symm]
  exact h.done.arrived (h.done.ok.mp rfl)

theorem firstMoved (hapart : Apart srcPath target) (hpair : Pair fs srcPath body checksum)
    (hlinks : Unlinked (pairNames srcPath target) fs)
    (h : (renameWithFallback srcPath target).Exec (FsCall.Answered answers unreadable) (0, fs) moved
      (i, fs')) :
    FirstMoved answers target fs moved i fs' srcPath body checksum :=
  ⟨hapart, hpair, moveDone_renameWithFallback hapart.body (by simp [pairNames])
    (by simp [pairNames]) hlinks hpair.body h⟩

end

/-- These answers keep the two files together, whatever is in the trash. -/
theorem together_of_keep (hapart : Apart srcPath (pathJoin [dstDir, pathBase srcPath]))
    (hpair : Pair fs srcPath body checksum)
    (hlinks : Unlinked (pairNames srcPath (pathJoin [dstDir, pathBase srcPath])) fs)
    (hkeep : answers.Keep srcPath (some dstDir))
    (h : (moveOrDeleteOneManifest srcPath (some dstDir)).Exec (FsCall.Answered answers unreadable)
      (0, fs) r (i, fs')) :
    Together P hook srcPath (some dstDir) body checksum fs fs' := by
  obtain ⟨moved, ⟨i₁, fs₁⟩, hmove, h⟩ := exec_bind.mp h
  have hfirst := firstMoved hapart hpair hlinks hmove
  rcases moved with e | ⟨⟩
  · obtain ⟨-, heq⟩ := h
    cases heq
    obtain ⟨-, hsource, hspared⟩ := hfirst.refused
    refine together_of hpair (.inl hsource) ?_
    rintro _ ⟨⟩
    exact .inr (hspared hkeep.1)
  · obtain ⟨⟨t, hstat⟩, harrives, hdeparts⟩ := hkeep.2 (hfirst.done.ok.mp rfl)
    rw [← hfirst.done.time rfl] at hstat harrives hdeparts
    obtain ⟨found, ⟨i₂, fs₂⟩, ⟨hfound, rfl, hout⟩, h⟩ := exec_call h
    obtain rfl : fs₂ = fs₁ := hout
    obtain rfl := hfound.trans hstat
    obtain ⟨moved', ⟨i₃, fs₃⟩, hmove', h⟩ := exec_bind.mp h
    obtain ⟨-, heq⟩ := h
    cases heq
    have hdone := moveDone_renameWithFallback hapart.checksum (by simp [pairNames])
      (by simp [pairNames]) hfirst.done.unlinked hfirst.checksum_source hmove'
    obtain ⟨hbody, hsource⟩ := hfirst.second hdone
    refine together_of hpair (hsource.mpr hdeparts) ?_
    rintro _ ⟨⟩
    exact .inl ⟨hbody, hdone.arrived harrives⟩

/-- What is in the trash was put there if there was nothing before. -/
theorem Together.pair_of_put {b : Bytes}
    (h : Together P hook srcPath (some dstDir) body checksum fs fs')
    (hfree : NoPair fs (pathJoin [dstDir, pathBase srcPath]))
    (hput : fs'.read (pathJoin [dstDir, pathBase srcPath]) = some b) :
    Pair fs' (pathJoin [dstDir, pathBase srcPath]) body checksum := by
  refine (h.trash dstDir rfl).resolve_right fun hspared => ?_
  rcases hspared.body with hnone | hsame
  · cases hnone.symm.trans hput
  · cases (hsame.trans hfree.body).symm.trans hput

/-- Other answers separate the two files where the trash is empty. -/
theorem keep_of_together (hapart : Apart srcPath (pathJoin [dstDir, pathBase srcPath]))
    (hpair : Pair fs srcPath body checksum) (hsum : checksum ≠ [])
    (hlinks : Unlinked (pairNames srcPath (pathJoin [dstDir, pathBase srcPath])) fs)
    (hfree : NoPair fs (pathJoin [dstDir, pathBase srcPath]))
    (hall : ∀ {r i fs'}, (moveOrDeleteOneManifest srcPath (some dstDir)).Exec
      (FsCall.Answered answers unreadable) (0, fs) r (i, fs') →
        Together P hook srcPath (some dstDir) body checksum fs fs') :
    answers.Keep srcPath (some dstDir) := by
  obtain ⟨moved, i₁, fs₁, hmove, -⟩ := exists_renameWithFallback answers unreadable 0 hapart.body
    (by simp [pairNames]) (by simp [pairNames]) hlinks hpair.body
  have hfirst := firstMoved hapart hpair hlinks hmove
  have hnone := hfirst.checksum_target.trans hfree.checksum
  rcases moved with e | ⟨⟩
  · have htogether := hall (exec_bind.mpr ⟨_, _, hmove, rfl, rfl⟩)
    refine ⟨fun htears => ?_, fun harrives => absurd harrives hfirst.refused.1⟩
    obtain ⟨n, htorn⟩ := hfirst.done.torn htears
    cases hnone.symm.trans (htogether.pair_of_put hfree htorn).checksum
  · have harrives := hfirst.done.ok.mp rfl
    have hbody := hfirst.done.arrived harrives
    refine ⟨fun htears => htears.not_arrives harrives, fun _ => ?_⟩
    rw [← hfirst.done.time rfl]
    cases hstat : answers i₁ (.stat (manifestChecksumPath srcPath)) with
    | error e =>
      have htogether := hall (exec_bind.mpr ⟨_, _, hmove, exec_answered hstat rfl ⟨rfl, rfl⟩⟩)
      cases hnone.symm.trans (htogether.pair_of_put hfree hbody).checksum
    | ok t =>
      obtain ⟨moved', i₂, fs₂, hmove', htorn⟩ := exists_renameWithFallback answers unreadable
        (i₁ + 1) hapart.checksum (by simp [pairNames]) (by simp [pairNames]) hfirst.done.unlinked
        hfirst.checksum_source
      have hdone := moveDone_renameWithFallback hapart.checksum (by simp [pairNames])
        (by simp [pairNames]) hfirst.done.unlinked hfirst.checksum_source hmove'
      have htogether := hall (exec_bind.mpr ⟨_, _, hmove, exec_answered hstat rfl <|
        exec_bind.mpr ⟨_, _, hmove', rfl, rfl⟩⟩)
      obtain ⟨hput, hsource⟩ := hfirst.second hdone
      have htrash := htogether.pair_of_put hfree hput
      exact ⟨⟨t, rfl⟩, by_contra fun hnot => htorn hnot hnone hsum htrash.checksum,
        hsource.mp htogether.source⟩

/-! ### Both modes -/

/-- A file system with the two files and nothing else. -/
def pairFiles (path body checksum : Bytes) : FileSystem where
  inode g := if g = path then some 0 else if g = manifestChecksumPath path then some 1 else none
  content x := if x = 0 then body else checksum
  fresh := 2
  inode_lt := by
    intro g x h
    split_ifs at h <;> cases h <;> decide

theorem pairFiles_pair : Pair (pairFiles path body checksum) path body checksum :=
  ⟨read_eq_some.mpr ⟨0, if_pos rfl, rfl⟩, read_eq_some.mpr
    ⟨1, (if_neg (checksumPath_ne path)).trans (if_pos rfl), rfl⟩⟩

theorem pairFiles_free {g : Bytes} (hbody : path ≠ g) (hsum : manifestChecksumPath path ≠ g) :
    (pairFiles path body checksum).read g = none :=
  read_eq_none.mpr ((if_neg hbody.symm).trans (if_neg hsum.symm))

theorem pairFiles_unlinked (names : List Bytes) :
    Unlinked names (pairFiles path body checksum) := by
  intro g _ g' _ x hx hx'
  dsimp only [pairFiles] at hx hx'
  split_ifs at hx hx' with hg hg' hg' hg hg' hg' <;> cases hx <;> cases hx'
  · exact hg.trans hg'.symm
  · exact hg.trans hg'.symm

/-- **A legacy manifest and its checksum file stay together exactly if the answers are of this
kind**, whatever the two files and the trash hold. The trash is another directory, its files are
other files, and no checksum is empty. -/
theorem pair_together_iff {trashDir : Option Bytes}
    (hapart : ∀ dstDir ∈ trashDir, Apart srcPath (pathJoin [dstDir, pathBase srcPath])) :
    (∀ {fs body checksum}, Pair fs srcPath body checksum → checksum ≠ [] →
      (∀ dstDir ∈ trashDir, Unlinked (pairNames srcPath (pathJoin [dstDir, pathBase srcPath])) fs) →
      ∀ {r i fs'}, (moveOrDeleteOneManifest srcPath trashDir).Exec
        (FsCall.Answered answers unreadable) (0, fs) r (i, fs') →
          Together P hook srcPath trashDir body checksum fs fs') ↔
      answers.Keep srcPath trashDir := by
  have hpair : Pair (pairFiles srcPath [] [0]) srcPath [] [0] := pairFiles_pair
  cases trashDir with
  | none =>
    constructor
    · intro hall
      obtain ⟨r, i, fs', h⟩ := exists_delete answers unreadable srcPath (pairFiles srcPath [] [0])
      exact (together_delete_iff hpair h).mp (hall hpair (List.cons_ne_nil _ _) nofun h)
    · exact fun hkeep _ _ _ hpair _ _ _ _ _ h => (together_delete_iff hpair h).mpr hkeep
  | some dstDir =>
    have hapart := hapart dstDir rfl
    constructor
    · intro hall
      have halone := @hall _ _ _ hpair (List.cons_ne_nil _ _) fun _ _ => pairFiles_unlinked _
      exact keep_of_together hapart hpair (List.cons_ne_nil _ _) (pairFiles_unlinked _)
        ⟨pairFiles_free hapart.body hapart.up, pairFiles_free hapart.down hapart.checksum⟩ halone
    · intro hkeep fs body checksum hpair _ hlinks r i fs' h
      exact together_of_keep hapart hpair (hlinks dstDir rfl) hkeep h

end

/-! ## A manifest that loses its checksum -/

/-- The primitives, with the digest of the manifest `{}`. -/
def legacyPrimitives : Primitives :=
  samplePrimitives.withDigests
    [(ascii "\x7b\x7d", 0x44136fa355b3678a1146ad16f7e8649e94fb4fc21fe77e8310c060f61caaff8a)]

def legacyPath : Bytes := ascii "m/manifests/s/1_d.json"

def legacyTrash : Bytes := ascii "m/trash/s"

def legacyChecksum : Bytes :=
  ascii "44136fa355b3678a1146ad16f7e8649e94fb4fc21fe77e8310c060f61caaff8a"

/-- The manifest and its checksum. -/
def legacyFiles : FileSystem := pairFiles legacyPath (ascii "\x7b\x7d") legacyChecksum

/-- The trash is on another file system, and nothing fails. -/
def otherDevice : FsAnswers
  | _, .rename _ _ => .error .crossDevice
  | _, .readDir _ => .ok []
  | _, .readFile _ => .ok []
  | _, .stat _ => .ok 0
  | _, .mkdirAll _ | _, .create _ | _, .write _ _ | _, .sync _ | _, .close _ | _, .openFile _
  | _, .copy _ _ | _, .link _ _ | _, .remove _ => .ok ()

/-- Both files are copied, and removed from the old directory. -/
theorem pair_together_copied :
    ∃ i fs', (moveOrDeleteOneManifest legacyPath (some legacyTrash)).Exec
        (FsCall.Answered otherDevice fun _ => False) (0, legacyFiles) (.ok ()) (i, fs') ∧
      Together legacyPrimitives none legacyPath (some legacyTrash) (ascii "\x7b\x7d") legacyChecksum
        legacyFiles fs' ∧
      Pair fs' (ascii "m/trash/s/1_d.json") (ascii "\x7b\x7d") legacyChecksum := by
  have hrun : (moveOrDeleteOneManifest legacyPath (some legacyTrash)).Exec
      (FsCall.Answered otherDevice fun _ => False) (0, legacyFiles) (.ok ()) (_, _) :=
    exec_answered rfl rfl <| exec_answered rfl rfl <| exec_answered rfl rfl <|
      exec_answered rfl rfl <| exec_answered rfl ⟨ascii "\x7b\x7d", 2, by decide, by decide, rfl⟩ <|
      exec_answered rfl rfl <| exec_answered rfl rfl <| exec_answered rfl rfl <|
      exec_answered rfl rfl <| exec_answered rfl rfl <| exec_answered rfl rfl <|
      exec_answered rfl ⟨legacyChecksum, 3, by decide, by decide, rfl⟩ <| exec_answered rfl rfl ⟨rfl, rfl⟩
  refine ⟨_, _, hrun, ?_, by decide, by decide⟩
  refine (pair_together_iff ?_).mpr ?_ pairFiles_pair (by decide) (fun _ _ => pairFiles_unlinked _)
    hrun
  · rintro _ ⟨⟩
    exact ⟨by decide, by decide, by decide, by decide⟩
  · refine ⟨fun h => h.2.1 rfl, fun _ => ⟨⟨0, rfl⟩, .inr ⟨⟨rfl, rfl, rfl, rfl⟩, rfl⟩, ?_⟩⟩
    exact iff_of_true (.inr ⟨⟨rfl, rfl, rfl, rfl⟩, rfl, rfl⟩) (.inr ⟨⟨rfl, rfl, rfl, rfl⟩, rfl, rfl⟩)

/-- The rename of the checksum fails, and the call succeeds: the manifest is in the trash, and
can no longer be loaded. -/
theorem pair_separated :
    ∃ log fs', (moveOrDeleteOneManifest legacyPath (some legacyTrash)).Record
        (FsCall.Outcome fun _ => False) legacyFiles log (.ok ()) fs' ∧
      (loadManifest legacyPrimitives none legacyFiles legacyPath).isOk = true ∧
      loadManifest legacyPrimitives none fs' (ascii "m/trash/s/1_d.json") =
        .error .checksumMissing ∧
      fs'.read legacyPath = none ∧
      fs'.read (manifestChecksumPath legacyPath) = some legacyChecksum := by
  refine ⟨_, _, ⟨.ok (), _, _, ⟨0, by decide, rfl⟩, rfl, .ok 0, _, _, rfl, rfl, .error .other, _, _,
    rfl, rfl, rfl, rfl, rfl⟩, by decide +kernel, by decide +kernel, by decide, by decide⟩

end GbfCore
