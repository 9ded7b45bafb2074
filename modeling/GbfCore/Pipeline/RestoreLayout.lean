import GbfCore.Lib.DirTree
import GbfCore.Manifest.TreeShape
import GbfCore.Pipeline.RestoreSafety

/-!
# Where a restore puts directories and files

The two passes of `Run` into an empty target, where any call may fail. The first makes
directories on the ways to the keys and nothing else. Once it is through, all of these are there and
stay there, so the second finds a directory on every way, and a directory at the
place of a file only if that place is on a way (`restoreBelow_safe`). The manifests that
`ValidateStructure` accepts and for which this never happens are those that describe a
tree (`validated_tree_iff`).
-/

namespace GbfCore

open Function List Prog Option GbfCore.Tree

variable {comps keys : List Bytes} {P : Primitives} {dec : Decryptor} {sizes : WriteSizes}
  {cfg : RestoreConfig} {α : Type} {files : List FileEntry} {cfg : RestoreConfig}

/-- The call finds something else where a directory must go, or a directory where a file must
go. -/
def Machine.Meets (m : Machine) : DirCall → Prop
  | .openDir dir name => ∃ d x, m.fd dir = some d ∧ m.tree.entry d name = some x ∧
      m.tree.obj x ≠ some .dir
  | .mkdir dir name => ∃ d x, m.fd dir = some d ∧ m.tree.entry d name = some x ∧
      m.tree.obj x ≠ some .dir
  | .stat dir name => ∃ d x, m.fd dir = some d ∧ m.tree.entry d name = some x ∧
      m.tree.obj x = some .dir
  | .rename dir _ target => ∃ d x, m.fd dir = some d ∧ m.tree.entry d target = some x ∧
      m.tree.obj x = some .dir
  | _ => False

/-- The call finds what it may find. -/
def Machine.Unmet (m : Machine) : RestoreCall → Prop
  | .dir c => ¬ m.Meets c
  | _ => True

/-- No call of the program meets anything, whatever the answers are. -/
abbrev Prog.Clear {α : Type} (p : RestoreProg α) (faults : DirCall.Faults) (m : Machine)
    (Q : α → Machine → Prop) : Prop :=
  p.Safe (RestoreCall.Outcome faults) Machine.Unmet m Q

/-- A directory is open and empty. -/
structure EmptyTarget (root r : Nat) (m : Machine) : Prop where
  fd_root : m.fd root = some r
  dir : m.tree.obj r = some .dir
  empty : ∀ name, m.tree.entry r name = none

section
variable (ways : Set (List Bytes))

/-- The directories below the target are on the ways, and nothing else is. -/
structure OnWays (root r : Nat) (m : Machine) : Prop where
  fd_root : m.fd root = some r
  dir : m.tree.obj r = some .dir
  proper : m.tree.Proper r
  walked : ∀ {p e}, m.tree.walk r p = some e → p ≠ [] → p ∈ ways
  clear : ∀ q ∈ ways, m.tree.Clear r q

/-- All of the ways are directories. -/
def Laid (r : Nat) (m : Machine) : Prop := ∀ q ∈ ways, ∃ e, m.tree.walk r q = some e

variable {ways} {root r dir d : Nat} {m m' : Machine} {path : List Bytes} {name : Bytes}
  {faults : DirCall.Faults}

theorem EmptyTarget.onWays (h : EmptyTarget root r m) : OnWays ways root r m := by
  have hnil : ∀ {p e}, m.tree.walk r p = some e → p = [] := by
    intro p e hp
    cases p with
    | nil => rfl
    | cons name p =>
      rw [walk, h.empty] at hp
      cases hp
  refine ⟨h.fd_root, h.dir, fun p q e hp hq => (hnil hp).trans (hnil hq).symm,
    fun hp hne => absurd (hnil hp) hne, fun q _ p name d x _ hp hentry => ?_⟩
  cases hnil hp
  cases hp
  cases (h.empty name).symm.trans hentry

/-- Only descriptors have changed. -/
theorem OnWays.refd (h : OnWays ways root r m) (hfd : m'.fd root = some r)
    (htree : m'.tree = m.tree) : OnWays ways root r m' := by
  obtain ⟨-, hdir, hproper, hwalked, hclear⟩ := h
  rw [← htree] at hdir hproper hclear
  exact ⟨hfd, hdir, hproper, fun {p e} hp => hwalked (htree ▸ hp), hclear⟩

/-- **A directory is made on a way.** -/
theorem OnWays.mkdir (h : OnWays ways root r m) (hd : m.tree.obj d = some .dir)
    (hnone : m.tree.entry d name = none) (hwalk : m.tree.walk r path = some d)
    (hway : path ++ [name] ∈ ways) :
    OnWays ways root r { m with tree := m.tree.add d hd name .dir } := by
  have hgrown := grown_add hd hnone h.dir h.proper hwalk
  refine ⟨h.fd_root, hgrown.dir h.dir, hgrown.proper h.proper, fun {p e} hp hne => ?_,
    fun q hq => hgrown.clear (h.clear q hq)⟩
  rcases (hgrown.walk_iff p).mp ⟨e, hp⟩ with ⟨e', hold⟩ | rfl
  · exact h.walked hold hne
  · exact hway

/-- Once all ways are there, a call that makes no directories keeps everything. -/
theorem OnWays.sameDirs (h : OnWays ways root r m) (hlaid : Laid ways r m)
    (hfd : m'.fd root = some r) (hsame : m.tree.SameDirs m'.tree) :
    OnWays ways root r m' ∧ Laid ways r m' := by
  have hlaid' : Laid ways r m' := by
    intro q hq
    obtain ⟨e, he⟩ := hlaid q hq
    exact ⟨e, hsame.walk_iff.mpr he⟩
  refine ⟨⟨hfd, (hsame.obj r).mpr h.dir, fun p q e hp hq => ?_, fun hp => ?_, fun q hq => ?_⟩,
    hlaid'⟩
  · exact h.proper (hsame.walk_iff.mp hp) (hsame.walk_iff.mp hq)
  · exact h.walked (hsame.walk_iff.mp hp)
  · obtain ⟨e, he⟩ := hlaid' q hq
    exact clear_of_walk he

/-! ## Directories -/

/-- The directories are still there, and so are the handles. -/
structure Extends (r : Nat) (m m' : Machine) : Prop where
  walk : ∀ {p e}, m.tree.walk r p = some e → m'.tree.walk r p = some e
  fd : ∀ {f x}, m.fd f = some x → m'.fd f = some x

/-- What `Child` leaves: with a new handle, if it succeeds. -/
structure Entered (ways : Set (List Bytes)) (root r : Nat) (m : Machine) (path : List Bytes)
    (res : Except SecureError Nat) (m' : Machine) : Prop where
  layout : OnWays ways root r m'
  keeps : Extends r m m'
  handle : ∀ f, res = .ok f → m.fd f = none ∧ ∃ x, m'.fd f = some x ∧ m'.tree.walk r path = some x

section
variable (h : OnWays ways root r m) (hdir : m.fd dir = some d) (hwalk : m.tree.walk r path = some d)
  (hway : path ++ [name] ∈ ways)
include h hdir hwalk hway

/-- There is nothing but a directory on a way. -/
theorem OnWays.obj_of_entry {d' x : Nat} (hdir' : m.fd dir = some d')
    (hentry : m.tree.entry d' name = some x) : m.tree.obj x = some .dir := by
  cases hdir.symm.trans hdir'
  exact h.clear _ hway (prefix_refl _) hwalk hentry

/-- The open of a directory on a way. -/
theorem openDir_safe {k : Except DirError Nat → RestoreProg α} {Q : α → Machine → Prop}
    (hok : ∀ f m', Entered ways root r m (path ++ [name]) (.ok f) m' →
      (k (.ok f)).Clear faults m' Q) (herr : ∀ e, (k (.error e)).Clear faults m Q) :
    (askDir (.openDir dir name) >>= k).Clear faults m Q := by
  refine safe_ask ?_ fun res m' hout => ?_
  · rintro ⟨d', x, hdir', hentry, hx⟩
    exact hx (h.obj_of_entry hdir hwalk hway hdir' hentry)
  · have hkeep : ∀ {f x}, m.fd f = some x → m'.fd f = some x := fun hf =>
      DirCall.fd_of_outcome (c := .openDir dir name) nofun hout hf
    cases res with
    | error e =>
      obtain ⟨rfl, -⟩ := hout
      exact herr e
    | ok f =>
      obtain ⟨d', x, hdir', hentry, hx, hf, rfl⟩ := hout
      cases hdir.symm.trans hdir'
      refine hok f _ ⟨h.refd (hkeep h.fd_root) rfl, ⟨id, hkeep⟩, fun f' hf' => ?_⟩
      cases hf'
      exact ⟨hf, x, update_self .., walk_child hwalk hentry hx⟩

theorem childRetry_safe :
    (childRetry dir name).Clear faults m
      (Entered ways root r m (path ++ [name])) :=
  openDir_safe h hdir hwalk hway (fun _ _ hentered => hentered)
    fun _ => ⟨h, ⟨id, id⟩, nofun⟩

theorem child_safe :
    (child dir name).Clear faults m
      (Entered ways root r m (path ++ [name])) := by
  have hfails : ∀ e, Entered ways root r m (path ++ [name]) (.error e) m :=
    fun _ => ⟨h, ⟨id, id⟩, nofun⟩
  refine openDir_safe h hdir hwalk hway (fun _ _ hentered => hentered) fun e => ?_
  cases e with
  | notExist =>
    refine safe_ask ?_ fun made m₁ hmade => ?_
    · rintro ⟨d', x, hdir', hentry, hx⟩
      exact hx (h.obj_of_entry hdir hwalk hway hdir' hentry)
    · rcases made with e | ⟨⟩
      · obtain ⟨rfl, -⟩ := hmade
        cases e with
        | exist => exact childRetry_safe h hdir hwalk hway
        | _ => exact hfails _
      · obtain ⟨d', hd, hdir', hnone, rfl⟩ := hmade
        cases hdir.symm.trans hdir'
        have hgrown := grown_add hd hnone h.dir h.proper hwalk
        refine (childRetry_safe (h.mkdir hd hnone hwalk hway) hdir (hgrown.mono hwalk) hway).mono
          fun res m' hres => ?_
        exact ⟨hres.layout, ⟨fun hp => hres.keeps.walk (hgrown.mono hp), hres.keeps.fd⟩,
          hres.handle⟩
  | _ => exact hfails _

end

theorem closeOwned_safe {owned : Bool} (h : OnWays ways root r m)
    (hne : owned = true → dir ≠ root) :
    (closeOwned dir owned).Clear faults m fun _ m' =>
      OnWays ways root r m' ∧ m'.tree = m.tree ∧ ∀ f, f ≠ dir → m'.fd f = m.fd f := by
  unfold closeOwned
  split
  · rename_i howned
    refine safe_ask id fun _ m' hout => ?_
    obtain rfl : m' = { m with fd := update m.fd dir none } := hout
    have hother : ∀ f, f ≠ dir → update m.fd dir none f = m.fd f :=
      fun f hf => update_of_ne hf _ _
    exact ⟨h.refd ((hother root (hne howned).symm).trans h.fd_root) rfl, rfl, hother⟩
  · exact ⟨h, rfl, fun _ _ => rfl⟩

/-- **A walk along a way.** -/
theorem openSecureFrom_safe : ∀ {dir d : Nat} {owned : Bool} {m : Machine}
    {path : List Bytes}, OnWays ways root r m → m.fd dir = some d → m.tree.walk r path = some d →
    (owned = true → dir ≠ root) → (∀ s, s ≠ [] → s <+: comps → path ++ s ∈ ways) →
    (openSecureFrom dir owned comps).Clear faults m fun res m' => OnWays ways root r m' ∧
        (∀ {p e}, m.tree.walk r p = some e → m'.tree.walk r p = some e) ∧
        ∀ opened, res = .ok opened → (opened.2 = true → opened.1 ≠ root) ∧
          ∃ x, m'.fd opened.1 = some x ∧ m'.tree.walk r (path ++ comps) = some x := by
  induction comps with
  | nil =>
    intro dir d owned m path h hdir hwalk hne _
    refine ⟨h, id, fun opened hopened => ?_⟩
    cases hopened
    rw [append_nil]
    exact ⟨hne, d, hdir, hwalk⟩
  | cons name rest ih =>
    intro dir d owned m path h hdir hwalk hne hways
    unfold openSecureFrom
    split
    · exact ⟨h, id, by rintro _ ⟨⟩⟩
    · have hway : path ++ [name] ∈ ways := hways [name] (cons_ne_nil _ _) (by simp)
      refine safe_bind (child_safe h hdir hwalk hway) fun next m₁ hnext => ?_
      refine safe_bind (closeOwned_safe hnext.layout hne) ?_
      rintro _ m₂ ⟨h₂, htree, hother⟩
      have hmono : ∀ {p e}, m.tree.walk r p = some e → m₂.tree.walk r p = some e :=
        fun hp => htree ▸ hnext.keeps.walk hp
      cases next with
      | error e => exact ⟨h₂, hmono, by rintro _ ⟨⟩⟩
      | ok fd =>
        obtain ⟨hfree, x, hx, hwalk'⟩ := hnext.handle fd rfl
        have hfd : ∀ {f y}, m.fd f = some y → fd ≠ f := by
          rintro f y hf rfl
          cases hfree.symm.trans hf
        refine (ih h₂ ((hother fd (hfd hdir)).trans hx) (htree ▸ hwalk')
          (fun _ => hfd h.fd_root) fun s hs hpre => ?_).mono ?_
        · rw [append_assoc]
          exact hways _ (cons_ne_nil _ _) (cons_prefix_cons.mpr ⟨rfl, hpre⟩)
        · rintro res m' ⟨h', hmono', hopened⟩
          refine ⟨h', fun hp => hmono' (hmono hp), fun opened hres => ?_⟩
          obtain ⟨hne', y, hy, hwalk''⟩ := hopened opened hres
          rw [append_assoc] at hwalk''
          exact ⟨hne', y, hy, hwalk''⟩

theorem openSecurePath_safe (h : OnWays ways root r m)
    (hways : ∀ s, s ≠ [] → s <+: comps → s ∈ ways) :
    (openSecurePath root comps).Clear faults m fun res m' => OnWays ways root r m' ∧
        (∀ {p e}, m.tree.walk r p = some e → m'.tree.walk r p = some e) ∧
        ∀ opened, res = .ok opened → (opened.2 = true → opened.1 ≠ root) ∧
          ∃ x, m'.fd opened.1 = some x ∧ m'.tree.walk r comps = some x := by
  have hroot : m.tree.walk r [] = some r := rfl
  exact openSecureFrom_safe h h.fd_root hroot nofun hways

/-- **The directory pass.** -/
theorem restoreSkeleton_safe : ∀ {m : Machine},
    OnWays ways root r m →
    (∀ key ∈ keys, key ≠ [] → ∀ comps, safeRestoreComponents cfg.cwd cfg.targetDir key = .ok comps →
      comps = pathSegs key ∧ ∀ s, s ≠ [] → s <+: comps → s ∈ ways) →
    (restoreSkeleton cfg root keys).Clear faults m fun res m' =>
      OnWays ways root r m' ∧
      (∀ {p e}, m.tree.walk r p = some e → m'.tree.walk r p = some e) ∧
      (res = .ok () → ∀ key ∈ keys, ∃ e, m'.tree.walk r (pathSegs key) = some e) := by
  induction keys with
  | nil => exact fun h _ => ⟨h, id, fun _ key hkey => absurd hkey not_mem_nil⟩
  | cons key rest ih =>
    intro m h hkeys
    obtain ⟨hkey, hrest⟩ := forall_mem_cons.mp hkeys
    unfold restoreSkeleton
    split
    · rename_i hnil
      refine (ih h hrest).mono ?_
      rintro res m' ⟨h', hmono, hall⟩
      refine ⟨h', hmono, fun hok => ?_⟩
      exact forall_mem_cons.mpr ⟨⟨r, by rw [pathSegs_eq_nil.mpr hnil]; rfl⟩, hall hok⟩
    · rename_i hne
      cases hcomps : safeRestoreComponents cfg.cwd cfg.targetDir key with
      | error e => exact ⟨h, id, by rintro ⟨⟩⟩
      | ok comps =>
        obtain ⟨rfl, hways⟩ := hkey hne comps hcomps
        refine safe_bind (openSecurePath_safe h hways) ?_
        rintro res m₁ ⟨h₁, hmono₁, hopened⟩
        cases res with
        | error e => exact ⟨h₁, hmono₁, by rintro ⟨⟩⟩
        | ok opened =>
          obtain ⟨hne', x, -, hx⟩ := hopened opened rfl
          refine safe_bind (closeOwned_safe h₁ hne') ?_
          rintro _ m₂ ⟨h₂, htree, -⟩
          refine (ih h₂ hrest).mono ?_
          rintro res m' ⟨h', hmono, hall⟩
          rw [htree] at hmono
          exact ⟨h', fun hp => hmono (hmono₁ hp), fun hok =>
            forall_mem_cons.mpr ⟨⟨x, hmono hx⟩, hall hok⟩⟩

/-! ## Files -/

/-- What is called for one file, once its directory is open. -/
def EntryCall (root dir : Nat) (name : Bytes) : RestoreCall → Prop
  | .dir (.stat dir' name') => dir' = dir ∧ name' = name
  | .dir (.rename dir' _ target) => dir' = dir ∧ target = name
  | .dir (.close fd) => fd ≠ root ∧ fd ≠ dir
  | .dir (.openRoot _) => False
  | .dir (.mkdirAll _) => False
  | .dir (.openDir _ _) => False
  | .dir (.mkdir _ _) => False
  | _ => True

/-- The staging file is in this directory, and has a descriptor of its own. -/
structure StagingIn (root dir : Nat) (st : SecureStaging) : Prop where
  dir_eq : st.dir = dir
  ne_root : st.file ≠ root
  ne_dir : st.file ≠ dir

section
variable {st : SecureStaging} (hst : StagingIn root dir st)
include hst

theorem calls_cleanup (closed : Bool) : (cleanup st closed).Calls (EntryCall root dir name) := by
  unfold cleanup
  split
  · exact calls_bind (sat_ask trivial) fun _ => trivial
  · exact calls_bind (sat_ask ⟨hst.ne_root, hst.ne_dir⟩) fun _ =>
      calls_bind (sat_ask trivial) fun _ => trivial

theorem calls_abandon {ε : Type} (closed : Bool) (e : ε) :
    (abandon st closed e : RestoreProg (Except ε α)).Calls (EntryCall root dir name) :=
  calls_bind (calls_cleanup hst closed) fun _ => trivial

theorem calls_commitStaging : (commitStaging st name).Calls (EntryCall root dir name) := by
  refine calls_ok (sat_ask ⟨hst.dir_eq, rfl⟩) (fun _ => calls_abandon hst _ _) fun _ => ?_
  exact calls_ok (sat_ask trivial) (fun _ => trivial) fun _ => trivial

theorem calls_finishStaging : (finishStaging st name).Calls (EntryCall root dir name) := by
  refine calls_ok (sat_ask trivial) (fun _ => calls_abandon hst _ _) fun _ => ?_
  exact calls_ok (sat_ask ⟨hst.ne_root, hst.ne_dir⟩) (fun _ => calls_abandon hst _ _)
    fun _ => calls_commitStaging hst

theorem calls_chmodAndFinish (mode : Nat) :
    (chmodAndFinish st mode name).Calls (EntryCall root dir name) :=
  calls_bind (sat_ask trivial) fun _ => calls_bind (calls_finishStaging hst) fun _ => trivial

end

section
variable (st : SecureStaging)

theorem calls_download (hash : Bytes) :
    (download P dec hash).Calls (EntryCall root dir name) := by
  exact calls_ok (sat_ask trivial) (fun _ => trivial) fun _ => trivial

theorem calls_writeStaging (data : Bytes) :
    (writeStaging st data).Calls (EntryCall root dir name) :=
  calls_bind (sat_ask trivial) fun _ => trivial

theorem calls_restoreChunkTo (hash : Bytes) :
    (restoreChunkTo P dec st hash).Calls (EntryCall root dir name) := by
  refine calls_bind (sat_ask trivial) fun got => ?_
  cases got with
  | error e =>
    exact calls_ok (calls_download hash) (fun _ => trivial) fun plaintext =>
      calls_writeStaging st plaintext
  | ok stream =>
    show Sat _ _ (if stream.broken.isSome then _ else _)
    split
    · exact trivial
    · cases decryptChunkBlobStream P dec stream.data hash with
      | error e => exact trivial
      | ok plaintext => exact calls_writeStaging st plaintext

theorem calls_restoreChunksTo (chunks : List ChunkRef) :
    (restoreChunksTo P dec st chunks).Calls (EntryCall root dir name) := by
  induction chunks with
  | nil => exact trivial
  | cons c cs ih =>
    refine calls_bind (sat_ask trivial) fun cancelled => ?_
    cases cancelled with
    | true => exact trivial
    | false =>
      exact calls_ok (calls_restoreChunkTo st c.hash) (fun _ => trivial) fun _ => ih

theorem calls_writePieces (pieces : List Bytes) :
    (writePieces st pieces).Calls (EntryCall root dir name) := by
  induction pieces with
  | nil => exact trivial
  | cons piece rest ih =>
    exact calls_ok (calls_writeStaging st piece) (fun _ => trivial) fun _ => ih

theorem calls_decryptTo (stream : BlobStream) :
    (decryptTo P dec sizes st stream).Calls (EntryCall root dir name) := by
  unfold decryptTo
  cases stream.broken with
  | some k =>
    exact calls_ok (calls_writePieces st _) (fun _ => trivial) fun _ => trivial
  | none =>
    refine calls_ok (calls_writePieces st _) (fun _ => trivial) fun _ => ?_
    dsimp only
    cases (decryptStreamToFile P dec stream.data []).err <;> exact trivial

end

/-- All ways are there, and the directory of a file is open. -/
structure Working (ways : Set (List Bytes)) (root r dir d : Nat) (path : List Bytes)
    (m : Machine) : Prop where
  layout : OnWays ways root r m
  laid : Laid ways r m
  fd_dir : m.fd dir = some d
  walk : m.tree.walk r path = some d

/-- **The work on a file changes no directory and closes none.** -/
theorem Working.step {c : RestoreCall} {res : c.Answer} (h : Working ways root r dir d path m)
    (hc : EntryCall root dir name c) (hout : RestoreCall.Outcome faults m c res m') :
    Working ways root r dir d path m' := by
  have hsame : ∀ {m' : Machine}, m' = m → Working ways root r dir d path m' := by
    rintro _ rfl
    exact h
  cases c with
  | get hash => exact hsame hout
  | getStream hash => exact hsame hout
  | cancelled => exact hsame hout
  | newUUID => exact hsame hout
  | dir c =>
    have hmakes : ¬ c.MakesDir := by
      cases c with
      | mkdirAll p => exact hc.elim
      | mkdir dir' name' => exact hc.elim
      | _ => exact id
    have hroot : c ≠ .close root := by
      rintro rfl
      exact hc.1 rfl
    have hdir : c ≠ .close dir := by
      rintro rfl
      exact hc.2 rfl
    have hdirs := DirCall.sameDirs_of_outcome hmakes hout
    obtain ⟨hlayout, hlaid⟩ := h.layout.sameDirs h.laid
      (DirCall.fd_of_outcome hroot hout h.layout.fd_root) hdirs
    exact ⟨hlayout, hlaid, DirCall.fd_of_outcome hdir hout h.fd_dir, hdirs.walk_iff.mpr h.walk⟩

/-- A place that is on no way is not taken by a directory. -/
theorem Working.unmet {c : RestoreCall} (h : Working ways root r dir d path m)
    (hplace : path ++ [name] ∉ ways) (hc : EntryCall root dir name c) : m.Unmet c := by
  have hfree : ∀ d' x, m.fd dir = some d' → m.tree.entry d' name = some x →
      m.tree.obj x ≠ some .dir := by
    intro d' x hd' hentry hx
    cases h.fd_dir.symm.trans hd'
    exact hplace (h.layout.walked (walk_child h.walk hentry hx) (by simp))
  cases c with
  | dir c =>
    cases c with
    | stat dir' name' =>
      obtain ⟨rfl, rfl⟩ := hc
      rintro ⟨d', x, hd', hentry, hx⟩
      exact hfree d' x hd' hentry hx
    | rename dir' source target =>
      obtain ⟨rfl, rfl⟩ := hc
      rintro ⟨d', x, hd', hentry, hx⟩
      exact hfree d' x hd' hentry hx
    | openDir dir' name' => exact hc.elim
    | mkdir dir' name' => exact hc.elim
    | _ => exact id
  | _ => exact trivial

section
variable (hplace : path ++ [name] ∉ ways)
include hplace

section
variable (h : Working ways root r dir d path m)
include h

theorem Working.safe {p : RestoreProg α} (hp : p.Calls (EntryCall root dir name)) :
    p.Clear faults m fun _ m' =>
      Working ways root r dir d path m' :=
  safe_of_calls hp (fun h' hc => h'.unmet hplace hc) (fun h' hc hout => h'.step hc hout) h

/-- A staging file is created, and something is done with it. -/
theorem createStaging_safe {k : Except SecureError SecureStaging → RestoreProg α}
    (herr : ∀ e, (k (.error e)).Calls (EntryCall root dir name))
    (hok : ∀ st, StagingIn root dir st → (k (.ok st)).Calls (EntryCall root dir name)) :
    (createStaging dir name >>= k).Clear faults m fun _ m' =>
      Working ways root r dir d path m' := by
  refine safe_ask trivial fun uuid m₁ hout₁ => ?_
  have h₁ := h.step (show EntryCall root dir name .newUUID from trivial) hout₁
  refine safe_ask id fun created m₂ hout₂ => ?_
  have h₂ := h₁.step (show EntryCall root dir name (.dir (.create dir _)) from trivial) hout₂
  cases created with
  | error e => exact h₂.safe hplace (herr _)
  | ok fd =>
    obtain ⟨d', hd, -, -, hfree, -⟩ := hout₂
    have hne : ∀ {f y}, m₁.fd f = some y → fd ≠ f := by
      rintro f y hf rfl
      cases hfree.symm.trans hf
    exact h₂.safe hplace (hok _ ⟨rfl, hne h₁.layout.fd_root, hne h₁.fd_dir⟩)

theorem writeAtomic_safe (data : Bytes) (mode : Nat) :
    (writeAtomic dir name data mode).Clear faults m
      fun _ m' => Working ways root r dir d path m' := by
  refine createStaging_safe hplace h (fun _ => trivial) fun st hst => ?_
  refine calls_ok (sat_ask trivial) (fun _ => calls_abandon hst _ _) fun _ => ?_
  exact calls_ok (sat_ask trivial) (fun _ => calls_abandon hst _ _) fun _ => calls_finishStaging hst

theorem restoreChunkedTo_safe (file : FileEntry) :
    (restoreChunkedTo P dec file dir name).Clear faults m
      fun _ m' => Working ways root r dir d path m' := by
  refine createStaging_safe hplace h (fun _ => trivial) fun st hst => ?_
  exact calls_ok (calls_restoreChunksTo st file.chunks) (fun _ => calls_abandon hst _ _)
    fun _ => calls_chmodAndFinish hst _

theorem downloadBlobTo_safe (hash : Bytes) (mode : Nat) (expectedSize : Int) :
    (downloadBlobTo P dec sizes hash dir name mode expectedSize).Clear faults m
      fun _ m' => Working ways root r dir d path m' := by
  refine safe_ask trivial fun got m₁ hout => ?_
  have h₁ := h.step (show EntryCall root dir name (.getStream hash) from trivial) hout
  cases got with
  | error e =>
    refine safe_bind (h₁.safe hplace (calls_download hash)) fun plain m₂ h₂ => ?_
    cases plain with
    | error e => exact h₂
    | ok plaintext =>
      show Safe _ _ (if (plaintext.length : Int) ≠ expectedSize then _ else _) _ _
      split
      · exact h₂
      · exact safe_bind (writeAtomic_safe hplace h₂ plaintext mode) fun _ _ h' => h'
  | ok stream =>
    refine createStaging_safe hplace h₁ (fun _ => trivial) fun st hst => ?_
    refine calls_bind (calls_decryptTo st stream) fun r => ?_
    cases r with
    | error e => exact calls_abandon hst _ _
    | ok written =>
      show Sat _ _ (if P.contentHash written ≠ hash then _ else if _ then _ else _)
      split
      · exact calls_abandon hst _ _
      · split
        · exact calls_abandon hst _ _
        · exact calls_chmodAndFinish hst _

theorem restoreContent_safe (file : FileEntry) :
    (restoreContent P dec sizes file dir name).Clear faults m
      fun _ m' => Working ways root r dir d path m' := by
  unfold restoreContent
  split
  · exact restoreChunkedTo_safe hplace h file
  · split
    · exact downloadBlobTo_safe hplace h _ _ _
    · refine safe_bind (h.safe hplace (calls_download _)) fun plain m₁ h₁ => ?_
      cases plain with
      | error e => exact h₁
      | ok plaintext => exact safe_bind (writeAtomic_safe hplace h₁ plaintext _) fun _ _ h' => h'

theorem restoreInto_safe (file : FileEntry) :
    (restoreInto P dec sizes file dir name).Clear faults m
      fun _ m' => Working ways root r dir d path m' := by
  refine safe_bind (restoreContent_safe hplace h file) fun res m₁ h₁ => ?_
  refine h₁.safe hplace ?_
  cases res with
  | error e => exact trivial
  | ok =>
    show Sat _ _ (if hasMtime file = true then _ else _)
    split
    · exact calls_bind (sat_ask trivial) fun _ => trivial
    · exact trivial

end

omit hplace in
theorem calls_existsIn (file : FileEntry) :
    (existsIn cfg file dir name).Calls (EntryCall root dir name) := by
  unfold existsIn
  split
  · exact trivial
  · refine calls_ok (sat_ask ⟨rfl, rfl⟩) (by rintro ⟨⟩ <;> trivial) fun ⟨⟩ => ?_
    exact trivial

theorem restoreAt_safe (h : OnWays ways root r m) (hlaid : Laid ways r m)
    (hways : ∀ s, s ≠ [] → s <+: path → s ∈ ways) (file : FileEntry) :
    (restoreAt P dec sizes cfg root file path name).Clear faults m fun _ m' =>
      OnWays ways root r m' ∧ Laid ways r m' := by
  refine safe_bind (openSecurePath_safe h hways) ?_
  rintro res m₁ ⟨h₁, hmono, hopened⟩
  have hlaid₁ : Laid ways r m₁ := fun q hq => (hlaid q hq).imp fun _ he => hmono he
  cases res with
  | error e => exact ⟨h₁, hlaid₁⟩
  | ok opened =>
    obtain ⟨hne, x, hx, hwalk⟩ := hopened opened rfl
    have hworking : Working ways root r opened.1 x path m₁ := ⟨h₁, hlaid₁, hx, hwalk⟩
    have hclose : ∀ {m' : Machine} (res : Except RunError Bool),
        Working ways root r opened.1 x path m' →
        (do closeOwned opened.1 opened.2; return res : RestoreProg _).Clear faults m' fun _ m'' =>
            OnWays ways root r m'' ∧ Laid ways r m'' := by
      intro m' res h'
      refine safe_bind (closeOwned_safe h'.layout hne) ?_
      rintro _ m'' ⟨h'', htree, -⟩
      exact ⟨h'', fun q hq => htree ▸ h'.laid q hq⟩
    refine safe_bind (hworking.safe hplace (calls_existsIn file)) fun present m₂ h₂ => ?_
    rcases present with e | _ | _
    · exact hclose _ h₂
    · exact safe_bind (restoreInto_safe hplace h₂ file) fun res _ h' => hclose res h'
    · exact hclose _ h₂

end

/-- The entry goes to a directory on a way, and to a place that is on none. -/
structure Placed (ways : Set (List Bytes)) (comps : List Bytes) : Prop where
  onWay : ∀ s, s ≠ [] → s <+: comps.dropLast → s ∈ ways
  place : comps ∉ ways

section

theorem restoreEntry_safe {file : FileEntry} (h : OnWays ways root r m) (hlaid : Laid ways r m)
    (hfile : ∀ comps, safeRestoreComponents cfg.cwd cfg.targetDir file.name = .ok comps →
      Placed ways comps) :
    (restoreEntry P dec sizes cfg root file).Clear faults m
      fun _ m' => OnWays ways root r m' ∧ Laid ways r m' := by
  unfold restoreEntry
  split
  · exact ⟨h, hlaid⟩
  · cases hcomps : safeRestoreComponents cfg.cwd cfg.targetDir file.name with
    | error e => exact ⟨h, hlaid⟩
    | ok comps =>
      dsimp only
      cases hlast : comps.getLast? with
      | none => exact ⟨h, hlaid⟩
      | some name =>
        have hplaced := hfile comps hcomps
        have hsplit : comps.dropLast ++ [name] = comps := dropLast_append_getLast? name hlast
        exact restoreAt_safe (hsplit.symm ▸ hplaced.place) h hlaid hplaced.onWay file

/-- **The file pass.** -/
theorem restoreFiles_safe
    (hfiles : ∀ file ∈ files, ∀ comps,
      safeRestoreComponents cfg.cwd cfg.targetDir file.name = .ok comps → Placed ways comps) :
    ∀ {m : Machine} {result : RestoreResult}, OnWays ways root r m → Laid ways r m →
      (restoreFiles P dec sizes cfg root files result).Clear faults m fun _ _ => True := by
  induction files with
  | nil => exact fun _ _ => trivial
  | cons file rest ih =>
    intro m result h hlaid
    obtain ⟨hfile, hrest⟩ := forall_mem_cons.mp hfiles
    refine safe_ask trivial fun cancelled m₁ hout => ?_
    obtain rfl : m₁ = m := hout
    cases cancelled with
    | true => exact trivial
    | false =>
      refine safe_bind (restoreEntry_safe h hlaid hfile) fun res m₂ h₂ => ?_
      cases res with
      | error e => exact trivial
      | ok restored => exact ih hrest h₂.1 h₂.2

/-- The ways to these keys. -/
def keyWays (keys : List Bytes) : Set (List Bytes) :=
  {p | p ≠ [] ∧ ∃ key ∈ keys, p <+: pathSegs key}

/-- **Both passes**, into an empty target. -/
theorem restoreBelow_safe (h : EmptyTarget root r m)
    (hkeys : ∀ key ∈ keys, key ≠ [] → ∀ comps,
      safeRestoreComponents cfg.cwd cfg.targetDir key = .ok comps → comps = pathSegs key)
    (hfiles : ∀ file ∈ files, ∀ comps,
      safeRestoreComponents cfg.cwd cfg.targetDir file.name = .ok comps →
        Placed (keyWays keys) comps) :
    (restoreBelow P dec sizes cfg root keys files).Clear faults m fun _ _ => True := by
  have hlayout : OnWays (keyWays keys) root r m := h.onWays
  refine safe_bind (restoreSkeleton_safe hlayout fun key hkey hne comps hcomps => ?_) ?_
  · have heq := hkeys key hkey hne comps hcomps
    exact ⟨heq, fun s hs hpre => ⟨hs, key, hkey, heq ▸ hpre⟩⟩
  · rintro res m₁ ⟨h₁, -, hall⟩
    cases res with
    | error e => exact trivial
    | ok =>
      refine restoreFiles_safe hfiles h₁ fun q hq => ?_
      obtain ⟨-, key, hkey, rest, hrest⟩ := hq
      obtain ⟨e, he⟩ := hall rfl key hkey
      rw [← hrest] at he
      obtain ⟨x, hx, -⟩ := walk_prefix he
      exact ⟨x, hx⟩

end

end

/-! ## Accepted manifests -/

section
variable {manifest : Manifest} (hm : manifest.Structured)
include hm

theorem pathName_of_key {key : Bytes} (hkey : manifest.HasDir key) :
    ∀ seg ∈ pathSegs key, PathName seg := by
  intro seg hseg
  obtain ⟨d, hd⟩ := ne_none_iff_exists'.mp hkey
  obtain ⟨_, -, hok⟩ := hm.dirs _ (lookupDir_eq_some.mp hd)
  rcases hok.key with rfl | ⟨-, hsegs⟩
  · cases hseg
  · unfold pathSegs at hseg
    split at hseg
    · cases hseg
    · exact ⟨(hsegs seg hseg).ne_nil, (hsegs seg hseg).dot⟩

theorem pathName_of_file {f : FileEntry} (hf : f ∈ manifest.allFiles) :
    ∀ seg ∈ pathSegs f.name, PathName seg := by
  obtain ⟨key, d, name, hd, -, hname, heq⟩ := dir_of_mem_allFiles hm hf
  rw [heq, pathSegs_childPath key hname]
  intro seg hseg
  rcases mem_append.mp hseg with hseg | hseg
  · exact pathName_of_key hm (hasDir_of_lookup hd) seg hseg
  · rw [mem_singleton.mp hseg]
    exact ⟨hname.ne_nil, hname.dot⟩

omit hm in
/-- What the sanitizer lets through it does not change. -/
theorem eq_pathSegs_of_components {relPath : Bytes} (hne : relPath ≠ [])
    (hnames : ∀ seg ∈ pathSegs relPath, PathName seg)
    (h : safeRestoreComponents cfg.cwd cfg.targetDir relPath = .ok comps) :
    comps = pathSegs relPath := by
  rw [pathSegs_of_ne hne] at hnames ⊢
  cases hstart : refusesStart relPath with
  | true => exact absurd h (safeRestoreComponents_refused cfg.cwd cfg.targetDir hstart comps)
  | false =>
    rw [safeRestoreComponents_of_accepted cfg.cwd cfg.targetDir hnames hstart] at h
    cases h
    rfl

/-- The files of a consistent manifest have places of their own. -/
theorem Manifest.Consistent.placed (hc : manifest.Consistent)
    (hkeys : ∀ key, key ∈ keys ↔ manifest.HasDir key) {f : FileEntry} (hf : f ∈ manifest.allFiles) :
    Placed (keyWays keys) (pathSegs f.name) := by
  constructor
  · obtain ⟨key, d, name, hd, -, hname, heq⟩ := dir_of_mem_allFiles hm hf
    rw [heq, pathSegs_childPath key hname, dropLast_concat]
    exact fun s hs hpre => ⟨hs, key, (hkeys key).mpr (hasDir_of_lookup hd), hpre⟩
  · rintro ⟨-, key, hkey, hpre⟩
    exact hc.not_prefix hm hf ((hkeys key).mp hkey) hpre

end

/-- In a restore into an empty target, whatever the order of the keys and files and whatever
fails, no call meets a directory where a file must go or the reverse. -/
def Manifest.NeverMeets (manifest : Manifest) : Prop :=
  ∀ (P : Primitives) (dec : Decryptor) (sizes : WriteSizes) (cfg : RestoreConfig)
    (faults : DirCall.Faults) (keys : List Bytes) (files : List FileEntry) (root r : Nat)
    (m : Machine), (∀ key, key ∈ keys ↔ manifest.HasDir key) → files.Perm manifest.allFiles →
    EmptyTarget root r m → ∀ (c : DirCall)
      (next : c.Answer → RestoreProg (Except RunError RestoreResult)) (m' : Machine),
      Reaches (RestoreCall.Outcome faults) (restoreBelow P dec sizes cfg root keys files) m
        (call (.dir c) next) m' → ¬ m'.Meets c

/-- **The accepted manifests that describe a tree**, and that a restore lays out without
meeting a directory where a file must go. `ValidateStructure` checks neither condition. -/
theorem validated_tree_iff {manifest : Manifest} (hok : manifest.validateStructure = .ok ()) :
    manifest.IsTree ∧ manifest.NeverMeets ↔ manifest.Consistent := by
  have hm := validateStructure_ok_iff.mp hok
  refine ⟨fun h => (isTree_iff hm).mp h.1, fun hc => ⟨(isTree_iff hm).mpr hc, ?_⟩⟩
  intro P dec sizes cfg faults keys files root r m hkeys hfiles htarget c next m' hrun
  have hsafe : (restoreBelow P dec sizes cfg root keys files).Clear faults m fun _ _ => True := by
    refine restoreBelow_safe htarget (fun key hkey hne comps hcomps => ?_)
      fun file hfile comps hcomps => ?_
    · exact eq_pathSegs_of_components hne (pathName_of_key hm ((hkeys key).mp hkey)) hcomps
    · have hmem := hfiles.mem_iff.mp hfile
      rw [eq_pathSegs_of_components (name_ne_nil_of_mem_allFiles hm hmem)
        (pathName_of_file hm hmem) hcomps]
      exact hc.placed hm hkeys hmem
  exact hsafe.reaches hrun

/-- A file in a directory. -/
theorem validated_tree_file :
    (oneFileManifest (ascii "d/x")).validateStructure = .ok () ∧
    (oneFileManifest (ascii "d/x")).IsTree ∧ (oneFileManifest (ascii "d/x")).NeverMeets := by
  have hok : (oneFileManifest (ascii "d/x")).validateStructure = .ok () := by decide
  have hentries : ∀ {key d}, (oneFileManifest (ascii "d/x")).lookupDir key = some d →
      (key = [] ∧ d = some ⟨none, some [ascii "d"]⟩) ∨ key = ascii "d" ∧
        d = some ⟨some [⟨ascii "x", [], 0, [], 0o644, fileStatusNew, []⟩], none⟩ := by
    intro key d h
    have hmem := lookupDir_eq_some.mp h
    rw [show (oneFileManifest (ascii "d/x")).dirEntries =
      [([], some ⟨none, some [ascii "d"]⟩),
        (ascii "d", some ⟨some [⟨ascii "x", [], 0, [], 0o644, fileStatusNew, []⟩], none⟩)] by
        decide] at hmem
    simpa using hmem
  refine ⟨hok, (validated_tree_iff hok).mpr ⟨fun key hkey hne => ?_, fun key d hd f hf => ?_⟩⟩
  · obtain ⟨d, hd⟩ := ne_none_iff_exists'.mp hkey
    rcases hentries hd with ⟨rfl, -⟩ | ⟨rfl, -⟩
    · exact absurd rfl hne
    · exact ⟨[], ⟨none, some [ascii "d"]⟩, ascii "d", by decide, mem_cons_self, by decide⟩
  · rcases hentries hd with ⟨-, heq⟩ | ⟨-, heq⟩
    · cases heq
      cases hf
    · cases heq
      exact not_mem_nil

/-- An empty file. -/
def emptyEntry : FileEntry := ⟨ascii "a", samplePrimitives.contentHash [], 0, [], 0, [], []⟩

/-- A file `a` and a directory `a`. -/
def fileAndDir : Manifest := (Manifest.zero.addFile emptyEntry).setDir (ascii "a") .zero

/-- **A file and a directory of one path are accepted**, and the file pass finds the directory in
the place of the file. -/
theorem fileAndDir_meets :
    fileAndDir.validateStructure = .ok () ∧ fileAndDir.allFiles.map FileEntry.name = [ascii "a"] ∧
    fileAndDir.HasDir (ascii "a") ∧ ¬ fileAndDir.IsTree ∧
    ∃ next m, Reaches (RestoreCall.Outcome ⟨False, False⟩)
      (restoreBelow samplePrimitives (newDecryptor sampleKey 0) wholeWrites sampleRestore 3
        [[], ascii "a"] fileAndDir.allFiles) openedMachine
      (call (.dir (.stat 3 (ascii "a"))) next) m ∧ m.Meets (.stat 3 (ascii "a")) := by
  have hdir : fileAndDir.HasDir (ascii "a") := isSome_iff_ne_none.mp (by decide)
  have hfiles : fileAndDir.allFiles = [emptyEntry] := by decide
  refine ⟨by decide, by decide, hdir, fun htree => ?_, ?_⟩
  · refine htree.notKey emptyEntry ?_ _ hdir (by decide) rfl
    rw [hfiles]
    exact mem_cons_self
  · have habsent : RestoreCall.Outcome ⟨False, False⟩ openedMachine
        (.dir (.openDir 3 (ascii "a"))) (.error .notExist) openedMachine :=
      ⟨rfl, .inr ⟨0, rfl, rfl⟩⟩
    rw [hfiles]
    apply Exists.intro
    apply Exists.intro
    apply And.intro
    · apply Reaches.step habsent
      apply Reaches.step (c := RestoreCall.dir (.mkdir 3 (ascii "a"))) (r := Except.ok ())
        ⟨0, rfl, rfl, rfl, rfl⟩
      apply Reaches.step (c := RestoreCall.dir (.openDir 3 (ascii "a"))) (r := Except.ok 4)
        ⟨0, 1, rfl, rfl, rfl, rfl, rfl⟩
      apply Reaches.step (c := RestoreCall.dir (.close 4)) (r := Except.ok ()) rfl
      apply Reaches.step (c := RestoreCall.cancelled) (r := false) rfl
      exact .refl _ _
    · exact ⟨0, 1, rfl, rfl, rfl⟩

end GbfCore
