import GbfCore.Pipeline.RestoreRun

/-!
# How a restore uses its handles

What a restore knows at each of its calls, whatever the file system and the store have
answered so far: the path of every directory it has open, and its staging file with what
was written to it. `restoreRun_guard` says that it acts only in directories it has open, on
single names, that it writes to its own staging file only, and that it renames this file
only when it holds the full verified content of the entry that belongs to the name.
-/

namespace GbfCore

open Function List Prog

variable {fd fd' : Nat} {comps : List Bytes} {isOpen : Bool} {data hash out : Bytes}
  {P : Primitives} {dec : Decryptor} {sizes : WriteSizes} {root dir : Nat} {owned : Bool}
  {path : List Bytes} {name : Bytes} {files : List FileEntry} {root : Nat} {cfg : RestoreConfig}
variable {file : FileEntry}

/-- One element of a path that is neither `.` nor `..`. -/
structure SingleName (name : Bytes) : Prop where
  pathName : PathName name
  slash : slash ∉ name

/-- What is known of a staging file. -/
structure StagedFile where
  dir : Nat
  name : Bytes
  /-- its descriptor, while it is open -/
  file : Option Nat
  /-- its content, unless a write failed -/
  written : Option Bytes

/-- What a restore knows. -/
structure RestoreGhost where
  /-- The open directories, with their paths below the target. -/
  dirs : Nat → Option (List Bytes)
  staging : Option StagedFile
  /-- The target was opened. -/
  rooted : Bool

namespace RestoreGhost

/-- Nothing is open. -/
def init : RestoreGhost := ⟨fun _ => none, none, false⟩

variable (g : RestoreGhost)

/-- Not one of the open descriptors. -/
def Free (fd : Nat) : Prop := g.dirs fd = none ∧ ∀ st, g.staging = some st → st.file ≠ some fd

/-- A directory was opened. -/
def openDir (fd : Nat) (path : List Bytes) : RestoreGhost :=
  { g with dirs := update g.dirs fd (some path) }

/-- A descriptor was closed. -/
def close (fd : Nat) : RestoreGhost :=
  { g with
    dirs := update g.dirs fd none
    staging := g.staging.map fun st => if st.file = some fd then { st with file := none } else st }

/-- Bytes were written, or a write failed. -/
def write (data : Option Bytes) : RestoreGhost :=
  { g with staging := g.staging.map fun st =>
      { st with written := st.written.bind fun b => data.map (b ++ ·) } }

end RestoreGhost

section
variable (Good : (path : List Bytes) → (content : Bytes) → Prop)

/-- When a call to the file system is in order. -/
def DirCall.InOrder (g : RestoreGhost) : DirCall → Prop
  | openRoot _ => g = .init
  | mkdirAll _ => g = .init
  | openDir dir name => (g.dirs dir).isSome ∧ SingleName name
  | mkdir dir name => (g.dirs dir).isSome ∧ SingleName name
  | stat dir name => (g.dirs dir).isSome ∧ SingleName name
  | utimes dir name => (g.dirs dir).isSome ∧ SingleName name
  | create dir name => (g.dirs dir).isSome ∧ SingleName name ∧ g.staging = none
  | write file _ => ∃ st, g.staging = some st ∧ st.file = some file
  | chmod file _ => ∃ st, g.staging = some st ∧ st.file = some file
  | rename dir source target => ∃ st path content, g.staging = some st ∧ st.dir = dir ∧
      st.name = source ∧ SingleName source ∧ SingleName target ∧ source ≠ target ∧ st.file = none ∧
      g.dirs dir = some path ∧ st.written = some content ∧ Good (path ++ [target]) content
  | unlink dir name => ∃ st, g.staging = some st ∧ st.dir = dir ∧ st.name = name ∧
      SingleName name ∧ st.file = none ∧ (g.dirs dir).isSome
  | sync _ => True
  | close fd => (∀ st, g.staging = some st → st.dir ≠ fd)

/-- The descriptors a restore is given are not in use. -/
def DirCall.Admits (g : RestoreGhost) : (c : DirCall) → c.Answer → Prop
  | openRoot _, .ok fd => g.Free fd
  | openDir _ _, .ok fd => g.Free fd
  | create _ _, .ok fd => g.Free fd
  | _, _ => True

/-- What is known after a call. -/
def DirCall.after (g : RestoreGhost) : (c : DirCall) → c.Answer → RestoreGhost
  | openRoot _, .ok fd => { g.openDir fd [] with rooted := true }
  | openDir dir name, .ok fd => g.openDir fd ((g.dirs dir).getD [] ++ [name])
  | create dir name, .ok fd => { g with staging := some ⟨dir, name, some fd, some []⟩ }
  | write _ data, .ok () => g.write (some data)
  | write _ _, .error _ => g.write none
  | close fd, _ => g.close fd
  | rename _ _ _, .ok () => { g with staging := none }
  | unlink _ _, _ => { g with staging := none }
  | _, _ => g

/-- The protocol of a restore. -/
def restoreProtocol : Protocol RestoreCall RestoreCall.Answer RestoreGhost where
  pre g
    | .dir c => c.InOrder Good g
    | _ => True
  admits g
    | .dir c => c.Admits g
    | .get _ => fun _ => True
    | .getStream _ => fun _ => True
    | .cancelled => fun _ => True
    | .newUUID => fun _ => True
  next g
    | .dir c => c.after g
    | .get _ => fun _ => g
    | .getStream _ => fun _ => g
    | .cancelled => fun _ => g
    | .newUUID => fun _ => g

/-- The program keeps to the protocol. -/
abbrev Prog.InTurn {α : Type} (p : RestoreProg α) (g : RestoreGhost)
    (Q : α → RestoreGhost → Prop) : Prop := p.Guard (restoreProtocol Good) g Q

variable {Good}

/-! ## Directories -/

section
variable {g : RestoreGhost}

theorem RestoreGhost.Free.ne {path : List Bytes} (h : g.Free fd) (hpath : g.dirs fd' = some path) :
    fd' ≠ fd := by
  rintro rfl
  rw [h.1] at hpath
  cases hpath

theorem dirs_openDir_self (fd : Nat) (path : List Bytes) :
    (g.openDir fd path).dirs fd = some path := update_self ..

theorem dirs_openDir_of_some {path path' : List Bytes} (hfree : g.Free fd)
    (h : g.dirs fd' = some path') : (g.openDir fd path).dirs fd' = some path' :=
  (update_of_ne (hfree.ne h) _ _).trans h

theorem dirs_close_of_ne (h : fd' ≠ fd) : (g.close fd).dirs fd' = g.dirs fd' :=
  update_of_ne h _ _

/-- A new handle, next to the old ones. -/
def Gained (g : RestoreGhost) (path : List Bytes) (fd : Nat) (g' : RestoreGhost) : Prop :=
  g.Free fd ∧ g' = g.openDir fd path

section
variable (hdir : g.dirs dir = some path) (hname : SingleName name)
include hdir hname

theorem childRetry_guard : (childRetry dir name).InTurn Good g fun r g' =>
    match r with
    | .ok fd => Gained g (path ++ [name]) fd g'
    | .error _ => g' = g := by
  refine guard_ask ⟨by rw [hdir]; rfl, hname⟩ fun r hr => ?_
  cases r with
  | error e => exact rfl
  | ok fd =>
    refine ⟨hr, ?_⟩
    show g.openDir fd ((g.dirs dir).getD [] ++ [name]) = _
    rw [hdir]
    rfl

theorem child_guard : (child dir name).InTurn Good g fun r g' =>
    match r with
    | .ok fd => Gained g (path ++ [name]) fd g'
    | .error _ => g' = g := by
  have hpre : (g.dirs dir).isSome ∧ SingleName name := ⟨by rw [hdir]; rfl, hname⟩
  refine guard_ask hpre fun r hr => ?_
  cases r with
  | ok fd =>
    refine ⟨hr, ?_⟩
    show g.openDir fd ((g.dirs dir).getD [] ++ [name]) = _
    rw [hdir]
    rfl
  | error e =>
    cases e with
    | notExist =>
      refine guard_ask hpre fun made _ => ?_
      rcases made with e | ⟨⟩
      · cases e with
        | exist => exact childRetry_guard hdir hname
        | _ => exact rfl
      · exact childRetry_guard hdir hname
    | _ => exact rfl

end

/-- The root is open, and no staging file is there. -/
structure Idle (root : Nat) (g : RestoreGhost) : Prop where
  root_eq : g.dirs root = some []
  staging_eq : g.staging = none

/-- A directory below the root is open too. -/
structure Opened (root dir : Nat) (owned : Bool) (path : List Bytes) (g : RestoreGhost) : Prop
    extends Idle root g where
  dir_eq : g.dirs dir = some path
  ne : owned = true → dir ≠ root

theorem closeOwned_guard {dir : Nat} {owned : Bool} {g : RestoreGhost} (h : Idle root g)
    (hne : owned = true → dir ≠ root) :
    (closeOwned dir owned).InTurn Good g fun _ g' =>
      Idle root g' ∧ ∀ fd, fd ≠ dir → g'.dirs fd = g.dirs fd := by
  unfold closeOwned
  split
  · rename_i howned
    refine guard_ask (fun st hst => ?_) fun r _ => ?_
    · rw [h.staging_eq] at hst
      cases hst
    · refine ⟨⟨?_, ?_⟩, fun fd hfd => dirs_close_of_ne hfd⟩
      · exact (dirs_close_of_ne (hne howned).symm).trans h.root_eq
      · show g.staging.map _ = none
        rw [h.staging_eq]
        rfl
  · exact ⟨h, fun _ _ => rfl⟩

theorem openSecureFrom_guard :
    ∀ {dir : Nat} {owned : Bool} {path : List Bytes} {g : RestoreGhost},
      (∀ c ∈ comps, SingleName c) → Opened root dir owned path g →
      (openSecureFrom dir owned comps).InTurn Good g fun r g' =>
        match r with
        | .ok opened => Opened root opened.1 opened.2 (path ++ comps) g'
        | .error _ => Idle root g' := by
  induction comps with
  | nil =>
    intro dir owned path g _ h
    show Opened root dir owned (path ++ []) g
    rw [append_nil]
    exact h
  | cons name rest ih =>
    intro dir owned path g hcomps h
    have hname := hcomps name mem_cons_self
    rw [openSecureFrom, if_neg]
    · refine guard_bind (child_guard h.dir_eq hname) fun next g₁ hnext => ?_
      cases next with
      | error e =>
        cases hnext
        exact guard_bind (closeOwned_guard h.toIdle h.ne) fun _ g₂ h₂ => h₂.1
      | ok fd =>
        obtain ⟨hfree, rfl⟩ := hnext
        have hidle : Idle root (g.openDir fd (path ++ [name])) :=
          ⟨dirs_openDir_of_some hfree h.root_eq, h.staging_eq⟩
        refine guard_bind (closeOwned_guard hidle h.ne) fun _ g₂ h₂ => ?_
        obtain ⟨hidle₂, hkeep⟩ := h₂
        have hfd : g₂.dirs fd = some (path ++ [name]) :=
          (hkeep fd (hfree.ne h.dir_eq).symm).trans (dirs_openDir_self fd _)
        have hopened : Opened root fd true (path ++ [name]) g₂ :=
          ⟨hidle₂, hfd, fun _ => (hfree.ne h.root_eq).symm⟩
        refine (ih (fun c hc => hcomps c (mem_cons_of_mem name hc)) hopened).mono
          fun r g' hr => ?_
        rw [append_assoc] at hr
        exact hr
    · -- the names are single names
      rintro (hnil | hdot)
      · exact hname.pathName.ne_nil hnil
      · rw [hname.pathName.not_dot] at hdot
        cases hdot

theorem openSecurePath_guard {g : RestoreGhost} (hcomps : ∀ c ∈ comps, SingleName c)
    (h : Idle root g) :
    (openSecurePath root comps).InTurn Good g fun r g' =>
      match r with
      | .ok opened => Opened root opened.1 opened.2 comps g'
      | .error _ => Idle root g' := by
  have hopened : Opened root root false [] g := ⟨h, h.root_eq, fun howned => nomatch howned⟩
  exact openSecureFrom_guard hcomps hopened

/-! ## The staging file -/

theorem SingleName.stagingName {name : Bytes} (h : SingleName name) (uuid : Uuid) :
    SingleName (stagingName name uuid) := by
  constructor
  · refine pathName_of_mem (b := 0x74) (mem_append_right _ ?_) (by decide)
    decide
  · intro hmem
    simp only [GbfCore.stagingName, mem_append] at hmem
    rcases hmem with ((hmem | hmem) | hmem) | hmem
    · exact h.slash hmem
    · exact absurd hmem (by decide)
    · exact uuid.slash hmem
    · exact absurd hmem (by decide)

theorem stagingName_ne (name : Bytes) (uuid : Uuid) : GbfCore.stagingName name uuid ≠ name := by
  intro heq
  have hlength := congrArg List.length heq
  simp only [GbfCore.stagingName, length_append, show (ascii ".").length = 1 from rfl] at hlength
  omega

/-- A staging file is there, open or closed, with this content if it is known. -/
structure Writing (root dir : Nat) (owned : Bool) (path : List Bytes) (name : Bytes)
    (st : SecureStaging) (isOpen : Bool) (content : Option Bytes) (g : RestoreGhost) : Prop where
  root_eq : g.dirs root = some []
  dir_eq : g.dirs dir = some path
  ne : owned = true → dir ≠ root
  dir_st : st.dir = dir
  single : SingleName st.name
  ne_name : st.name ≠ name
  staging_eq : g.staging = some ⟨dir, st.name, if isOpen then some st.file else none, content⟩
  file_ne_root : st.file ≠ root
  file_ne_dir : st.file ≠ dir

section
variable {st : SecureStaging}

theorem createStaging_guard (hname : SingleName name)
    (h : Opened root dir owned path g) :
    (createStaging dir name).InTurn Good g fun r g' =>
      match r with
      | .ok st => Writing root dir owned path name st true (some []) g'
      | .error _ => g' = g := by
  refine guard_ask trivial fun uuid _ => ?_
  have hpre : (g.dirs dir).isSome ∧ SingleName (stagingName name uuid) ∧ g.staging = none :=
    ⟨by rw [h.dir_eq]; rfl, hname.stagingName uuid, h.staging_eq⟩
  refine guard_ask hpre fun r hr => ?_
  cases r with
  | error e => exact rfl
  | ok fd =>
    exact ⟨h.root_eq, h.dir_eq, h.ne, rfl, hname.stagingName uuid, stagingName_ne name uuid, rfl,
      ((hr : g.Free fd).ne h.root_eq).symm, ((hr : g.Free fd).ne h.dir_eq).symm⟩

section
variable {content : Option Bytes}

/-- The file is closed. -/
theorem Writing.close (h : Writing root dir owned path name st true content g) :
    Writing root dir owned path name st false content (g.close st.file) where
  root_eq := (dirs_close_of_ne h.file_ne_root.symm).trans h.root_eq
  dir_eq := (dirs_close_of_ne h.file_ne_dir.symm).trans h.dir_eq
  ne := h.ne
  dir_st := h.dir_st
  single := h.single
  ne_name := h.ne_name
  staging_eq := by
    show g.staging.map _ = _
    rw [h.staging_eq]
    simp
  file_ne_root := h.file_ne_root
  file_ne_dir := h.file_ne_dir

theorem Writing.close_pre (h : Writing root dir owned path name st isOpen content g) :
    ∀ st', g.staging = some st' → st'.dir ≠ st.file := by
  intro st' hst'
  rw [h.staging_eq] at hst'
  cases hst'
  exact h.file_ne_dir.symm

/-- The staging file is gone, or given up. -/
theorem Writing.opened (h : Writing root dir owned path name st isOpen content g) :
    Opened root dir owned path { g with staging := none } :=
  ⟨⟨h.root_eq, rfl⟩, h.dir_eq, h.ne⟩

theorem unlink_guard {α : Type} {a : α} (h : Writing root dir owned path name st false content g) :
    (do let _ ← askDir (.unlink st.dir st.name); return a : RestoreProg α).InTurn Good g
      fun b g' => b = a ∧ Opened root dir owned path g' := by
  have hpre : (DirCall.unlink st.dir st.name).InOrder Good g :=
    ⟨_, h.staging_eq, h.dir_st.symm, rfl, h.single, rfl, by rw [h.dir_st, h.dir_eq]; rfl⟩
  refine guard_ask hpre fun r _ => ?_
  cases r with
  | ok => exact ⟨rfl, h.opened⟩
  | error e => exact ⟨rfl, h.opened⟩

theorem cleanup_guard (h : Writing root dir owned path name st isOpen content g) :
    (cleanup st (!isOpen)).InTurn Good g fun _ g' =>
      Opened root dir owned path g' := by
  cases isOpen with
  | false => exact (unlink_guard h).mono fun _ _ h' => h'.2
  | true => exact guard_ask h.close_pre fun r _ => (unlink_guard h.close).mono fun _ _ h' => h'.2

theorem abandon_guard {ε α : Type} {e : ε}
    (h : Writing root dir owned path name st isOpen content g) :
    (abandon st (!isOpen) e : RestoreProg (Except ε α)).InTurn Good g
      fun _ g' => Opened root dir owned path g' :=
  guard_bind (cleanup_guard h) fun _ _ h' => h'

end

section
variable {content : Bytes} (hname : SingleName name) (hgood : Good (path ++ [name]) content)
include hname hgood

/-- **A rename takes place only with the full content.** -/
theorem commitStaging_guard (h : Writing root dir owned path name st false (some content) g) :
    (commitStaging st name).InTurn Good g fun _ g' =>
      Opened root dir owned path g' := by
  have hpre : (DirCall.rename st.dir st.name name).InOrder Good g :=
    ⟨_, path, content, h.staging_eq, h.dir_st.symm, rfl, h.single, hname, h.ne_name, rfl,
      h.dir_st ▸ h.dir_eq, rfl, hgood⟩
  refine guard_ask hpre fun r _ => ?_
  cases r with
  | error e => exact abandon_guard h
  | ok =>
    refine guard_ask trivial fun r _ => ?_
    cases r with
    | error e => exact h.opened
    | ok => exact h.opened

theorem finishStaging_guard (h : Writing root dir owned path name st true (some content) g) :
    (finishStaging st name).InTurn Good g fun _ g' =>
      Opened root dir owned path g' := by
  refine guard_ask trivial fun r _ => ?_
  cases r with
  | error e => exact abandon_guard h
  | ok =>
    refine guard_ask h.close_pre fun r _ => ?_
    cases r with
    | error e => exact abandon_guard h.close
    | ok => exact commitStaging_guard hname hgood h.close

theorem chmodAndFinish_guard (mode : Nat)
    (h : Writing root dir owned path name st true (some content) g) :
    (chmodAndFinish st mode name).InTurn Good g fun _ g' =>
      Opened root dir owned path g' :=
  guard_ask ⟨_, h.staging_eq, rfl⟩ fun _ _ =>
    guard_bind (finishStaging_guard hname hgood h) fun _ _ h' => h'

end

/-- A write that succeeded, or one that did not. -/
theorem write_guard {content : Option Bytes} {α : Type} {f : Except DirError Unit → RestoreProg α}
    {Q : α → RestoreGhost → Prop} (h : Writing root dir owned path name st true content g)
    (hok : ∀ g', Writing root dir owned path name st true (content.map (· ++ data)) g' →
      (f (.ok ())).InTurn Good g' Q)
    (herr : ∀ e g', Writing root dir owned path name st true none g' →
      (f (.error e)).InTurn Good g' Q) :
    (askDir (.write st.file data) >>= f).InTurn Good g Q := by
  refine guard_ask ⟨_, h.staging_eq, rfl⟩ fun r _ => ?_
  have hstaging : ∀ written : Option Bytes, Writing root dir owned path name st true
      (content.bind fun b => written.map (b ++ ·)) (g.write written) := by
    intro written
    refine ⟨h.root_eq, h.dir_eq, h.ne, h.dir_st, h.single, h.ne_name, ?_, h.file_ne_root,
      h.file_ne_dir⟩
    show g.staging.map _ = _
    rw [h.staging_eq]
    rfl
  cases r with
  | ok =>
    refine hok _ ?_
    have := hstaging (some data)
    cases content <;> exact this
  | error e =>
    refine herr e _ ?_
    have := hstaging none
    cases content <;> exact this

theorem writeAtomic_guard (mode : Nat) (hname : SingleName name)
    (hgood : Good (path ++ [name]) data) (h : Opened root dir owned path g) :
    (writeAtomic dir name data mode).InTurn Good g fun _ g' =>
      Opened root dir owned path g' := by
  refine guard_bind (createStaging_guard hname h) fun r g₁ hr => ?_
  cases r with
  | error e =>
    cases hr
    exact h
  | ok st =>
    refine write_guard hr (fun g₂ h₂ => ?_) (fun e g₂ h₂ => abandon_guard h₂)
    refine guard_ask ⟨_, h₂.staging_eq, rfl⟩ fun r _ => ?_
    cases r with
    | error e => exact abandon_guard h₂
    | ok => exact finishStaging_guard hname hgood h₂

/-! ## The content of a file -/

theorem contentHash_of_verifiedPlaintext {failed : RestoreError} {plaintext : Bytes}
    (h : verifiedPlaintext P failed hash plaintext = .ok out) : P.contentHash out = hash := by
  unfold verifiedPlaintext at h
  split at h
  · cases h
  · split at h
    · cases h
    · rename_i heq
      cases h
      exact not_not.mp heq

theorem contentHash_of_downloadBlob {s : Blobs} (h : downloadBlob P dec s hash = .ok out) :
    P.contentHash out = hash := by
  unfold downloadBlob at h
  split at h
  · cases h
  · split at h
    · cases h
    · exact contentHash_of_verifiedPlaintext h

theorem contentHash_of_decryptChunkBlobStream (h : decryptChunkBlobStream P dec data hash = .ok out) :
    P.contentHash out = hash := by
  unfold decryptChunkBlobStream at h
  split at h
  · cases h
  · split at h
    · cases h
    · exact contentHash_of_verifiedPlaintext h

theorem download_guard (hash : Bytes) :
    (download P dec hash).InTurn Good g fun r g' =>
      g' = g ∧ ∀ out, r = .ok out → P.contentHash out = hash := by
  refine guard_ask trivial fun r _ => ?_
  cases r with
  | error e => exact ⟨rfl, fun _ h => nomatch h⟩
  | ok ciphertext =>
    refine ⟨rfl, fun out hout => ?_⟩
    exact contentHash_of_downloadBlob (mapError_eq_ok.mp hout)

theorem writeStaging_guard {b : Bytes} (data : Bytes)
    (h : Writing root dir owned path name st true (some b) g) :
    (writeStaging st data).InTurn Good g fun r g' =>
      match r with
      | .ok () => Writing root dir owned path name st true (some (b ++ data)) g'
      | .error _ => Writing root dir owned path name st true none g' :=
  write_guard h (fun _ h' => h') (fun _ _ h' => h')

theorem restoreChunkTo_guard {b : Bytes} (hash : Bytes)
    (h : Writing root dir owned path name st true (some b) g) :
    (restoreChunkTo P dec st hash).InTurn Good g fun r g' =>
      match r with
      | .ok () => ∃ p, P.contentHash p = hash ∧
          Writing root dir owned path name st true (some (b ++ p)) g'
      | .error _ => ∃ content, Writing root dir owned path name st true content g' := by
  -- a plaintext that was verified is written
  have hwrite : ∀ plaintext, P.contentHash plaintext = hash →
      (writeStaging st plaintext).InTurn Good g fun r g' =>
        match r with
        | .ok () => ∃ p, P.contentHash p = hash ∧
            Writing root dir owned path name st true (some (b ++ p)) g'
        | .error _ => ∃ content, Writing root dir owned path name st true content g' := by
    intro plaintext hplain
    refine (writeStaging_guard plaintext h).mono fun r g' hr => ?_
    cases r with
    | ok => exact ⟨plaintext, hplain, hr⟩
    | error e => exact ⟨none, hr⟩
  refine guard_ask trivial fun stream _ => ?_
  cases stream with
  | error e =>
    refine guard_bind (download_guard hash) fun r g' hr => ?_
    obtain ⟨rfl, hhash⟩ := hr
    cases r with
    | error e => exact ⟨_, h⟩
    | ok plaintext => exact hwrite plaintext (hhash plaintext rfl)
  | ok stream =>
    show Guard _ (if stream.broken.isSome then _ else _) _ _
    split
    · exact ⟨_, h⟩
    · cases hplain : decryptChunkBlobStream P dec stream.data hash with
      | error e => exact ⟨_, h⟩
      | ok plaintext => exact hwrite plaintext (contentHash_of_decryptChunkBlobStream hplain)

/-- **The loop writes one verified plaintext after another.** -/
theorem restoreChunksTo_guard (chunks : List ChunkRef) : ∀ {b : Bytes} {g : RestoreGhost},
    Writing root dir owned path name st true (some b) g →
    (restoreChunksTo P dec st chunks).InTurn Good g fun r g' =>
      match r with
      | .ok () => ∃ ps, List.Forall₂ (fun c p => P.contentHash p = ChunkRef.hash c) chunks ps ∧
          Writing root dir owned path name st true (some (b ++ ps.flatten)) g'
      | .error _ => ∃ content, Writing root dir owned path name st true content g' := by
  induction chunks with
  | nil =>
    intro b g h
    refine ⟨[], .nil, ?_⟩
    rw [flatten_nil, append_nil]
    exact h
  | cons c cs ih =>
    intro b g h
    refine guard_ask trivial fun cancelled _ => ?_
    cases cancelled with
    | true => exact ⟨_, h⟩
    | false =>
      refine guard_bind (restoreChunkTo_guard c.hash h) fun r g₁ hr => ?_
      cases r with
      | error e => exact hr
      | ok =>
        obtain ⟨p, hp, h₁⟩ := hr
        refine (ih h₁).mono fun r g₂ hr => ?_
        cases r with
        | error e => exact hr
        | ok =>
          obtain ⟨ps, hps, h₂⟩ := hr
          refine ⟨p :: ps, .cons hp hps, ?_⟩
          rw [flatten_cons, ← append_assoc]
          exact h₂

/-- The writes of the streaming decoder. -/
theorem writePieces_guard (pieces : List Bytes) : ∀ {b : Bytes} {g : RestoreGhost},
    Writing root dir owned path name st true (some b) g →
    (writePieces st pieces).InTurn Good g fun r g' =>
      match r with
      | .ok () => Writing root dir owned path name st true (some (b ++ pieces.flatten)) g'
      | .error _ => Writing root dir owned path name st true none g' := by
  induction pieces with
  | nil =>
    intro b g h
    show Writing root dir owned path name st true (some (b ++ [].flatten)) g
    rw [flatten_nil, append_nil]
    exact h
  | cons piece rest ih =>
    intro b g h
    refine guard_bind (writeStaging_guard piece h) fun r g₁ h₁ => ?_
    cases r with
    | error e => exact h₁
    | ok =>
      refine (ih h₁).mono fun r g₂ h₂ => ?_
      cases r with
      | error e => exact h₂
      | ok =>
        rw [append_assoc, ← flatten_cons] at h₂
        exact h₂

theorem decryptTo_guard {sizes : WriteSizes} (stream : BlobStream)
    (h : Writing root dir owned path name st true (some []) g) :
    (decryptTo P dec sizes st stream).InTurn Good g fun r g' =>
      match r with
      | .ok written => Writing root dir owned path name st true (some written) g'
      | .error _ => ∃ content, Writing root dir owned path name st true content g' := by
  unfold decryptTo
  cases stream.broken with
  | some k =>
    refine guard_bind (writePieces_guard _ h) fun r g' hr => ?_
    cases r with
    | error e => exact ⟨_, hr⟩
    | ok => exact ⟨_, hr⟩
  | none =>
    refine guard_bind (writePieces_guard _ h) fun r g' hr => ?_
    cases r with
    | error e => exact ⟨_, hr⟩
    | ok =>
      rw [sizes.flatten_cut, nil_append] at hr
      dsimp only
      cases (decryptStreamToFile P dec stream.data []).err with
      | some e => exact ⟨_, hr⟩
      | none => exact hr

end

/-! ## Entries -/

/-- **The full content of an entry**: for a chunked entry, plaintexts with the hashes of its
chunks one after the other, and otherwise one with its hash, of its size if that is the
size of a streamed file. -/
def Verified (P : Primitives) (e : FileEntry) (content : Bytes) : Prop :=
  if e.chunks ≠ [] then
    ∃ ps, List.Forall₂ (fun c p => P.contentHash p = ChunkRef.hash c) e.chunks ps ∧
      content = ps.flatten
  else P.contentHash content = e.contentHash ∧
    ((defaultChunkSize : Int) ≤ e.size → (content.length : Int) = e.size)

section
variable (hname : SingleName name)
include hname

theorem restoreChunkedTo_guard
    (hgood : ∀ ps, List.Forall₂ (fun c p => P.contentHash p = ChunkRef.hash c) file.chunks ps →
      Good (path ++ [name]) ps.flatten) (h : Opened root dir owned path g) :
    (restoreChunkedTo P dec file dir name).InTurn Good g fun _ g' =>
      Opened root dir owned path g' := by
  refine guard_bind (createStaging_guard hname h) fun r g₁ hr => ?_
  cases r with
  | error e =>
    cases hr
    exact h
  | ok st =>
    refine guard_bind (restoreChunksTo_guard file.chunks hr) fun r g₂ hr => ?_
    cases r with
    | error e =>
      obtain ⟨content, h₂⟩ := hr
      exact abandon_guard h₂
    | ok =>
      obtain ⟨ps, hps, h₂⟩ := hr
      exact chmodAndFinish_guard hname (hgood ps hps) file.mode h₂

theorem downloadBlobTo_guard {mode : Nat} {expectedSize : Int}
    (hgood : ∀ content, P.contentHash content = hash → (content.length : Int) = expectedSize →
      Good (path ++ [name]) content) (h : Opened root dir owned path g) :
    (downloadBlobTo P dec sizes hash dir name mode expectedSize).InTurn Good g
      fun _ g' => Opened root dir owned path g' := by
  refine guard_ask trivial fun stream _ => ?_
  cases stream with
  | error e =>
    refine guard_bind (download_guard hash) fun r g₁ hr => ?_
    obtain ⟨rfl, hhash⟩ := hr
    cases r with
    | error e => exact h
    | ok plaintext =>
      show Guard _ (if (plaintext.length : Int) ≠ expectedSize then _ else _) _ _
      split
      · exact h
      · rename_i hsize
        have hplain := hgood plaintext (hhash plaintext rfl) (not_not.mp hsize)
        exact guard_bind (writeAtomic_guard mode hname hplain h) fun _ _ h' => h'
  | ok stream =>
    refine guard_bind (createStaging_guard hname h) fun r g₁ hr => ?_
    cases r with
    | error e =>
      cases hr
      exact h
    | ok st =>
      refine guard_bind (decryptTo_guard stream hr) fun r g₂ hr => ?_
      cases r with
      | error e =>
        obtain ⟨content, h₂⟩ := hr
        exact abandon_guard h₂
      | ok written =>
        show Guard _ (if P.contentHash written ≠ hash then _ else if _ then _ else _) _ _
        split
        · exact abandon_guard hr
        · rename_i hhash
          split
          · exact abandon_guard hr
          · rename_i hsize
            exact chmodAndFinish_guard hname (hgood written (not_not.mp hhash) (not_not.mp hsize))
              mode hr

theorem restoreContent_guard
    (hgood : ∀ content, Verified P file content → Good (path ++ [name]) content)
    (h : Opened root dir owned path g) :
    (restoreContent P dec sizes file dir name).InTurn Good g fun _ g' =>
      Opened root dir owned path g' := by
  unfold restoreContent
  split
  · rename_i hchunks
    refine restoreChunkedTo_guard hname (fun ps hps => hgood _ ?_) h
    rw [Verified, if_pos hchunks]
    exact ⟨ps, hps, rfl⟩
  · rename_i hchunks
    split
    · refine downloadBlobTo_guard hname (fun content hhash hsize => hgood content ?_) h
      rw [Verified, if_neg hchunks]
      exact ⟨hhash, fun _ => hsize⟩
    · rename_i hsmall
      refine guard_bind (download_guard file.contentHash) fun r g₁ hr => ?_
      obtain ⟨rfl, hhash⟩ := hr
      cases r with
      | error e => exact h
      | ok plaintext =>
        have hplain : Verified P file plaintext := by
          rw [Verified, if_neg hchunks]
          exact ⟨hhash plaintext rfl, fun hlarge => absurd hlarge hsmall⟩
        exact guard_bind (writeAtomic_guard file.mode hname (hgood plaintext hplain) h)
          fun _ _ h' => h'

theorem restoreInto_guard
    (hgood : ∀ content, Verified P file content → Good (path ++ [name]) content)
    (h : Opened root dir owned path g) :
    (restoreInto P dec sizes file dir name).InTurn Good g fun _ g' =>
      Opened root dir owned path g' := by
  refine guard_bind (restoreContent_guard hname hgood h) fun r g₁ h₁ => ?_
  cases r with
  | error e => exact h₁
  | ok =>
    show Guard _ (if hasMtime file = true then _ else _) _ _
    split
    · exact guard_ask ⟨by rw [h₁.dir_eq]; rfl, hname⟩ fun _ _ => h₁
    · exact h₁

theorem existsIn_guard (h : Opened root dir owned path g) :
    (existsIn cfg file dir name).InTurn Good g fun _ g' => g' = g := by
  unfold existsIn
  split
  · exact rfl
  · refine guard_ask ⟨by rw [h.dir_eq]; rfl, hname⟩ fun r _ => ?_
    rcases r with e | ⟨⟩
    · cases e <;> exact rfl
    · exact rfl

theorem restoreAt_guard (hpath : ∀ c ∈ path, SingleName c)
    (hgood : ∀ content, Verified P file content → Good (path ++ [name]) content) (h : Idle root g) :
    (restoreAt P dec sizes cfg root file path name).InTurn Good g fun _ g' =>
      Idle root g' := by
  refine guard_bind (openSecurePath_guard hpath h) fun r g₁ hr => ?_
  cases r with
  | error e => exact hr
  | ok opened =>
    refine guard_bind (existsIn_guard hname hr) fun present g₂ hg₂ => ?_
    subst hg₂
    have hclose : ∀ {g' : RestoreGhost} (r : Except RunError Bool),
        Opened root opened.1 opened.2 path g' →
        (do closeOwned opened.1 opened.2; return r : RestoreProg _).InTurn Good g'
          fun _ g'' => Idle root g'' :=
      fun r h' => guard_bind (closeOwned_guard h'.toIdle h'.ne) fun _ _ h'' => h''.1
    rcases present with e | _ | _
    · exact hclose _ hr
    · exact guard_bind (restoreInto_guard hname hgood hr) fun r _ h' => hclose r h'
    · exact hclose _ hr

end

/-! ## The run -/

section
variable {cfg : RestoreConfig}

theorem singleName_of_components {relPath : Bytes}
    (h : safeRestoreComponents cfg.cwd cfg.targetDir relPath = .ok comps) :
    ∀ c ∈ comps, SingleName c := fun c hc =>
  have hc := safeRestoreComponents_single cfg.cwd cfg.targetDir h c hc
  ⟨hc.1, hc.2⟩

theorem restoreEntry_guard
    (hgood : ∀ comps content, file.isRestorable = true →
      safeRestoreComponents cfg.cwd cfg.targetDir file.name = .ok comps →
      Verified P file content → Good comps content) (h : Idle root g) :
    (restoreEntry P dec sizes cfg root file).InTurn Good g fun _ g' =>
      Idle root g' := by
  unfold restoreEntry
  split
  · exact h
  · rename_i hrestorable
    cases hcomps : safeRestoreComponents cfg.cwd cfg.targetDir file.name with
    | error e => exact h
    | ok comps =>
      dsimp only
      cases hlast : comps.getLast? with
      | none => exact h
      | some name =>
        have hsplit : comps.dropLast ++ [name] = comps := dropLast_append_getLast? name hlast
        have hsingle := singleName_of_components hcomps
        refine restoreAt_guard (hsingle name (mem_of_getLast? hlast))
          (fun c hc => hsingle c (dropLast_subset comps hc)) (fun content hcontent => ?_) h
        rw [hsplit]
        exact hgood comps content (Bool.eq_true_of_not_eq_false hrestorable) hcomps hcontent

theorem restoreFiles_guard
    (hgood : ∀ file ∈ files, ∀ comps content, file.isRestorable = true →
      safeRestoreComponents cfg.cwd cfg.targetDir file.name = .ok comps →
      Verified P file content → Good comps content) :
    ∀ {g : RestoreGhost} {result : RestoreResult}, Idle root g →
      (restoreFiles P dec sizes cfg root files result).InTurn Good g fun _ g' =>
        Idle root g' := by
  induction files with
  | nil => exact fun h => h
  | cons file rest ih =>
    intro g result h
    obtain ⟨hfile, hrest⟩ := forall_mem_cons.mp hgood
    refine guard_ask trivial fun cancelled _ => ?_
    cases cancelled with
    | true => exact h
    | false =>
      refine guard_bind (restoreEntry_guard hfile h) fun r g₁ h₁ => ?_
      cases r with
      | error e => exact h₁
      | ok restored => exact ih hrest h₁

theorem restoreSkeleton_guard {keys : List Bytes} : ∀ {g : RestoreGhost}, Idle root g →
    (restoreSkeleton cfg root keys).InTurn Good g fun _ g' => Idle root g' := by
  induction keys with
  | nil => exact fun h => h
  | cons dirPath rest ih =>
    intro g h
    unfold restoreSkeleton
    split
    · exact ih h
    · cases hcomps : safeRestoreComponents cfg.cwd cfg.targetDir dirPath with
      | error e => exact h
      | ok comps =>
        refine guard_bind (openSecurePath_guard (singleName_of_components hcomps) h)
          fun r g₁ hr => ?_
        cases r with
        | error e => exact hr
        | ok opened =>
          exact guard_bind (closeOwned_guard hr.toIdle hr.ne) fun _ g₂ h₂ => ih h₂.1

theorem restoreBelow_guard {keys : List Bytes}
    (hgood : ∀ file ∈ files, ∀ comps content, file.isRestorable = true →
      safeRestoreComponents cfg.cwd cfg.targetDir file.name = .ok comps →
      Verified P file content → Good comps content) (h : Idle root g) :
    (restoreBelow P dec sizes cfg root keys files).InTurn Good g fun _ g' =>
      Idle root g' := by
  refine guard_bind (restoreSkeleton_guard h) fun r g₁ h₁ => ?_
  cases r with
  | error e => exact h₁
  | ok => exact restoreFiles_guard hgood h₁

end

theorem openSecureDir_guard (abs : Bytes) :
    (openSecureDir abs).InTurn Good .init fun r g' =>
      match r with
      | .ok root => Idle root g'
      | .error _ => g' = .init := by
  have hopened : ∀ fd, Idle fd { RestoreGhost.init.openDir fd [] with rooted := true } :=
    fun fd => ⟨dirs_openDir_self fd [], rfl⟩
  refine guard_ask rfl fun r _ => ?_
  cases r with
  | ok fd => exact hopened fd
  | error e =>
    cases e with
    | notExist =>
      refine guard_ask rfl fun made _ => ?_
      cases made with
      | error e => exact rfl
      | ok =>
        refine guard_ask rfl fun r _ => ?_
        cases r with
        | ok fd => exact hopened fd
        | error e => exact rfl
    | _ => exact rfl

end

end

section
variable (P : Primitives) (dec : Decryptor) (sizes : WriteSizes) (cfg : RestoreConfig)

/-- The full content of an entry that goes to this path. -/
def Restored (files : List FileEntry) (path : List Bytes) (content : Bytes) : Prop :=
  ∃ e ∈ files, e.isRestorable = true ∧
    safeRestoreComponents cfg.cwd cfg.targetDir e.name = .ok path ∧ Verified P e content

/-- **A restore keeps to its protocol**, and no staging file is left when it returns. -/
theorem restoreRun_guard (keys : List Bytes) (files : List FileEntry) :
    (restoreRun P dec sizes cfg keys files).Guard (restoreProtocol (Restored P cfg files)) .init
      fun _ g' => g'.staging = none := by
  refine guard_bind (openSecureDir_guard _) fun r g₁ hr => ?_
  cases r with
  | error e =>
    cases hr
    exact rfl
  | ok root =>
    have hgood : ∀ file ∈ files, ∀ comps content, file.isRestorable = true →
        safeRestoreComponents cfg.cwd cfg.targetDir file.name = .ok comps →
        Verified P file content → Restored P cfg files comps content :=
      fun file hfile comps content hrestorable hcomps hcontent =>
        ⟨file, hfile, hrestorable, hcomps, hcontent⟩
    refine guard_bind (restoreBelow_guard hgood hr) fun r g₂ h₂ => ?_
    refine guard_ask (fun st hst => ?_) fun _ _ => ?_
    · rw [h₂.staging_eq] at hst
      cases hst
    · show g₂.staging.map _ = none
      rw [h₂.staging_eq]
      rfl

end

end GbfCore
