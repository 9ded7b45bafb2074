import GbfCore.Lib.DiskImage
import GbfCore.Lib.Interleave
import GbfCore.Manifest.RegistryUpdate

/-!
# Registry updates that overlap (pipeline.go)

Several backups of one source update its registry at the same time, in one process or in
several. Each update is the program of `RegistryUpdate`; they take turns at every call. An
update works with the registry it has loaded until its rename replaces the file, and nothing
keeps another update from doing the same in between. No update is lost if none loads the
registry while another one is at work (`no_lost_update`); `update_lost` shows two of which one
is lost.
-/

namespace GbfCore

open Function Json List Prog Option Finset

variable {b : UpdatePhase} {e : Sigma FsCall.Answer} {c : FsCall} {α : Type}

/-! ## What the text of a registry keeps -/

theorem decodeMembers_append (fields : Fields α) (l l' : List (Bytes × Value)) (a : α) :
    decodeMembers fields (l ++ l') a =
      (decodeMembers fields l a).bind (decodeMembers fields l') := by
  induction l generalizing a with
  | nil => rfl
  | cons e l ih =>
    obtain ⟨k, v⟩ := e
    rw [cons_append, decodeMembers, decodeMembers, bind_assoc]
    exact congrArg _ (funext fun b => ih b)

theorem registryFields_named : registryFields.Named := ⟨by decide, by decide⟩

/-- The number of snapshots is written as it is. -/
theorem snapshotCount_ofJson {reg reg' : SourceRegistry} (hcount : IsInt64 reg.snapshotCount)
    (h : SourceRegistry.ofJson reg.toJson.coerce = some reg') :
    reg'.snapshotCount = reg.snapshotCount := by
  have hsplit : decodeMembers registryFields (Value.coerceMembers reg.frontMembers ++
      Value.coerceMembers [(ascii "lastSnapshot", .str reg.lastSnapshot),
        (ascii "snapshotCount", .int reg.snapshotCount), (ascii "createdAt", .str reg.createdAt)])
      .zero = some reg' := by
    rw [coerceMembers_eq_map, coerceMembers_eq_map, ← map_append, ← coerceMembers_eq_map]
    exact h
  rw [decodeMembers_append] at hsplit
  obtain ⟨front, -, htail⟩ := bind_eq_some_iff.mp hsplit
  rw [decodeMembers_written registryFields_named 11 rfl (onField_eq_some rfl),
    decodeMembers_written registryFields_named 12 rfl (onField_eq_some (hcount.decode _)),
    decodeMembers_written registryFields_named 13 rfl (onField_eq_some rfl)] at htail
  cases htail
  rfl

/-- A decompression that succeeds gives back the data. -/
def Primitives.ZstdFaithful (P : Primitives) : Prop :=
  ∀ limit d b, P.zstdDecompress limit (P.zstdCompress d) = some b → b = d

section
variable (P : Primitives)

/-- The registry of a source in the bytes of a file. -/
def registryIn (cloudID data : Bytes) : Option SourceRegistry :=
  (decodeSourceRegistry P data).toOption.filter fun reg => decide (reg.cloudID = cloudID)

variable {P}

/-- The text of a registry comes out of its file again. -/
theorem registryPayload_encode (hsha : P.DigestLength) {data : Bytes} (hdata : data ≠ []) :
    registryPayload P (gbrEnvelope P data) = .ok data := by
  have hlong : registryEnvelopeHeaderSize < (gbrEnvelope P data).length := by
    have hheader : registryEnvelopeHeaderSize = registryEnvelopeMagic.length + sha256Size := rfl
    have hpos := length_pos_of_ne_nil hdata
    simp only [gbrEnvelope, length_append, hsha data]
    omega
  have hmagic : (gbrEnvelope P data).take registryEnvelopeMagic.length = registryEnvelopeMagic := by
    rw [gbrEnvelope, append_assoc, take_left]
  rw [registryPayload, if_pos ⟨hlong, hmagic⟩, stripGBREnvelope_gbrEnvelope hsha]

theorem unmarshal_marshal (hsha : P.DigestLength) (hzstd : P.ZstdLaws)
    (hfaithful : P.ZstdFaithful) {reg reg' : SourceRegistry} (hcount : IsInt64 reg.snapshotCount)
    (h : unmarshalRegistry P (gbrEnvelope P (P.zstdCompress reg.marshal)) = .ok reg') :
    reg'.snapshotCount = reg.snapshotCount := by
  have hzip : isCompressed (P.zstdCompress reg.marshal) = true :=
    hzstd.isCompressed_compress _ nofun
  have hne : P.zstdCompress reg.marshal ≠ [] := by
    intro hnil
    rw [hnil] at hzip
    cases hzip
  obtain ⟨payload, hpayload, h⟩ := bind_eq_ok.mp h
  cases (registryPayload_encode hsha hne).symm.trans hpayload
  obtain ⟨text, htext, hjson⟩ := bind_eq_ok.mp h
  rw [decompressRegistry, hzip, if_pos rfl] at htext
  split at htext
  · cases htext
  · rename_i hunzip
    cases htext
    rw [hfaithful _ _ _ hunzip] at hjson
    have hparse : parse reg.marshal = some reg.toJson.coerce :=
      parse_render (writable_registry reg) (by decide)
    rw [hparse, bind_some] at hjson
    split at hjson
    · cases hjson
    · rename_i hofJson
      cases hjson
      exact snapshotCount_ofJson hcount hofJson

/-- A written registry that is read again has the number of snapshots it was written with. -/
theorem snapshotCount_registryIn (hsha : P.DigestLength) (hzstd : P.ZstdLaws)
    (hfaithful : P.ZstdFaithful) {cloudID : Bytes} {reg reg' : SourceRegistry}
    (hcount : IsInt64 reg.snapshotCount)
    (h : registryIn P cloudID (encodeSourceRegistry P reg) = some reg') :
    reg'.snapshotCount = reg.snapshotCount := by
  obtain ⟨hdec, -⟩ := filter_eq_some_iff.mp h
  obtain ⟨read, hread, hversion⟩ := bind_eq_ok.mp (toOption_eq_some.mp hdec)
  -- neither side's default for the version touches the number
  have hsame : reg'.snapshotCount = read.snapshotCount := by
    split at hversion
    · cases hversion
      rfl
    · split at hversion
      · cases hversion
      · cases hversion
        rfl
  rw [hsame]
  unfold encodeSourceRegistry at hread
  dsimp only at hread
  split at hread
  · refine (unmarshal_marshal hsha hzstd hfaithful ?_ hread).trans rfl
    exact hcount
  · exact unmarshal_marshal hsha hzstd hfaithful hcount hread

/-- A load gives the registry in the file. -/
theorem toOption_loaded (P : Primitives) (cloudID data : Bytes) :
    ((decodeSourceRegistry P data).bind fun reg =>
      if reg.cloudID ≠ cloudID then .error (.identityMismatch reg.cloudID) else .ok reg).toOption =
      registryIn P cloudID data := by
  unfold registryIn
  cases decodeSourceRegistry P data with
  | error e => rfl
  | ok reg =>
    by_cases hid : reg.cloudID = cloudID
    · simp [Except.bind, hid, Except.toOption, Option.filter]
    · simp [Except.bind, hid, Except.toOption, Option.filter]

end

/-! ## What an update does, call by call -/

section
variable (P : Primitives)

/-- `updateSourceRegistry`, with the results that it does not pass on. -/
def reportedUpdate (metaDir cloudID uuid : Bytes) (m : Manifest) :
    FsProg (Except RegistryError SourceRegistry × Except RegistrySaveError Unit) := do
  let loaded ← loadSourceRegistry P metaDir cloudID
  let saved ← saveSourceRegistry P metaDir uuid ((loadedOrFresh cloudID m loaded).refreshed m)
  return (loaded, saved)

/-- How far an update is. -/
inductive UpdatePhase where
  | idle
  | loaded (reg : SourceRegistry)
  /-- The staging file was created. -/
  | opened (reg : SourceRegistry)
  /-- The staging file was written. -/
  | written (reg : SourceRegistry)
  | committed
  | failed

namespace UpdatePhase

/-- The registry an update is at work with. -/
def working : UpdatePhase → Option SourceRegistry
  | loaded reg => some reg
  | opened reg => some reg
  | written reg => some reg
  | _ => none

/-- Behind a load. -/
def ofLoad : Option SourceRegistry → UpdatePhase
  | some reg => loaded reg
  | none => failed

def isCommitted : UpdatePhase → Bool
  | committed => true
  | _ => false

end UpdatePhase

/-- What an update calls in each phase, and where the answers take it. What it does after an
error does not matter here. -/
def updateProtocol (path tmp cloudID : Bytes) (m : Manifest) :
    Protocol FsCall FsCall.Answer UpdatePhase where
  pre
    | .idle, c => c = .readFile path
    | .loaded _, c => c = .create tmp ∨ ∃ dir, c = .mkdirAll dir
    | .opened reg, c => c = .write tmp (encodeSourceRegistry P (reg.refreshed m))
    | .written _, c => c = .sync tmp ∨ c = .close tmp ∨ c = .rename tmp path
    | .committed, c => Quiet c
    | .failed, _ => True
  admits _ _ _ := True
  next
    | .idle, .readFile _, r => .ofLoad (r.toOption.bind (registryIn P cloudID))
    | .loaded reg, .mkdirAll _, .ok () => .loaded reg
    | .loaded reg, .create _, .ok () => .opened reg
    | .opened reg, .write _ _, .ok () => .written reg
    | .written reg, .sync _, .ok () => .written reg
    | .written reg, .close _, .ok () => .written reg
    | .written _, .rename _ _, .ok () => .committed
    | .committed, _, _ => .committed
    | _, _, _ => .failed

variable {P} {path tmp cloudID metaDir uuid : Bytes} {m : Manifest} {reg : SourceRegistry}

theorem guard_failed {R : α → Prop} {p : FsProg α} (h : p.Sat (fun _ => True) R) :
    p.Guard (updateProtocol P path tmp cloudID m) .failed fun a g => R a ∧ g = .failed := by
  induction p with
  | ret a => exact ⟨h, rfl⟩
  | call c next ih => exact ⟨trivial, fun r _ => ih r (h.2 r)⟩

theorem guard_committed {p : FsProg α} (h : p.Calls Quiet) :
    p.Guard (updateProtocol P path tmp cloudID m) .committed fun _ g => g = .committed := by
  induction p with
  | ret a => exact rfl
  | call c next ih => exact ⟨h.1, fun r _ => ih r (h.2 r)⟩

/-- A staging file that is written without an error is written. -/
theorem guard_writeStagingFile :
    (writeStagingFile tmp (encodeSourceRegistry P (reg.refreshed m))).Guard
      (updateProtocol P path tmp cloudID m) (.loaded reg)
      fun r g => r = .ok () ∧ g = .written reg ∨ (∃ e, r = .error e) ∧ g = .failed := by
  have hdiscard : ∀ e, (discardStaging tmp e).Guard (updateProtocol P path tmp cloudID m) .failed
      fun r g => r = .ok () ∧ g = .written reg ∨ (∃ e, r = .error e) ∧ g = .failed := by
    intro e
    refine (guard_failed (discardStaging_result tmp e)).mono fun r g h => ?_
    exact .inr ⟨⟨e, h.1⟩, h.2⟩
  refine guard_ask (.inl rfl) fun r _ => ?_
  rcases r with e | ⟨⟩
  · exact .inr ⟨⟨e, rfl⟩, rfl⟩
  refine guard_ask rfl fun r _ => ?_
  rcases r with e | ⟨⟩
  · exact hdiscard e
  refine guard_ask (.inl rfl) fun r _ => ?_
  rcases r with e | ⟨⟩
  · exact hdiscard e
  refine guard_ask (.inr (.inl rfl)) fun r _ => ?_
  rcases r with e | ⟨⟩
  · refine guard_ask trivial fun _ _ => ?_
    exact .inr ⟨⟨e, rfl⟩, rfl⟩
  · exact .inl ⟨rfl, rfl⟩

theorem guard_writeFileAtomic :
    (writeFileAtomic uuid path (encodeSourceRegistry P (reg.refreshed m))).Guard
      (updateProtocol P path (tempPath path uuid) cloudID m) (.loaded reg)
      fun r g => r = .ok () → g = .committed := by
  refine guard_ask (.inr ⟨_, rfl⟩) fun r _ => ?_
  rcases r with e | ⟨⟩
  · exact nofun
  refine guard_bind guard_writeStagingFile ?_
  rintro r g (⟨rfl, rfl⟩ | ⟨⟨e, rfl⟩, rfl⟩)
  · refine guard_ask (.inr (.inr rfl)) fun r _ => ?_
    rcases r with e | ⟨⟩
    · exact guard_ask trivial fun _ _ => nofun
    · exact (guard_committed (calls_syncParentDir _)).mono fun _ _ h _ => h
  · exact nofun

theorem guard_saveSourceRegistry (hvalid : validateCloudID reg.cloudID = .ok ()) :
    (saveSourceRegistry P metaDir uuid (reg.refreshed m)).Guard
      (updateProtocol P (sourceRegistryPath metaDir reg.cloudID)
        (tempPath (sourceRegistryPath metaDir reg.cloudID) uuid) cloudID m) (.loaded reg)
      fun r g => r = .ok () → g = .committed := by
  unfold saveSourceRegistry
  rw [show (reg.refreshed m).cloudID = reg.cloudID from rfl, hvalid]
  refine guard_ask (.inr ⟨_, rfl⟩) fun r _ => ?_
  rcases r with e | ⟨⟩
  · exact nofun
  refine guard_ask (.inr ⟨_, rfl⟩) fun r _ => ?_
  rcases r with e | ⟨⟩
  · exact nofun
  refine guard_bind guard_writeFileAtomic fun r g hr => ?_
  exact fun hok => hr (mapError_eq_ok.mp hok)

/-- What an update does with the result of its load. -/
theorem guard_afterLoad (hvalid : validateCloudID cloudID = .ok ())
    {x : Except RegistryError SourceRegistry} {o : Option SourceRegistry} (hx : x.toOption = o)
    (hid : ∀ reg, x = .ok reg → reg.cloudID = cloudID) :
    (do
      let saved ← saveSourceRegistry P metaDir uuid ((loadedOrFresh cloudID m x).refreshed m)
      return (x, saved) :
      FsProg (Except RegistryError SourceRegistry × Except RegistrySaveError Unit)).Guard
      (updateProtocol P (sourceRegistryPath metaDir cloudID)
        (tempPath (sourceRegistryPath metaDir cloudID) uuid) cloudID m) (.ofLoad o)
      fun a g => a.1.isOk = true → a.2 = .ok () → g = .committed := by
  subst hx
  cases x with
  | error e =>
    refine guard_bind (guard_failed (sat_true _)) fun r g _ => ?_
    exact nofun
  | ok reg =>
    obtain rfl := hid reg rfl
    refine guard_bind (guard_saveSourceRegistry hvalid) fun r g hr => ?_
    exact fun _ hok => hr hok

/-- **An update that loads and saves has gone through its phases.** -/
theorem guard_reportedUpdate (P : Primitives) (metaDir cloudID uuid : Bytes) (m : Manifest) :
    (reportedUpdate P metaDir cloudID uuid m).Guard
      (updateProtocol P (sourceRegistryPath metaDir cloudID)
        (tempPath (sourceRegistryPath metaDir cloudID) uuid) cloudID m) .idle
      fun a g => a.1.isOk = true → a.2 = .ok () → g = .committed := by
  unfold reportedUpdate loadSourceRegistry
  cases hvalid : validateCloudID cloudID with
  | error e =>
    -- both the load and the save refuse the identifier
    refine guard_bind (guard_ret (Q := fun r _ => r = .error (.cloudID e)) rfl) ?_
    rintro r g rfl
    rw [saveSourceRegistry_refused hvalid]
    exact nofun
  | ok u =>
    refine ⟨rfl, fun r _ => ?_⟩
    rcases r with e | data
    · exact guard_afterLoad hvalid (x := .error (.read e)) rfl nofun
    · refine guard_afterLoad hvalid (toOption_loaded P cloudID data) fun reg hreg => ?_
      obtain ⟨reg', -, hcheck⟩ := bind_eq_ok.mp hreg
      obtain ⟨hsame, hcheck⟩ := guard_eq_ok.mp hcheck
      cases hcheck
      exact not_not.mp hsame

end

/-! ## Updates that take turns -/

section
variable {ι : Type} (path : Bytes)

/-- The registry is loaded. -/
def isLoad : Sigma FsCall.Answer → Bool
  | ⟨.readFile p, _⟩ => decide (p = path)
  | _ => false

/-- The registry is replaced. -/
def isCommit : Sigma FsCall.Answer → Bool
  | ⟨.rename _ p, .ok ()⟩ => decide (p = path)
  | _ => false

/-- An update is at work: it has loaded the registry, and has not replaced it yet. -/
def AtWork (log : List (ι × Sigma FsCall.Answer)) (i : ι) : Prop :=
  (∃ e, (i, e) ∈ log ∧ isLoad path e = true) ∧ ∀ e, (i, e) ∈ log → isCommit path e = false

/-- The registry is loaded only while no update is at work. -/
def OneAtATime (log : List (ι × Sigma FsCall.Answer)) (_ : ι) (c : FsCall) : Prop :=
  c = .readFile path → ∀ j, ¬ AtWork path log j

/-- The log tells the phases. -/
structure LogRel (log : List (ι × Sigma FsCall.Answer)) (g : ι → UpdatePhase) : Prop where
  atWork : ∀ i, (g i).working ≠ none → AtWork path log i
  committed : ∀ i e, (i, e) ∈ log → isCommit path e = true → g i = .committed

variable {path} [DecidableEq ι] {log : List (ι × Sigma FsCall.Answer)} {g : ι → UpdatePhase}

theorem LogRel.step (h : LogRel path log g) {i : ι}
    (hwork : b.working ≠ none → (g i).working ≠ none ∨ g i = .idle ∧ isLoad path e = true)
    (hcommit : isCommit path e = true → b = .committed) (hkeep : g i = .committed → b = .committed) :
    LogRel path ((i, e) :: log) (update g i b) := by
  constructor
  · intro j hj
    by_cases hji : j = i
    · subst hji
      rw [update_self] at hj
      have hnot : isCommit path e = false :=
        Bool.eq_false_iff.mpr fun hc => hj (by rw [hcommit hc]; rfl)
      rcases hwork hj with hwas | ⟨hidle, hload⟩
      · obtain ⟨⟨e', he', hload⟩, hnone⟩ := h.atWork j hwas
        refine ⟨⟨e', mem_cons_of_mem _ he', hload⟩, fun e'' he'' => ?_⟩
        rcases mem_cons.mp he'' with heq | hold
        · cases heq
          exact hnot
        · exact hnone e'' hold
      · refine ⟨⟨e, mem_cons_self, hload⟩, fun e'' he'' => ?_⟩
        rcases mem_cons.mp he'' with heq | hold
        · cases heq
          exact hnot
        · refine Bool.eq_false_iff.mpr fun hc => ?_
          rw [h.committed j e'' hold hc] at hidle
          cases hidle
    · rw [update_of_ne hji] at hj
      obtain ⟨⟨e', he', hload⟩, hnone⟩ := h.atWork j hj
      refine ⟨⟨e', mem_cons_of_mem _ he', hload⟩, fun e'' he'' => ?_⟩
      rcases mem_cons.mp he'' with heq | hold
      · cases heq
        exact absurd rfl hji
      · exact hnone e'' hold
  · intro j e' he' hc
    by_cases hji : j = i
    · subst hji
      rw [update_self]
      rcases mem_cons.mp he' with heq | hold
      · cases heq
        exact hcommit hc
      · exact hkeep (h.committed j e' hold hc)
    · rw [update_of_ne hji]
      rcases mem_cons.mp he' with heq | hold
      · cases heq
        exact absurd rfl hji
      · exact h.committed j e' hold hc

/-! ## The registry in the file -/

variable [Fintype ι]

/-- How many updates are through. -/
def commits (g : ι → UpdatePhase) : Nat :=
  (univ.filter fun i => (g i).isCommitted = true).card

theorem commits_update {i : ι} (h : b.isCommitted = (g i).isCommitted) :
    commits (update g i b) = commits g := by
  unfold commits
  congr 1
  ext j
  by_cases hji : j = i
  · subst hji
    simp [h]
  · simp [update_of_ne hji]

theorem commits_commit {i : ι} (h : (g i).isCommitted = false) :
    commits (update g i .committed) = commits g + 1 := by
  have hinsert : (univ.filter fun j => (update g i .committed j).isCommitted = true) =
      insert i (univ.filter fun j => (g j).isCommitted = true) := by
    ext j
    rw [mem_insert, mem_filter_univ, mem_filter_univ]
    by_cases hji : j = i
    · subst hji
      rw [update_self]
      exact iff_of_true rfl (.inl rfl)
    · rw [update_of_ne hji, or_iff_right hji]
  rw [commits, hinsert, card_insert_of_notMem (by simp [h])]
  rfl

section
variable (P : Primitives) (path cloudID : Bytes)

/-- The registry in the file, if there is one. -/
def currentRegistry (fs : FileSystem) : Option SourceRegistry :=
  (fs.read path).bind (registryIn P cloudID)

/-- The staging file of an update in each of its phases. -/
def StagedAs (tmp : Bytes) (m : Manifest) (fs : FileSystem) : UpdatePhase → Prop
  | .idle => fs.inode tmp = none
  | .loaded _ => fs.inode tmp = none
  | .opened _ => ∀ x, fs.inode tmp = some x → fs.inode path ≠ some x
  | .written reg => fs.read tmp = some (encodeSourceRegistry P (reg.refreshed m))
  | _ => True

/-- While the updates work one at a time, every one of them is counted. -/
structure RegistryRel (tmp : ι → Bytes) (m : ι → Manifest) (start : Int) (g : ι → UpdatePhase)
    (fs : FileSystem) : Prop where
  counted : ∀ reg, currentRegistry P path cloudID fs = some reg →
    wrap64 reg.snapshotCount = wrap64 (start + commits g)
  last : (∃ i, g i = .committed) → ∃ i reg, fs.read path = some (encodeSourceRegistry P reg) ∧
    reg.snapshotCount = wrap64 (start + commits g) ∧ reg.lastSnapshot = (m i).timestamp
  current : ∀ i reg, (g i).working = some reg → currentRegistry P path cloudID fs = some reg
  alone : ∀ i j, (g i).working ≠ none → (g j).working ≠ none → i = j
  staged : ∀ i, StagedAs P path (tmp i) (m i) fs (g i)

end

section
variable {P : Primitives} {cloudID : Bytes} {tmp : ι → Bytes} {m : ι → Manifest} {start : Int}
  {fs fs' : FileSystem} {i : ι} {reg : SourceRegistry}

/-- An update that has nothing in hand needs no more of its staging name than before. -/
theorem StagedAs.of_inode {tmp : Bytes} {m : Manifest} (hidle : b.working = none)
    (h : StagedAs P path tmp m fs b) (hinode : fs'.inode tmp = fs.inode tmp) :
    StagedAs P path tmp m fs' b := by
  cases b with
  | idle => exact hinode.trans h
  | committed => trivial
  | failed => trivial
  | _ => cases hidle

/-- A call of an update while no other one is at work, before it replaces the registry. -/
theorem RegistryRel.proceed (h : RegistryRel P path cloudID tmp m start g fs)
    (hwas : (g i).isCommitted = false) (hb : b.isCommitted = false)
    (hother : ∀ j, j ≠ i → (g j).working = none)
    (hcurrent : ∀ reg, b.working = some reg → currentRegistry P path cloudID fs = some reg)
    (hread : fs'.read path = fs.read path)
    (hinode : ∀ j, j ≠ i → fs'.inode (tmp j) = fs.inode (tmp j))
    (hstaged : StagedAs P path (tmp i) (m i) fs' b) :
    RegistryRel P path cloudID tmp m start (update g i b) fs' := by
  have hcommits : commits (update g i b) = commits g := commits_update (hb.trans hwas.symm)
  have hnow : currentRegistry P path cloudID fs' = currentRegistry P path cloudID fs := by
    unfold currentRegistry
    rw [hread]
  have hwork : ∀ j, (update g i b j).working ≠ none → j = i := by
    intro j hj
    by_contra hji
    rw [update_of_ne hji] at hj
    exact hj (hother j hji)
  constructor
  · rw [hcommits, hnow]
    exact h.counted
  · rintro ⟨j, hj⟩
    have hji : j ≠ i := by
      rintro rfl
      rw [update_self] at hj
      rw [hj] at hb
      cases hb
    rw [update_of_ne hji] at hj
    rw [hcommits, hread]
    exact h.last ⟨j, hj⟩
  · intro j reg' hj
    obtain rfl := hwork j (by rw [hj]; nofun)
    rw [update_self] at hj
    rw [hnow]
    exact hcurrent reg' hj
  · exact fun j k hj hk => (hwork j hj).trans (hwork k hk).symm
  · intro j
    by_cases hji : j = i
    · subst hji
      rw [update_self]
      exact hstaged
    · rw [update_of_ne hji]
      exact (h.staged j).of_inode (hother j hji) (hinode j hji)

/-- A load while no update is at work. -/
theorem RegistryRel.load (h : RegistryRel P path cloudID tmp m start g fs) (hidle : g i = .idle)
    (hnone : ∀ j, (g j).working = none) (hreg : currentRegistry P path cloudID fs = some reg) :
    RegistryRel P path cloudID tmp m start (update g i (.loaded reg)) fs := by
  have hfree := h.staged i
  rw [hidle] at hfree
  refine h.proceed (by rw [hidle]; rfl) rfl (fun j _ => hnone j) ?_ rfl (fun _ _ => rfl) hfree
  rintro _ ⟨⟩
  exact hreg

theorem UpdatePhase.not_committed (h : b.working = some reg) : b.isCommitted = false := by
  cases b <;> first | rfl | cases h

/-- A call of the update that is at work. -/
theorem RegistryRel.work (h : RegistryRel P path cloudID tmp m start g fs)
    (hwas : (g i).working = some reg) (hb : b.working = some reg)
    (hread : fs'.read path = fs.read path)
    (hinode : ∀ j, j ≠ i → fs'.inode (tmp j) = fs.inode (tmp j))
    (hstaged : StagedAs P path (tmp i) (m i) fs' b) :
    RegistryRel P path cloudID tmp m start (update g i b) fs' := by
  have hother : ∀ j, j ≠ i → (g j).working = none := by
    intro j hji
    by_contra hj
    exact hji (h.alone j i hj (by rw [hwas]; nofun))
  refine h.proceed (UpdatePhase.not_committed hwas) (UpdatePhase.not_committed hb) hother ?_ hread
    hinode hstaged
  intro reg' hreg'
  cases hb.symm.trans hreg'
  exact h.current i reg hwas

theorem wrap64_succ (a : Int) : wrap64 (wrap64 a + 1) = wrap64 (a + 1) := Int.bmod_add_bmod

/-- The rename counts one more. -/
theorem RegistryRel.commit (hsha : P.DigestLength) (hzstd : P.ZstdLaws)
    (hfaithful : P.ZstdFaithful) (h : RegistryRel P path cloudID tmp m start g fs)
    (hwas : g i = .written reg)
    (hread : fs'.read path = some (encodeSourceRegistry P (reg.refreshed (m i))))
    (hinode : ∀ j, j ≠ i → fs'.inode (tmp j) = fs.inode (tmp j)) :
    RegistryRel P path cloudID tmp m start (update g i .committed) fs' := by
  have hcommits : commits (update g i .committed) = commits g + 1 :=
    commits_commit (by rw [hwas]; rfl)
  have hcount : (reg.refreshed (m i)).snapshotCount =
      wrap64 (start + commits (update g i .committed)) := by
    have hold := h.counted reg (h.current i reg (by rw [hwas]; rfl))
    show wrap64 (reg.snapshotCount + 1) = _
    rw [← wrap64_succ, hold, wrap64_succ, hcommits, Int.add_assoc]
    rfl
  have hother : ∀ j, j ≠ i → (g j).working = none := by
    intro j hji
    by_contra hj
    exact hji (h.alone j i hj (by rw [hwas]; nofun))
  have hnone : ∀ j, (update g i .committed j).working = none := by
    intro j
    by_cases hji : j = i
    · subst hji
      rw [update_self]
      rfl
    · rw [update_of_ne hji]
      exact hother j hji
  constructor
  · intro reg' hreg'
    rw [currentRegistry, hread, bind_some] at hreg'
    rw [snapshotCount_registryIn hsha hzstd hfaithful (isInt64_wrap64 _) hreg', hcount]
    exact Int.bmod_bmod
  · exact fun _ => ⟨i, _, hread, hcount, rfl⟩
  · intro j reg' hj
    rw [hnone j] at hj
    cases hj
  · exact fun j k hj => absurd (hnone j) hj
  · intro j
    by_cases hji : j = i
    · subst hji
      rw [update_self]
      trivial
    · rw [update_of_ne hji]
      exact (h.staged j).of_inode (hother j hji) (hinode j hji)

end

/-! ## One call -/

section
variable {P : Primitives} {cloudID : Bytes} {uuid : ι → Bytes} {m : ι → Manifest} {start : Int}
  {fs fs' : FileSystem} {i : ι} {unreadable : Bytes → Prop}

/-- The relation between a run and the registry, as long as no update has failed. -/
def RunRel (P : Primitives) (path cloudID : Bytes) (uuid : ι → Bytes) (m : ι → Manifest)
    (start : Int) (log : List (ι × Sigma FsCall.Answer)) (g : ι → UpdatePhase) (fs : FileSystem) :
    Prop :=
  (∀ i, g i ≠ .failed) → LogRel path log g ∧
    RegistryRel P path cloudID (fun i => tempPath path (uuid i)) m start g fs

theorem tempPath_inj {u v : Bytes} (h : tempPath path u = tempPath path v) : u = v :=
  append_cancel_left (append_cancel_right h)

/-- A phase that has not failed comes from one that has not. -/
theorem ne_failed_of_update {ι : Type} [DecidableEq ι] {g : ι → UpdatePhase} {i : ι}
    {T : Protocol FsCall FsCall.Answer UpdatePhase} {r : c.Answer}
    (hT : T.next .failed c r = .failed)
    (h : ∀ j, update g i (T.next (g i) c r) j ≠ .failed) : ∀ j, g j ≠ .failed := by
  intro j hj
  by_cases hji : j = i
  · subst hji
    refine h j ?_
    rw [update_self, hj, hT]
  · refine h j ?_
    rw [update_of_ne hji]
    exact hj

/-- A call of the update that is at work, before it replaces the registry, in the log. -/
theorem rel_of_work {tmp : ι → Bytes} {reg : SourceRegistry} (hlog : LogRel path log g)
    (hreg : RegistryRel P path cloudID tmp m start g fs) (hwas : (g i).working = some reg)
    (hb : b.working = some reg) (he : isCommit path e = false)
    (hread : fs'.read path = fs.read path)
    (hinode : ∀ j, j ≠ i → fs'.inode (tmp j) = fs.inode (tmp j))
    (hstaged : StagedAs P path (tmp i) (m i) fs' b) :
    LogRel path ((i, e) :: log) (update g i b) ∧
      RegistryRel P path cloudID tmp m start (update g i b) fs' := by
  refine ⟨hlog.step (fun _ => .inl (by rw [hwas]; nofun)) (fun hc => absurd (he.symm.trans hc) nofun)
    fun hc => ?_,
    hreg.work hwas hb hread hinode hstaged⟩
  rw [hc] at hwas
  cases hwas

/-- **What one call does to the relation.** -/
theorem RunRel.step (hsha : P.DigestLength) (hzstd : P.ZstdLaws) (hfaithful : P.ZstdFaithful)
    (huuid : Function.Injective uuid) {r : c.Answer}
    (hpre : (updateProtocol P path (tempPath path (uuid i)) cloudID (m i)).pre (g i) c)
    (h : RunRel P path cloudID uuid m start log g fs) (hallowed : OneAtATime path log i c)
    (hout : c.Outcome unreadable fs r fs') :
    RunRel P path cloudID uuid m start ((i, ⟨c, r⟩) :: log) (update g i
      ((updateProtocol P path (tempPath path (uuid i)) cloudID (m i)).next (g i) c r)) fs' := by
  intro hok
  obtain ⟨hlog, hreg⟩ := h (ne_failed_of_update rfl hok)
  have hnext := hok i
  rw [update_self] at hnext
  have hne := tempPath_ne path (uuid i)
  have hothers : ∀ j, j ≠ i → tempPath path (uuid j) ≠ tempPath path (uuid i) :=
    fun j hji heq => hji (huuid (tempPath_inj heq))
  have hstaged := hreg.staged i
  cases hg : g i with
  | idle =>
    rw [hg] at hpre hnext
    obtain rfl : c = .readFile path := hpre
    obtain ⟨rfl, hread⟩ := hout
    cases hload : r.toOption.bind (registryIn P cloudID) with
    | none =>
      refine absurd ?_ hnext
      show UpdatePhase.ofLoad _ = _
      rw [hload]
      rfl
    | some reg =>
      have hcurrent : currentRegistry P path cloudID fs' = some reg := by
        obtain ⟨data, hdata, hin⟩ := bind_eq_some_iff.mp hload
        obtain rfl := toOption_eq_some.mp hdata
        rcases hread with ⟨-, hcontra⟩ | ⟨-, hread⟩
        · cases hcontra
        · split at hread
          · rename_i hfile
            cases hread
            rw [currentRegistry, hfile]
            exact hin
          · cases hread
      have hphase : (updateProtocol P path (tempPath path (uuid i)) cloudID (m i)).next .idle
          (.readFile path) r = .loaded reg := by
        show UpdatePhase.ofLoad _ = _
        rw [hload]
        rfl
      have hnone : ∀ j, (g j).working = none := fun j =>
        not_not.mp fun hj => hallowed rfl j (hlog.atWork j hj)
      rw [hphase]
      exact ⟨hlog.step (fun _ => .inr ⟨hg, decide_eq_true rfl⟩) nofun (by rw [hg]; nofun),
        hreg.load hg hnone hcurrent⟩
  | loaded reg =>
    rw [hg] at hpre hnext hstaged
    have hwas : (g i).working = some reg := by
      rw [hg]
      rfl
    rcases hpre with rfl | ⟨dir, rfl⟩ <;> rcases r with e | ⟨⟩
    · exact absurd rfl hnext
    · obtain rfl : fs' = fs.create (tempPath path (uuid i)) := hout
      have hfree : Staged path (tempPath path (uuid i)) fs fs :=
        ⟨.refl path fs, fun x hx => by rw [hstaged] at hx; cases hx⟩
      have hcreate := hfree.create hne
      exact rel_of_work hlog hreg hwas rfl rfl hcreate.untouched.read
        (fun j hji => update_of_ne (hothers j hji) _ _) hcreate.apart
    · exact absurd rfl hnext
    · obtain rfl : fs' = fs := hout
      exact rel_of_work hlog hreg hwas rfl rfl rfl (fun _ _ => rfl) hstaged
  | opened reg =>
    rw [hg] at hpre hnext hstaged
    have hwas : (g i).working = some reg := by
      rw [hg]
      rfl
    obtain rfl : c = .write _ _ := hpre
    obtain ⟨x, hx, hwrite⟩ := hout
    rcases r with e | ⟨⟩
    · exact absurd rfl hnext
    · obtain rfl := hwrite
      have happart : Staged path (tempPath path (uuid i)) fs fs := ⟨.refl path fs, hstaged⟩
      have hwritten := happart.write hx (encodeSourceRegistry P (reg.refreshed (m i)))
      refine rel_of_work hlog hreg hwas rfl rfl hwritten.untouched.read (fun _ _ => rfl) ?_
      exact FileSystem.read_eq_some.mpr ⟨x, hx, update_self _ _ _⟩
  | written reg =>
    rw [hg] at hpre hnext hstaged
    have hwas : (g i).working = some reg := by
      rw [hg]
      rfl
    rcases hpre with rfl | rfl | rfl <;> rcases r with e | ⟨⟩
    · exact absurd rfl hnext
    · obtain rfl : fs' = fs := hout
      exact rel_of_work hlog hreg hwas rfl rfl rfl (fun _ _ => rfl) hstaged
    · exact absurd rfl hnext
    · obtain rfl : fs' = fs := hout
      exact rel_of_work hlog hreg hwas rfl rfl rfl (fun _ _ => rfl) hstaged
    · exact absurd rfl hnext
    · -- the rename: the registry that was loaded is replaced
      obtain ⟨x, hx, rfl⟩ := hout
      obtain ⟨y, hy, hcontent⟩ := FileSystem.read_eq_some.mp hstaged
      cases hx.symm.trans hy
      refine ⟨hlog.step nofun (fun _ => rfl) (by rw [hg]; nofun), ?_⟩
      refine hreg.commit hsha hzstd hfaithful hg ?_ fun j hji => ?_
      · refine FileSystem.read_eq_some.mpr ⟨x, ?_, hcontent⟩
        exact (update_of_ne hne.symm _ _).trans (update_self _ _ _)
      · refine (update_of_ne (hothers j hji) _ _).trans ?_
        exact update_of_ne (tempPath_ne path (uuid j)) _ _
  | committed =>
    rw [hg] at hpre
    have hfs : fs' = fs := exec_quiet (p := ask c) (sat_ask hpre) (exec_ask.mpr hout)
    have hcommit : isCommit path ⟨c, r⟩ = false := by
      cases c with
      | rename source target => exact hpre.elim
      | _ => rfl
    have hsame : update g i .committed = g := by
      rw [← hg, update_eq_self]
    refine ⟨hlog.step nofun (fun hc => absurd (hcommit.symm.trans hc) nofun) fun _ => rfl, ?_⟩
    show RegistryRel _ _ _ _ _ _ (update g i .committed) _
    rw [hsame, hfs]
    exact hreg
  | failed => exact absurd hg (ne_failed_of_update rfl hok i)

end

/-! ## Whole runs -/

section
variable {P : Primitives} {metaDir cloudID : Bytes} {uuid : ι → Bytes} {m : ι → Manifest}
  {fs fs' : FileSystem} {unreadable : Bytes → Prop}

/-- **No update is lost** in a run in which the registry is loaded only while no update is at
work: when all of them have loaded and saved, each is counted, and the last snapshot is one of
theirs. -/
theorem no_lost_update [Nonempty ι] (hsha : P.DigestLength) (hzstd : P.ZstdLaws)
    (hfaithful : P.ZstdFaithful) (huuid : Function.Injective uuid)
    (hfresh : ∀ i, fs.inode (tempPath (sourceRegistryPath metaDir cloudID) (uuid i)) = none)
    {reg : SourceRegistry}
    (hstart : currentRegistry P (sourceRegistryPath metaDir cloudID) cloudID fs = some reg)
    {p : ι → FsProg (Except RegistryError SourceRegistry × Except RegistrySaveError Unit)}
    (hrun : Interleaved (FsCall.Outcome unreadable)
      (OneAtATime (sourceRegistryPath metaDir cloudID))
      (fun i => reportedUpdate P metaDir cloudID (uuid i) (m i)) fs log p fs')
    (hend : ∀ i, ∃ reg', p i = .ret (.ok reg', .ok ())) :
    ∃ i reg', fs'.read (sourceRegistryPath metaDir cloudID) = some (encodeSourceRegistry P reg') ∧
      reg'.snapshotCount = wrap64 (reg.snapshotCount + Fintype.card ι) ∧
      reg'.lastSnapshot = (m i).timestamp := by
  have hidle : commits (fun _ : ι => UpdatePhase.idle) = 0 := by
    simp [commits, UpdatePhase.isCommitted]
  have hrel : RunRel P (sourceRegistryPath metaDir cloudID) cloudID uuid m reg.snapshotCount []
      (fun _ => .idle) fs := by
    refine fun _ => ⟨⟨fun _ h => absurd rfl h, nofun⟩, ?_, nofun, nofun, fun _ _ h => absurd rfl h,
      hfresh⟩
    intro reg' hreg'
    cases hstart.symm.trans hreg'
    rw [hidle, Nat.cast_zero, Int.add_zero]
  obtain ⟨g, hrelg, hguard⟩ := hrun.guard _
    (fun i => guard_reportedUpdate P metaDir cloudID (uuid i) (m i)) hrel
    fun hpre h hallowed hout =>
      ⟨trivial, RunRel.step hsha hzstd hfaithful huuid hpre h hallowed hout⟩
  have hcommitted : ∀ i, g i = .committed := by
    intro i
    obtain ⟨reg', hret⟩ := hend i
    have hpost := hguard i
    rw [hret] at hpost
    exact hpost rfl rfl
  obtain ⟨-, hreg⟩ := hrelg fun i h => nomatch (hcommitted i).symm.trans h
  have hall : commits g = Fintype.card ι := by
    unfold commits
    rw [filter_true_of_mem fun i _ => by rw [hcommitted i]; rfl]
    rfl
  rw [← hall]
  exact hreg.last ⟨Classical.arbitrary ι, hcommitted _⟩

end

end

/-! ## Two updates -/

/-- The manifests of two backups. -/
def backup (i : Fin 2) : Manifest :=
  { sampleManifest [ascii "a"] with
    timestamp := if i = 0 then ascii "2024-01-01T00:00:00Z" else ascii "2024-01-02T00:00:00Z" }

/-- The registry before them, as `sampleRegistryText` has it. -/
def registryBefore : SourceRegistry :=
  { SourceRegistry.zero with
    schemaVersion := 1
    cloudID := ascii "s"
    pins := ⟨some [⟨[], 0, ascii "n", 0⟩], []⟩ }

/-- The primitives, on the registries that the two updates may write. -/
def registryPrimitives : Primitives :=
  manifestPrimitives.withDigests
    [(rawFrame (registryBefore.refreshed (backup 0)).marshal,
        0x144f18514b1a7da9c017275b67a6dd87262051a1f6a15ebb9134c0bea355247b),
      (rawFrame (registryBefore.refreshed (backup 1)).marshal,
        0xf7d74f85be49134fd93c2f549782c65a466fc05c65a957ca8683dbf9f4d72bd7),
      (rawFrame ((registryBefore.refreshed (backup 0)).refreshed (backup 1)).marshal,
        0x409b0eb57442cadc9bf81b42b9182684ff5be6cdd6a66837940a87e3d717ed64)]

theorem registryPrimitives_digest : registryPrimitives.DigestLength :=
  withDigests_digest _ manifestPrimitives_digest

theorem registryPrimitives_zstd : registryPrimitives.ZstdLaws :=
  withDigests_zstd _ manifestPrimitives_zstd

theorem registryPrimitives_faithful : registryPrimitives.ZstdFaithful := by
  intro limit d b h
  obtain ⟨-, heq⟩ := ite_none_right_eq_some.mp h
  rw [← Option.some.inj heq]
  exact drop_rawFrame d

def updateUUID (i : Fin 2) : Bytes := if i = 0 then ascii "0" else ascii "1"

/-- The two updates. -/
def twoUpdates (i : Fin 2) :
    FsProg (Except RegistryError SourceRegistry × Except RegistrySaveError Unit) :=
  reportedUpdate registryPrimitives (ascii "m") (ascii "s") (updateUUID i) (backup i)

/-- A repository with the registry of the source `s`. -/
def registryImage : Image :=
  ⟨Image.wayTo (sourceRegistriesDir (ascii "m")), [(sampleRegistryPath, 0)],
    [(sampleRegistryText, 0)]⟩

theorem valid_registryImage : registryImage.Valid := ⟨by decide, by decide⟩

/-- Whether each load of the registry comes while no update is at work. -/
def checkTurn {ι : Type} [DecidableEq ι] (path : Bytes) (log : List (ι × Sigma FsCall.Answer))
    (_ : ι) : FsCall → Bool
  | .readFile _ => log.all fun x =>
      !isLoad path x.2 || log.any fun y => decide (y.1 = x.1) && isCommit path y.2
  | _ => true

theorem oneAtATime_of_check {ι : Type} [DecidableEq ι] {path : Bytes}
    {log : List (ι × Sigma FsCall.Answer)} {i : ι} (h : checkTurn path log i c = true) :
    OneAtATime path log i c := by
  rintro rfl j ⟨⟨e, he, hload⟩, hnone⟩
  have hx := all_eq_true.mp h _ he
  rw [hload, Bool.not_true, Bool.false_or] at hx
  obtain ⟨⟨k, e'⟩, hy, hand⟩ := any_eq_true.mp hx
  obtain ⟨hk, hcommit⟩ := Bool.and_eq_true_iff.mp hand
  obtain rfl : k = j := of_decide_eq_true hk
  rw [hnone e' hy] at hcommit
  cases hcommit

/-- An update has ended without an error. -/
def succeeded (p : FsProg (Except RegistryError SourceRegistry × Except RegistrySaveError Unit)) :
    Bool :=
  match p with
  | .ret (.ok _, .ok ()) => true
  | _ => false

theorem ret_of_succeeded
    {p : FsProg (Except RegistryError SourceRegistry × Except RegistrySaveError Unit)}
    (h : succeeded p = true) : ∃ reg, p = .ret (.ok reg, .ok ()) := by
  unfold succeeded at h
  split at h
  · exact ⟨_, rfl⟩
  · cases h

/-- The updates one after the other, and with both loads in front. -/
def inOrder : List (Fin 2) := List.replicate 12 0 ++ List.replicate 12 1
def overlapping : List (Fin 2) := [0, 1] ++ List.replicate 11 0 ++ List.replicate 11 1

/-- The file system before the updates. -/
def registrySystem : FileSystem := (registryImage.disk valid_registryImage).fs

theorem count_before : (currentRegistry registryPrimitives sampleRegistryPath (ascii "s")
    registrySystem).map SourceRegistry.snapshotCount = some 0 := by
  decide +kernel

/-- What is computed is a run of the two updates. -/
theorem interleaved_updates {allowed : List (Fin 2 × Sigma FsCall.Answer) → Fin 2 → FsCall → Prop}
    {check : List (Fin 2 × Sigma FsCall.Answer) → Fin 2 → FsCall → Bool}
    (hcheck : ∀ log i c, check log i c = true → allowed log i c) {turns : List (Fin 2)}
    {log : List (Fin 2 × Sigma FsCall.Answer)}
    {p : Fin 2 → FsProg (Except RegistryError SourceRegistry × Except RegistrySaveError Unit)}
    {i : Subtype Image.Valid}
    (h : replay (Image.stepValid 0) check turns [] twoUpdates
      ⟨registryImage, valid_registryImage⟩ = some (log, p, i)) :
    Interleaved (FsCall.Outcome fun _ => False) allowed twoUpdates registrySystem log p
      (i.1.disk i.2).fs := by
  have hstart : Interleaved (FsCall.Outcome fun _ => False) allowed twoUpdates registrySystem []
      twoUpdates registrySystem := .start
  refine interleaved_replay (fun i : Subtype Image.Valid => (i.1.disk i.2).fs) ?_ hcheck hstart h
  exact fun _ _ _ _ hstep => (Image.outcome_stepValid hstep).files

/-- One after the other, both are counted. -/
theorem no_lost_update_inOrder :
    ∃ (log : List (Fin 2 × Sigma FsCall.Answer)) (p : Fin 2 → FsProg _) (fs : FileSystem),
      Interleaved (FsCall.Outcome fun _ => False) (OneAtATime sampleRegistryPath) twoUpdates
        registrySystem log p fs ∧
      (∀ i, succeeded (p i) = true) ∧
      ∃ i reg, fs.read sampleRegistryPath = some (encodeSourceRegistry registryPrimitives reg) ∧
        reg.snapshotCount = 2 ∧ reg.lastSnapshot = (backup i).timestamp := by
  have hcompute : ((replay (Image.stepValid 0) (checkTurn sampleRegistryPath) inOrder [] twoUpdates
      ⟨registryImage, valid_registryImage⟩).any fun x =>
        decide (∀ i, succeeded (x.2.1 i) = true)) = true := by
    decide +kernel
  obtain ⟨⟨log, p, i⟩, hreplay, hdone⟩ := (any_eq_true _ _).mp hcompute
  have hdone := of_decide_eq_true hdone
  have hrun := interleaved_updates (fun _ _ _ => oneAtATime_of_check) hreplay
  obtain ⟨reg, hreg, hcount⟩ := map_eq_some_iff.mp count_before
  refine ⟨log, p, _, hrun, hdone, ?_⟩
  have hlast := no_lost_update registryPrimitives_digest registryPrimitives_zstd
    registryPrimitives_faithful (by decide) (by decide) hreg hrun
    fun i => ret_of_succeeded (hdone i)
  have htwo : wrap64 (0 + Fintype.card (Fin 2)) = 2 := by decide
  rw [hcount, htwo] at hlast
  exact hlast

/-- Both load before one of them saves: both succeed, and one of them is not counted. -/
theorem update_lost :
    ∃ (log : List (Fin 2 × Sigma FsCall.Answer)) (p : Fin 2 → FsProg _) (fs : FileSystem),
      Interleaved (FsCall.Outcome fun _ => False) (fun _ _ _ => True) twoUpdates registrySystem
        log p fs ∧
      (∀ i, succeeded (p i) = true) ∧
      (currentRegistry registryPrimitives sampleRegistryPath (ascii "s") registrySystem).map
        SourceRegistry.snapshotCount = some 0 ∧
      (currentRegistry registryPrimitives sampleRegistryPath (ascii "s") fs).map
        SourceRegistry.snapshotCount = some 1 := by
  have hcompute : ((replay (Image.stepValid 0) (fun _ _ _ => true) overlapping [] twoUpdates
      ⟨registryImage, valid_registryImage⟩).any fun x =>
        decide ((∀ i, succeeded (x.2.1 i) = true) ∧
          (currentRegistry registryPrimitives sampleRegistryPath (ascii "s")
            (x.2.2.1.disk x.2.2.2).fs).map SourceRegistry.snapshotCount = some 1)) = true := by
    decide +kernel
  obtain ⟨⟨log, p, i⟩, hreplay, hfacts⟩ := (any_eq_true _ _).mp hcompute
  obtain ⟨hdone, hcount⟩ := of_decide_eq_true hfacts
  exact ⟨log, p, _, interleaved_updates (fun _ _ _ _ => trivial) hreplay, hdone, count_before, hcount⟩

end GbfCore
