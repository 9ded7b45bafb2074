import GbfCore.Lib.DiskImage
import GbfCore.Manifest.CheckedLoad
import GbfCore.Manifest.Operations

/-!
# The parsers and their panics (manifest.go)

The functions that read documents of unknown origin, written with the operations that can
panic. Each one agrees with its model that knows no panics, with one exception:
`extractHashesFromJSON` follows the pointers of `Dirs` without looking at them, and a
document can put nil there. `LoadManifestFromData` decodes the same member and refuses
such a document. A byte string makes none of them panic exactly if it has no such
directory, and a directory of files does not make the collector of a source panic exactly
if no text in it has one (`parsers_no_panic_iff`).
-/

namespace GbfCore

open Json Prog

variable {data : Bytes}

namespace Checked

/-! ## The registry -/

section
variable (P : Primitives) (hook : DecryptHook)

/-- The envelope, in `DecodeSourceRegistry`. -/
def registryPayload (data : Bytes) : Checked (Except RegistryError Bytes) := do
  if ← startsWith (registryEnvelopeHeaderSize + 1) registryEnvelopeMagic data then
    match ← stripGBREnvelope P data with
    | none => return .error .checksumMismatch
    | some payload => return .ok payload
  else return .ok data

theorem registryPayload_eq (data : Bytes) :
    registryPayload P data = .ok (GbfCore.registryPayload P data) := by
  rw [registryPayload, ok_bind (startsWith_eq (by decide) data), GbfCore.registryPayload]
  by_cases h : registryEnvelopeHeaderSize < data.length ∧
      data.take registryEnvelopeMagic.length = registryEnvelopeMagic
  · have henv : GbfCore.isGBREnvelope data = true :=
      Bool.and_eq_true_iff.mpr ⟨decide_eq_true h.1.le, decide_eq_true h.2⟩
    rw [if_pos h, if_pos (by simpa using h), ok_bind (stripGBREnvelope_eq P henv)]
    cases GbfCore.stripGBREnvelope P data <;> rfl
  · rw [if_neg h, if_neg (by simpa using h)]
    rfl

/-- The compression, in `DecodeSourceRegistry`. -/
def decompressRegistry (data : Bytes) : Checked (Except RegistryError Bytes) := do
  if ← isCompressed data then
    match P.zstdDecompress maxManifestDecompressedSize data with
    | none => return .error .decompress
    | some data => return .ok data
  else return .ok data

theorem decompressRegistry_eq (data : Bytes) :
    decompressRegistry P data = .ok (GbfCore.decompressRegistry P data) := by
  rw [decompressRegistry, ok_bind (isCompressed_eq data), GbfCore.decompressRegistry]
  split
  · cases P.zstdDecompress maxManifestDecompressedSize data <;> rfl
  · rfl

/-- `DecodeSourceRegistry`. -/
def decodeSourceRegistry (data : Bytes) : Checked (Except RegistryError SourceRegistry) := do
  match ← registryPayload P data with
  | .error e => return .error e
  | .ok data =>
    match ← decompressRegistry P data with
    | .error e => return .error e
    | .ok data =>
      match (parse data).bind SourceRegistry.ofJson with
      | none => return .error .unmarshal
      | some reg =>
        if reg.schemaVersion = 0 then
          return .ok { reg with schemaVersion := sourceRegistrySchemaVersion }
        else if sourceRegistrySchemaVersion < reg.schemaVersion then
          return .error (.unsupportedVersion reg.schemaVersion)
        else return .ok reg

theorem decodeSourceRegistry_eq (data : Bytes) :
    decodeSourceRegistry P data = .ok (GbfCore.decodeSourceRegistry P data) := by
  rw [decodeSourceRegistry, ok_bind (registryPayload_eq P data), GbfCore.decodeSourceRegistry,
    unmarshalRegistry]
  cases GbfCore.registryPayload P data with
  | error e => rfl
  | ok payload =>
    dsimp only
    rw [ok_bind (decompressRegistry_eq P payload)]
    show _ = Except.ok (((GbfCore.decompressRegistry P payload).bind _).bind _)
    cases GbfCore.decompressRegistry P payload with
    | error e => rfl
    | ok text =>
      dsimp only [Except.bind]
      cases (parse text).bind SourceRegistry.ofJson with
      | none => rfl
      | some reg =>
        dsimp only
        split
        · rfl
        · split <;> rfl

/-! ## The hashes of a text -/

/-- The loop over `Dirs` in `extractHashesFromJSON`. -/
def dirHashes : List (Bytes × Option DirLite) → Checked (List Bytes)
  | [] => return []
  | e :: rest => do
    let d ← deref e.2
    let hashes ← dirHashes rest
    return (fileLites d.files).flatMap FileLite.hashes ++ hashes

/-- `extractHashesFromJSON`. -/
def extractHashesFromJSON (data : Bytes) : Checked (Except ExtractError (List Bytes)) :=
  match (parse data).bind ManifestLite.ofJson with
  | none => return .error .parse
  | some m => do
    let hashes ← dirHashes m.dirEntries
    return .ok (hashes ++ (fileLites m.files).flatMap FileLite.hashes)

end

end Checked

/-- The text is that of a manifest, as `extractHashesFromJSON` decodes it, and one of its
directories is null. -/
def NullDir (data : Bytes) : Prop :=
  ∃ m, (parse data).bind ManifestLite.ofJson = some m ∧ ∃ key, (key, none) ∈ m.dirEntries

namespace Checked

theorem dirHashes_ok_iff {l : List (Bytes × Option DirLite)} :
    (∃ hashes, dirHashes l = .ok hashes) ↔ ¬ ∃ key, (key, none) ∈ l := by
  induction l with
  | nil => simp [dirHashes, pure, Except.pure]
  | cons e rest ih =>
    obtain ⟨key, d⟩ := e
    cases d with
    | none =>
      have hpanic : dirHashes ((key, none) :: rest) = .error .nilPointer := rfl
      rw [hpanic]
      exact iff_of_false nofun fun h => h ⟨key, List.mem_cons_self⟩
    | some d =>
      have hrest : (∃ key', (key', none) ∈ (key, some d) :: rest) ↔ ∃ key', (key', none) ∈ rest := by
        simp
      rw [hrest, ← ih, dirHashes, ok_bind (rfl : deref (some d) = .ok d)]
      constructor
      · rintro ⟨hashes, h⟩
        cases hr : dirHashes rest with
        | error p =>
          rw [hr] at h
          cases h
        | ok l => exact ⟨l, rfl⟩
      · rintro ⟨hashes, h⟩
        exact ⟨_, ok_bind h _⟩

theorem extractHashesFromJSON_ok_iff :
    (∃ r, extractHashesFromJSON data = .ok r) ↔ ¬ NullDir data := by
  unfold extractHashesFromJSON NullDir
  cases (parse data).bind ManifestLite.ofJson with
  | none => exact iff_of_true ⟨_, rfl⟩ fun ⟨_, hm, _⟩ => nomatch hm
  | some m =>
    have hsome : (∃ m', some m = some m' ∧ ∃ key, (key, none) ∈ m'.dirEntries) ↔
        ∃ key, (key, none) ∈ m.dirEntries := by
      simp
    rw [hsome, ← dirHashes_ok_iff]
    constructor
    · rintro ⟨r, h⟩
      cases hr : dirHashes m.dirEntries with
      | error p =>
        dsimp only at h
        rw [hr] at h
        cases h
      | ok l => exact ⟨l, rfl⟩
    · rintro ⟨hashes, h⟩
      exact ⟨_, ok_bind h _⟩

/-! ## The hashes of a directory -/

section
variable (P : Primitives) (hook : DecryptHook)

/-- What `extractHashesFromManifestFile` makes of a file, behind the check of the checksum. -/
def hashesOf (checked : Except LoadError Unit) (data : Bytes) :
    Checked (Except ExtractFileError (List Bytes)) :=
  match checked with
  | .error e => return .error (.load e)
  | .ok () => do
    match ← manifestText P hook data with
    | .error e => return .error (.load e)
    | .ok text => do
      let r ← extractHashesFromJSON text
      return r.mapError .extract

/-- `extractHashesFromManifestFile`. -/
def extractHashesFromManifestFile (path : Bytes) :
    FsProg (Checked (Except ExtractFileError (List Bytes))) := do
  match ← Fs.readFile path with
  | .error _ => return .ok (.error (.load .read))
  | .ok data =>
    match isGBREnvelope data with
    | .error p => return .error p
    | .ok true => return hashesOf P hook (.ok ()) data
    | .ok false => do
      let checked ← verifyChecksumFile P path data
      return hashesOf P hook checked data

/-- The loop of `CollectAliveHashesStreaming`. A panic ends it. -/
def collectFrom (dir : Bytes) : List DirEntry → SortedMap Bytes Bool →
    FsProg (Checked (SortedMap Bytes Bool × List (Bytes × ExtractFileError)))
  | [], alive => return .ok (alive, [])
  | e :: rest, alive => do
    match ← extractHashesFromManifestFile P hook (pathJoin [dir, e.name]) with
    | .error p => return .error p
    | .ok (.error err) =>
      let r ← collectFrom dir rest alive
      return r.map fun r => (r.1, (e.name, err) :: r.2)
    | .ok (.ok hashes) =>
      collectFrom dir rest (hashes.foldl (fun alive h => alive.insert h true) alive)

/-- `CollectAliveHashesStreaming`. -/
def collectAliveHashesStreaming (metaDir cloudID : Bytes) :
    FsProg (Checked (Except OpError (SortedMap Bytes Bool × List (Bytes × ExtractFileError)))) := do
  let dir := manifestDir metaDir cloudID
  match ← readManifestFiles dir with
  | .error .notExist => return .ok (.ok (.empty, []))
  | .error e => return .ok (.error (.readDir e))
  | .ok entries =>
    let r ← collectFrom P hook dir entries .empty
    return r.map .ok

end

end Checked

/-! ## Files with such a text -/

/-- The file can be read, its checksum is right, and the text in it has a null directory. -/
structure Poisoned (P : Primitives) (hook : DecryptHook) (unreadable : Bytes → Prop)
    (fs : FileSystem) (path data text : Bytes) : Prop where
  readable : ¬ unreadable path
  read : fs.read path = some data
  checksum : isGBREnvelope data = true ∨
    ¬ unreadable (manifestChecksumPath path) ∧ verifyManifestChecksum P fs path data = .ok ()
  opens : manifestText P hook data = .ok text
  null : NullDir text

/-- One of the manifest files of a source is such a file. -/
def PoisonedSource (P : Primitives) (hook : DecryptHook) (unreadable : Bytes → Prop) (d : Disk)
    (metaDir cloudID : Bytes) : Prop :=
  d.isDir (manifestDir metaDir cloudID) ∧
    ∃ name data text, PathName name ∧ slash ∉ name ∧ isManifestFile name = true ∧
      d.fs.inode (manifestDir metaDir cloudID ++ slash :: name) ≠ none ∧
      Poisoned P hook unreadable d.fs (pathJoin [manifestDir metaDir cloudID, name]) data text

namespace Checked

section
variable {P : Primitives} {hook : DecryptHook} {unreadable : Bytes → Prop} {fs fs' : FileSystem}

theorem hashesOf_ok_iff {checked : Except LoadError Unit} :
    (∃ r, hashesOf P hook checked data = .ok r) ↔
      ¬ (checked = .ok () ∧ ∃ text, GbfCore.manifestText P hook data = .ok text ∧ NullDir text) := by
  cases checked with
  | error e => exact iff_of_true ⟨_, rfl⟩ fun h => nomatch h.1
  | ok _ =>
    unfold hashesOf
    dsimp only
    rw [ok_bind (manifestText_eq P hook data)]
    cases GbfCore.manifestText P hook data with
    | error e => exact iff_of_true ⟨_, rfl⟩ fun ⟨_, _, htext, _⟩ => nomatch htext
    | ok text =>
      have htext : (Except.ok () = (Except.ok () : Except LoadError Unit) ∧
          ∃ text', (Except.ok text : Except LoadError Bytes) = .ok text' ∧ NullDir text') ↔
            NullDir text := by
        simp
      rw [htext, ← extractHashesFromJSON_ok_iff]
      dsimp only
      cases extractHashesFromJSON text with
      | error p => exact iff_of_false nofun nofun
      | ok r => exact iff_of_true ⟨_, rfl⟩ ⟨_, rfl⟩

theorem exec_verifyChecksumFile_iff {path : Bytes} {r : Except LoadError Unit}
    (h : (verifyChecksumFile P path data).Exec (FsCall.Outcome unreadable) fs r fs') :
    fs' = fs ∧ (r = .ok () ↔ ¬ unreadable (manifestChecksumPath path) ∧
      verifyManifestChecksum P fs path data = .ok ()) := by
  obtain ⟨expected, fs₁, hread, hrest⟩ := exec_bind.mp h
  obtain ⟨rfl, ⟨hun, rfl⟩ | ⟨hun, hread⟩⟩ := exec_ask.mp hread
  · obtain ⟨rfl, rfl⟩ := hrest
    exact ⟨rfl, iff_of_false nofun fun hok => hok.1 hun⟩
  unfold verifyManifestChecksum
  cases hfile : fs₁.read (manifestChecksumPath path) with
  | none =>
    rw [hfile] at hread
    subst hread
    obtain ⟨rfl, rfl⟩ := hrest
    exact ⟨rfl, iff_of_false nofun fun hok => nomatch hok.2⟩
  | some text =>
    rw [hfile] at hread
    subst hread
    obtain ⟨rfl, rfl⟩ := hrest
    exact ⟨rfl, (and_iff_right hun).symm⟩

/-- One file: its content alone decides. -/
theorem exec_extractHashesFromManifestFile {path : Bytes}
    {r : Checked (Except ExtractFileError (List Bytes))}
    (h : (extractHashesFromManifestFile P hook path).Exec (FsCall.Outcome unreadable) fs r fs') :
    fs' = fs ∧ ((∃ v, r = .ok v) ↔ ¬ ∃ data text, Poisoned P hook unreadable fs path data text) := by
  obtain ⟨content, fs₁, hread, hrest⟩ := exec_bind.mp h
  obtain ⟨rfl, ⟨hun, rfl⟩ | ⟨hun, hread⟩⟩ := exec_ask.mp hread
  · obtain ⟨rfl, rfl⟩ := hrest
    exact ⟨rfl, iff_of_true ⟨_, rfl⟩ fun ⟨_, _, hp⟩ => hp.readable hun⟩
  cases hfile : fs₁.read path with
  | none =>
    rw [hfile] at hread
    subst hread
    obtain ⟨rfl, rfl⟩ := hrest
    refine ⟨rfl, iff_of_true ⟨_, rfl⟩ fun ⟨_, _, hp⟩ => ?_⟩
    exact nomatch hp.read.symm.trans hfile
  | some data =>
    rw [hfile] at hread
    subst hread
    dsimp only at hrest
    rw [isGBREnvelope_eq data] at hrest
    have hpoisoned : ∀ {checked : Except LoadError Unit},
        (checked = .ok () ↔ GbfCore.isGBREnvelope data = true ∨
          ¬ unreadable (manifestChecksumPath path) ∧
            verifyManifestChecksum P fs₁ path data = .ok ()) →
        ((∃ v, hashesOf P hook checked data = .ok v) ↔
          ¬ ∃ data text, Poisoned P hook unreadable fs₁ path data text) := by
      intro checked hchecked
      rw [hashesOf_ok_iff, not_iff_not, hchecked]
      constructor
      · rintro ⟨hsum, text, htext, hnull⟩
        exact ⟨data, text, hun, hfile, hsum, htext, hnull⟩
      · rintro ⟨data', text, hp⟩
        obtain rfl : data = data' := Option.some.inj (hfile.symm.trans hp.read)
        exact ⟨hp.checksum, text, hp.opens, hp.null⟩
    cases henv : GbfCore.isGBREnvelope data with
    | true =>
      rw [henv] at hrest
      obtain ⟨rfl, rfl⟩ := hrest
      exact ⟨rfl, hpoisoned (iff_of_true rfl (.inl henv))⟩
    | false =>
      rw [henv] at hrest
      obtain ⟨checked, fs₂, hcheck, hret⟩ := exec_bind.mp hrest
      obtain ⟨rfl, hiff⟩ := exec_verifyChecksumFile_iff hcheck
      obtain ⟨rfl, rfl⟩ := hret
      refine ⟨rfl, hpoisoned (hiff.trans ?_)⟩
      rw [henv]
      exact (or_iff_right Bool.false_ne_true).symm

/-- The loop stops at the first such file. -/
theorem exec_collectFrom {dir : Bytes} {entries : List DirEntry} {alive : SortedMap Bytes Bool}
    {r : Checked (SortedMap Bytes Bool × List (Bytes × ExtractFileError))}
    (h : (collectFrom P hook dir entries alive).Exec (FsCall.Outcome unreadable) fs r fs') :
    (∃ v, r = .ok v) ↔ ∀ e ∈ entries,
      ¬ ∃ data text, Poisoned P hook unreadable fs (pathJoin [dir, e.name]) data text := by
  induction entries generalizing alive r fs fs' with
  | nil =>
    obtain ⟨rfl, -⟩ := h
    exact iff_of_true ⟨_, rfl⟩ nofun
  | cons e rest ih =>
    obtain ⟨file, fs₁, hfile, hrest⟩ := exec_bind.mp h
    obtain ⟨rfl, hiff⟩ := exec_extractHashesFromManifestFile hfile
    rw [List.forall_mem_cons, ← hiff]
    rcases file with p | err | hashes
    · obtain ⟨rfl, -⟩ := hrest
      exact iff_of_false nofun fun hok => nomatch hok.1
    · obtain ⟨tail, fs₂, htail, hret⟩ := exec_bind.mp hrest
      obtain ⟨rfl, -⟩ := hret
      rw [← ih htail]
      cases tail with
      | error p => exact iff_of_false nofun fun hok => nomatch hok.2
      | ok v => exact iff_of_true ⟨_, rfl⟩ ⟨⟨_, rfl⟩, v, rfl⟩
    · rw [← ih hrest]
      exact (and_iff_right ⟨_, rfl⟩).symm

/-- The collector of a source, on a disk. Where the listing fails it returns at once. -/
theorem exec_collectAliveHashesStreaming {faults : Disk.Faults} {now : Int} {d d' : Disk}
    {metaDir cloudID : Bytes}
    {r : Checked (Except OpError (SortedMap Bytes Bool × List (Bytes × ExtractFileError)))}
    (h : (collectAliveHashesStreaming P hook metaDir cloudID).Exec (Disk.Outcome faults now) d r d') :
    (¬ PoisonedSource P hook faults.unreadable d metaDir cloudID → ∃ v, r = .ok v) ∧
      (¬ faults.io → (∃ v, r = .ok v) →
        ¬ PoisonedSource P hook faults.unreadable d metaDir cloudID) := by
  obtain ⟨listing, d₁, hlisting, hrest⟩ := exec_bind.mp h
  obtain ⟨files, d₂, hfiles, hret⟩ := exec_bind.mp hlisting
  obtain ⟨rfl, rfl⟩ := hret
  obtain ⟨answer, d₃, hdir, hret⟩ := exec_bind.mp hfiles
  obtain ⟨rfl, rfl⟩ := hret
  have hout := exec_ask.mp hdir
  obtain rfl := hout.readDir
  rcases answer with e | entries
  · have hanswer : faults.io ∨ ¬ d₁.isDir (manifestDir metaDir cloudID) ∧ _ := hout.answers
    have hok : ∃ v, r = .ok v := by
      cases e <;> exact ⟨_, hrest.1⟩
    refine ⟨fun _ => hok, fun hio _ hpoison => ?_⟩
    rcases hanswer with hyes | ⟨hno, -⟩
    · exact hio hyes
    · exact hno hpoison.1
  · have hlists : d₁.isDir (manifestDir metaDir cloudID) ∧
        d₁.Lists (manifestDir metaDir cloudID) entries := hout.answers
    obtain ⟨found, d₂, hloop, hret⟩ := exec_bind.mp hrest
    obtain ⟨rfl, -⟩ := hret
    have hsome : (∃ v, (found.map Except.ok : Checked (Except OpError _)) = .ok v) ↔
        ∃ v, found = .ok v := by
      cases found with
      | error p => exact iff_of_false nofun nofun
      | ok v => exact iff_of_true ⟨_, rfl⟩ ⟨_, rfl⟩
    have hiff := exec_collectFrom (Disk.exec_files hloop)
    simp only [List.mem_filter, and_imp] at hiff
    rw [hsome, hiff]
    constructor
    · rintro hclean e he hfile hname ⟨data, text, hp⟩
      refine hclean ⟨hlists.1, e.name, data, text, e.pathName, e.slash, hname, ?_, hp⟩
      exact hlists.2.isFile e he (by simpa using hfile)
    · rintro - hclean ⟨-, name, data, text, hname, hslash, hfile, hinode, hp⟩
      obtain ⟨e, he, rfl⟩ := hlists.2.all hname hslash fun habsent => hinode habsent.1
      refine hclean e he ?_ hfile ⟨data, text, hp⟩
      by_contra hdir
      exact hinode (d₁.apart (hlists.2.isDir e he (by simpa using hdir)))

end

end Checked

/-! ## Main result -/

/-- None of the parsers panics on the byte string, and the manifest that comes out of it can
be gone through. -/
structure NoPanic (P : Primitives) (hook : DecryptHook) (data : Bytes) : Prop where
  load : ∃ r, Checked.loadManifestFromData P hook data = .ok r ∧ ∀ m, r = .ok m → Checked.Walks m
  extract : ∃ r, Checked.extractHashesFromJSON data = .ok r
  registry : ∃ r, Checked.decodeSourceRegistry P data = .ok r

theorem structured_of_load {P : Primitives} {hook : DecryptHook} {m : Manifest}
    (h : loadManifestFromData P hook data = .ok m) : m.Structured := by
  obtain ⟨text, -, hdecode⟩ := bind_eq_ok.mp h
  unfold decodeManifest at hdecode
  split at hdecode
  · cases hdecode
  · split at hdecode
    · cases hdecode
    · obtain ⟨hvalid, hm⟩ := then_eq_ok.mp hdecode
      cases hm
      exact validateStructure_ok_iff.mp (mapError_eq_ok.mp hvalid)

/-- **The parsers panic on null directories only.** -/
theorem parsers_no_panic_iff (P : Primitives) (hook : DecryptHook) :
    (∀ data, NoPanic P hook data ↔ ¬ NullDir data) ∧
      ∀ {faults : Disk.Faults} {now : Int} {d d' : Disk} {metaDir cloudID : Bytes}
        {r : Checked (Except OpError (SortedMap Bytes Bool × List (Bytes × ExtractFileError)))},
        (Checked.collectAliveHashesStreaming P hook metaDir cloudID).Exec
          (Disk.Outcome faults now) d r d' →
        (¬ PoisonedSource P hook faults.unreadable d metaDir cloudID → ∃ v, r = .ok v) ∧
          (¬ faults.io → (∃ v, r = .ok v) →
            ¬ PoisonedSource P hook faults.unreadable d metaDir cloudID) := by
  refine ⟨fun data => ?_, Checked.exec_collectAliveHashesStreaming⟩
  constructor
  · exact fun h => Checked.extractHashesFromJSON_ok_iff.mp h.extract
  · intro hnull
    exact {
      load := ⟨_, Checked.loadManifestFromData_eq P hook data, fun m hm =>
        .of_structured (structured_of_load hm)⟩
      extract := Checked.extractHashesFromJSON_ok_iff.mpr hnull
      registry := ⟨_, Checked.decodeSourceRegistry_eq P data⟩ }

/-! ## A null directory -/

def nullDirText : Bytes :=
  ascii "\x7b\"version\":2,\"dirs\":\x7b\"a\":null\x7d\x7d"

/-- With the digest of `nullDirText`. -/
def nullDirPrimitives : Primitives :=
  samplePrimitives.withDigests
    [(nullDirText, 0x75b05bc9c9cfecad96168810344526b4f42e6e94066d083027731c01a0553cd6)]

/-- A source with one manifest file, with `nullDirText` in an envelope. -/
def nullDirImage : Image where
  dirs := [ascii "m/manifests/s"]
  names := [(ascii "m/manifests/s/1_d.json", 0)]
  inodes := [(gbrEnvelope nullDirPrimitives nullDirText, 0)]

theorem nullDirImage_valid : nullDirImage.Valid := by decide +kernel

/-- The empty object is harmless, and the collector panics on the source with the null
directory. -/
theorem parsers_no_panic_sample :
    NoPanic nullDirPrimitives none (ascii "\x7b\x7d") ∧
      ∃ p d', (Checked.collectAliveHashesStreaming nullDirPrimitives none (ascii "m")
          (ascii "s")).Exec (Disk.Outcome .none 0) (nullDirImage.disk nullDirImage_valid)
          (.error p) d' ∧
        PoisonedSource nullDirPrimitives none (fun _ => False)
          (nullDirImage.disk nullDirImage_valid) (ascii "m") (ascii "s") := by
  have htheorem := parsers_no_panic_iff nullDirPrimitives none
  constructor
  · have hdirs : ((parse (ascii "\x7b\x7d")).bind ManifestLite.ofJson).all
        (fun m => m.dirEntries.all fun e => e.2.isSome) = true := by
      decide +kernel
    refine (htheorem.1 _).mpr fun ⟨m, hm, key, hkey⟩ => ?_
    rw [hm] at hdirs
    exact absurd (List.all_eq_true.mp hdirs _ hkey) Bool.false_ne_true
  · have hcomputed : (nullDirImage.run 0 (Checked.collectAliveHashesStreaming nullDirPrimitives none
        (ascii "m") (ascii "s"))).any
          (fun p => decide (p.1.toOption.isNone ∧ p.2.2.Valid)) = true := by
      decide +kernel
    obtain ⟨⟨r, log, i⟩, hrun, hok⟩ := (Option.any_eq_true _ _).mp hcomputed
    obtain ⟨hr, hvalid⟩ := of_decide_eq_true hok
    have hexec := exec_of_record (Image.record_run nullDirImage_valid hvalid hrun)
    rcases r with p | v
    · refine ⟨p, _, hexec, ?_⟩
      by_contra hclean
      exact nomatch (htheorem.2 hexec).1 hclean
    · exact absurd hr Bool.false_ne_true

/-- `LoadManifestFromData` refuses the text, and `extractHashesFromJSON` panics. -/
theorem extract_panics :
    Checked.loadManifestFromData nullDirPrimitives none nullDirText =
        .ok (.error (.validation (.nilDir (ascii "a")))) ∧
      Checked.extractHashesFromJSON nullDirText = .error .nilPointer := by
  constructor
  · rw [Checked.loadManifestFromData_eq]
    have h : loadManifestFromData nullDirPrimitives none nullDirText =
        .error (.validation (.nilDir (ascii "a"))) := by
      decide +kernel
    rw [h]
  · decide +kernel

end GbfCore
