import GbfCore.Lib.Calendar
import GbfCore.Lib.Json.Decode
import GbfCore.Manifest.Validate

/-!
# Manifests as JSON (manifest.go)

`Manifest.toJson` is what `json.Marshal` makes of a manifest, `Manifest.ofJson` what
`json.Unmarshal` reads, with the field names and the `omitempty` options of the
struct tags. What was written is read back up to the replacement of malformed UTF-8
(`ofJson_coerce_toJson`).

While decoding, a slice carries what its backing array holds behind its end, because
a later member of the same field is decoded into it.
-/

namespace GbfCore

open Json List Option

variable {m : Manifest}

/-! ## Modification times -/

/-- A number as an instant: seconds, or a smaller unit if that would be too far in
the future. -/
def flexTimeOfInt (iv : Int) : Bytes :=
  if 1000000000000000000 < iv then formatRFC3339Nano (iv / 10 ^ 9) (iv % 10 ^ 9).toNat
  else if 100000000000000 < iv then formatRFC3339Nano (iv / 10 ^ 6) ((iv % 10 ^ 6).toNat * 10 ^ 3)
  else if 100000000000 < iv then formatRFC3339Nano (iv / 10 ^ 3) ((iv % 10 ^ 3).toNat * 10 ^ 6)
  else formatRFC3339Nano iv 0

/-- `FlexTime.UnmarshalJSON`. It is called for `null` too. -/
def decodeFlexTime : Decoder Bytes
  | .str s, _ => some s
  | .null, _ => some []
  | .num text, _ =>
    match parseInt64 text with
    | some iv => some (flexTimeOfInt iv)
    | none => some text
  | _, _ => none

/-! ## Files -/

def chunkFields : Fields ChunkRef :=
  [(ascii "hash", onField ChunkRef.hash (fun c x => { c with hash := x }) decodeString),
    (ascii "size", onField ChunkRef.size (fun c x => { c with size := x }) decodeInt64)]

/-- `ChunkRef{}` -/
def ChunkRef.zero : ChunkRef := ⟨[], 0⟩

/-- `FileEntry{}` -/
def FileEntry.zero : FileEntry := ⟨[], [], 0, [], 0, [], []⟩

/-- A file entry in memory. -/
structure FileCell where
  entry : FileEntry
  /-- behind the end of `Chunks` -/
  spare : List ChunkRef

def FileCell.zero : FileCell := ⟨.zero, []⟩

/-- Into `Chunks`. -/
def decodeChunks : Decoder FileCell := fun v f =>
  (decodeSlice (decodeStruct chunkFields) .zero v ⟨some f.entry.chunks, f.spare⟩).map fun s =>
    ⟨{ f.entry with chunks := s.elems.getD [] }, s.spare⟩

/-- The members of an entry, with this name for its name and this decoder for its time. -/
def entryFields (name : Bytes) (decodeMtime : Decoder Bytes) : Fields FileCell :=
  [(name, onField (·.entry.name) (fun f x => { f with entry.name := x }) decodeString),
    (ascii "contentHash",
      onField (·.entry.contentHash) (fun f x => { f with entry.contentHash := x }) decodeString),
    (ascii "size", onField (·.entry.size) (fun f x => { f with entry.size := x }) decodeInt64),
    (ascii "mtime", onField (·.entry.mtime) (fun f x => { f with entry.mtime := x }) decodeMtime),
    (ascii "mode", onField (·.entry.mode) (fun f x => { f with entry.mode := x }) decodeUint32),
    (ascii "status",
      onField (·.entry.status) (fun f x => { f with entry.status := x }) decodeString),
    (ascii "chunks", decodeChunks)]

def fileFields : Fields FileCell := entryFields (ascii "name") decodeFlexTime

def ChunkRef.toJson (c : ChunkRef) : Value :=
  .obj [(ascii "hash", .str c.hash), (ascii "size", .int c.size)]

def FileEntry.toJson (f : FileEntry) : Value :=
  .obj ([(ascii "name", .str f.name), (ascii "contentHash", .str f.contentHash),
      (ascii "size", .int f.size), (ascii "mtime", .str f.mtime), (ascii "mode", .int f.mode)] ++
    omitEmpty f.status.isEmpty (ascii "status") (.str f.status) ++
    omitEmpty f.chunks.isEmpty (ascii "chunks") (encodeSlice ChunkRef.toJson (some f.chunks)))

/-! ## Directories -/

/-- A directory in memory. -/
structure DirCell where
  files : Slice FileCell
  subDirs : Slice Bytes

def DirCell.zero : DirCell := ⟨.zero, .zero⟩

/-- The directory without what is behind its slices. -/
def DirCell.dir (d : DirCell) : Dir := ⟨d.files.elems.map (·.map FileCell.entry), d.subDirs.elems⟩

def dirFields : Fields DirCell :=
  [(ascii "files", onField DirCell.files (fun d x => { d with files := x })
      (decodeSlice (decodeStruct fileFields) .zero)),
    (ascii "subdirs", onField DirCell.subDirs (fun d x => { d with subDirs := x })
      (decodeSlice decodeString []))]

/-- Into a new `*Dir`. -/
def decodeDir (v : Value) : Option (Option Dir) :=
  (decodePtr (decodeStruct dirFields) .zero v).map fun d => d.map DirCell.dir

def Dir.toJson (d : Dir) : Value :=
  .obj [(ascii "files", encodeSlice FileEntry.toJson d.files),
    (ascii "subdirs", encodeSlice Value.str d.subDirs)]

/-! ## Manifests -/

def statsFields : Fields ManifestStats :=
  [(ascii "fileCount",
      onField ManifestStats.fileCount (fun s x => { s with fileCount := x }) decodeInt64),
    (ascii "totalSize",
      onField ManifestStats.totalSize (fun s x => { s with totalSize := x }) decodeInt64),
    (ascii "newFiles",
      onField ManifestStats.newFiles (fun s x => { s with newFiles := x }) decodeInt64),
    (ascii "changedFiles",
      onField ManifestStats.changedFiles (fun s x => { s with changedFiles := x }) decodeInt64),
    (ascii "unchangedFiles",
      onField ManifestStats.unchangedFiles (fun s x => { s with unchangedFiles := x }) decodeInt64),
    (ascii "deletedFiles",
      onField ManifestStats.deletedFiles (fun s x => { s with deletedFiles := x }) decodeInt64),
    (ascii "newBytes",
      onField ManifestStats.newBytes (fun s x => { s with newBytes := x }) decodeInt64),
    (ascii "scanErrors",
      onField ManifestStats.scanErrors (fun s x => { s with scanErrors := x }) decodeInt64)]

def manifestFields : Fields Manifest :=
  [(ascii "version", onField Manifest.version (fun m x => { m with version := x }) decodeInt64),
    (ascii "sourceId", onField Manifest.sourceID (fun m x => { m with sourceID := x }) decodeInt64),
    (ascii "cloudId", onField Manifest.cloudID (fun m x => { m with cloudID := x }) decodeString),
    (ascii "sourceName",
      onField Manifest.sourceName (fun m x => { m with sourceName := x }) decodeString),
    (ascii "sourcePath",
      onField Manifest.sourcePath (fun m x => { m with sourcePath := x }) decodeString),
    (ascii "timestamp",
      onField Manifest.timestamp (fun m x => { m with timestamp := x }) decodeString),
    (ascii "deviceId", onField Manifest.deviceID (fun m x => { m with deviceID := x }) decodeString),
    (ascii "dirs", onField Manifest.dirs (fun m x => { m with dirs := x }) (decodeMap decodeDir)),
    (ascii "stats",
      onField Manifest.stats (fun m x => { m with stats := x }) (decodeStruct statsFields)),
    (ascii "completeness",
      onField Manifest.completeness (fun m x => { m with completeness := x }) decodeString)]

/-- `json.Unmarshal` into a new `Manifest`, from the value of the text. -/
def Manifest.ofJson (v : Value) : Option Manifest := decodeStruct manifestFields v .zero

def ManifestStats.toJson (s : ManifestStats) : Value :=
  .obj ([(ascii "fileCount", .int s.fileCount), (ascii "totalSize", .int s.totalSize),
      (ascii "newFiles", .int s.newFiles), (ascii "changedFiles", .int s.changedFiles),
      (ascii "unchangedFiles", .int s.unchangedFiles), (ascii "deletedFiles", .int s.deletedFiles),
      (ascii "newBytes", .int s.newBytes)] ++
    omitEmpty (s.scanErrors == 0) (ascii "scanErrors") (.int s.scanErrors))

/-- The value that `json.Marshal` writes. -/
def Manifest.toJson (m : Manifest) : Value :=
  .obj ([(ascii "version", .int m.version), (ascii "sourceId", .int m.sourceID)] ++
    (omitEmpty m.cloudID.isEmpty (ascii "cloudId") (.str m.cloudID) ++
      ([(ascii "sourceName", .str m.sourceName), (ascii "sourcePath", .str m.sourcePath),
          (ascii "timestamp", .str m.timestamp), (ascii "deviceId", .str m.deviceID),
          (ascii "dirs", encodeMap (encodePtr Dir.toJson) m.dirs),
          (ascii "stats", m.stats.toJson)] ++
        omitEmpty m.completeness.isEmpty (ascii "completeness") (.str m.completeness))))

/-- `json.Marshal`, which cannot fail for a manifest. -/
def Manifest.marshal (m : Manifest) : Bytes := m.toJson.render

/-! ## Reading what was written

Strings come back with the replacement character for what is not UTF-8. -/

/-- The numbers of a file entry fit their types. -/
@[mk_iff]
structure FileEntry.Typed (f : FileEntry) : Prop where
  size : IsInt64 f.size
  mode : f.mode < 2 ^ 32
  chunks : ∀ c ∈ f.chunks, IsInt64 c.size

instance (f : FileEntry) : Decidable f.Typed := decidable_of_iff' _ (FileEntry.typed_iff f)

@[mk_iff]
structure ManifestStats.Typed (s : ManifestStats) : Prop where
  fileCount : IsInt64 s.fileCount
  totalSize : IsInt64 s.totalSize
  newFiles : IsInt64 s.newFiles
  changedFiles : IsInt64 s.changedFiles
  unchangedFiles : IsInt64 s.unchangedFiles
  deletedFiles : IsInt64 s.deletedFiles
  newBytes : IsInt64 s.newBytes
  scanErrors : IsInt64 s.scanErrors

/-- The numbers of a manifest fit their types, as those of a Go value do. -/
@[mk_iff]
structure Manifest.Typed (m : Manifest) : Prop where
  version : IsInt64 m.version
  sourceID : IsInt64 m.sourceID
  stats : m.stats.Typed
  files : ∀ f ∈ m.files, f.Typed

instance (s : ManifestStats) : Decidable s.Typed := decidable_of_iff' _ (ManifestStats.typed_iff s)

instance (m : Manifest) : Decidable m.Typed := decidable_of_iff' _ (Manifest.typed_iff m)

def ChunkRef.sanitized (c : ChunkRef) : ChunkRef := { c with hash := coerce c.hash }

def FileEntry.sanitized (f : FileEntry) : FileEntry :=
  { f with
    name := coerce f.name
    contentHash := coerce f.contentHash
    mtime := coerce f.mtime
    status := coerce f.status
    chunks := f.chunks.map ChunkRef.sanitized }

def Dir.sanitized (d : Dir) : Dir :=
  ⟨d.files.map (·.map FileEntry.sanitized), d.subDirs.map (·.map coerce)⟩

/-- Of two directories whose paths become the same text the last one remains. -/
def sanitizedDirs (dirs : DirMap) : DirMap :=
  dirs.entries.foldl (fun m e => m.insert (coerce e.1) (e.2.map Dir.sanitized)) .empty

/-- The serialized fields as they are read back. -/
def Manifest.sanitized (m : Manifest) : Manifest :=
  { m with
    cloudID := coerce m.cloudID
    sourceName := coerce m.sourceName
    sourcePath := coerce m.sourcePath
    timestamp := coerce m.timestamp
    deviceID := coerce m.deviceID
    dirs := m.dirs.map sanitizedDirs
    completeness := coerce m.completeness
    filePath := [] }

theorem chunkFields_named : chunkFields.Named := ⟨by decide, by decide⟩
theorem fileFields_named : fileFields.Named := ⟨by decide, by decide⟩
theorem dirFields_named : dirFields.Named := ⟨by decide, by decide⟩
theorem statsFields_named : statsFields.Named := ⟨by decide, by decide⟩
theorem manifestFields_named : manifestFields.Named := ⟨by decide, by decide⟩

theorem IsInt64.decode {i : Int} (h : IsInt64 i) (cur : Int) :
    decodeInt64 (Value.int i).coerce cur = some i :=
  decodeInt64_int h.lower h.upper cur

theorem decodeMode {mode : Nat} (h : mode < 2 ^ 32) (cur : Nat) :
    decodeUint32 (Value.int mode).coerce cur = some mode :=
  decodeUint32_int h cur

theorem coerce_of_isEmpty {s : Bytes} (h : s.isEmpty = true) : coerce s = [] := by
  rw [isEmpty_iff.mp h]
  rfl

theorem decode_chunk {c : ChunkRef} (h : IsInt64 c.size) :
    decodeStruct chunkFields c.toJson.coerce .zero = some c.sanitized := by
  refine decodeMembers_next chunkFields_named 0 rfl rfl ?_
  exact decodeMembers_written chunkFields_named 1 rfl (onField_eq_some (h.decode _))

theorem decode_chunks {f : FileCell} {chunks : List ChunkRef} (h : ∀ c ∈ chunks, IsInt64 c.size)
    (hf : (⟨some f.entry.chunks, f.spare⟩ : Slice ChunkRef).memory = []) :
    decodeChunks (encodeSlice ChunkRef.toJson (some chunks)).coerce f =
      some ⟨{ f.entry with chunks := chunks.map ChunkRef.sanitized }, []⟩ := by
  have helem : ∀ l, some chunks = some l → ∀ c ∈ l,
      decodeStruct chunkFields c.toJson.coerce .zero = some c.sanitized := by
    intro l hl c hc
    cases hl
    exact decode_chunk (h c hc)
  rw [decodeChunks, coerce_encodeSlice, decodeSlice_encodeSlice hf helem]
  rfl

theorem decode_file {f : FileEntry} (h : f.Typed) :
    decodeStruct fileFields f.toJson.coerce .zero = some ⟨f.sanitized, []⟩ := by
  refine decodeMembers_next fileFields_named 0 rfl rfl ?_
  refine decodeMembers_next fileFields_named 1 rfl rfl ?_
  refine decodeMembers_next fileFields_named 2 rfl (h.size.decode _) ?_
  refine decodeMembers_next fileFields_named 3 rfl rfl ?_
  refine decodeMembers_next fileFields_named 4 rfl (decodeMode h.mode _) ?_
  show decodeMembers fileFields (Value.coerceMembers (_ ++ omitEmpty _ _ _))
    ⟨⟨coerce f.name, coerce f.contentHash, f.size, coerce f.mtime, f.mode, [], []⟩, []⟩ = _
  -- an empty status is left out, and reads as the empty one that is there
  have hstatus : f.status.isEmpty = true → (⟨⟨coerce f.name, coerce f.contentHash, f.size,
      coerce f.mtime, f.mode, [], []⟩, []⟩ : FileCell) = ⟨⟨coerce f.name, coerce f.contentHash,
      f.size, coerce f.mtime, f.mode, coerce f.status, []⟩, []⟩ := by
    intro he
    rw [coerce_of_isEmpty he]
  refine Eq.trans (decodeMembers_omitted fileFields_named 5 rfl hstatus
    fun _ => onField_eq_some rfl) ?_
  rw [← append_nil (omitEmpty _ _ _)]
  refine decodeMembers_omitted fileFields_named 6 rfl ?_ ?_
  · intro he
    rw [FileEntry.sanitized, isEmpty_iff.mp he]
    rfl
  · intro _
    exact decode_chunks h.chunks rfl

theorem decode_dir {d : Option Dir} (h : ∀ d', d = some d' → ∀ f ∈ d'.fileList, f.Typed) :
    decodeDir (encodePtr Dir.toJson d).coerce = some (d.map Dir.sanitized) := by
  cases d with
  | none => rfl
  | some d =>
    have hfiles : decodeSlice (decodeStruct fileFields) .zero
        (encodeSlice FileEntry.toJson d.files).coerce Slice.zero =
          some ⟨d.files.map (·.map fun f => ⟨f.sanitized, []⟩), []⟩ := by
      rw [coerce_encodeSlice]
      refine decodeSlice_encodeSlice rfl ?_
      intro l hl f hf
      exact decode_file (h d rfl f (by rw [Dir.fileList, hl]; exact hf))
    have hsubs : decodeSlice decodeString [] (encodeSlice Value.str d.subDirs).coerce Slice.zero =
        some ⟨d.subDirs.map (·.map coerce), []⟩ := by
      rw [coerce_encodeSlice]
      exact decodeSlice_encodeSlice rfl fun _ _ _ _ => rfl
    have hdir : decodeStruct dirFields d.toJson.coerce .zero = some ⟨_, _⟩ :=
      Eq.trans (decodeMembers_written dirFields_named 0 rfl (onField_eq_some hfiles))
        (decodeMembers_written dirFields_named 1 rfl (onField_eq_some hsubs))
    show ((decodeStruct dirFields d.toJson.coerce .zero).map some).map _ = _
    rw [hdir, map_some, map_some]
    show some (some (Dir.mk ((d.files.map _).map _) _)) = _
    rw [Option.map_map]
    cases hf : d.files with
    | none => simp [Dir.sanitized, hf]
    | some l => simp [Dir.sanitized, hf, Function.comp_def]

theorem decode_stats {s : ManifestStats} (h : s.Typed) :
    decodeStruct statsFields s.toJson.coerce .zero = some s := by
  refine decodeMembers_next statsFields_named 0 rfl (h.fileCount.decode _) ?_
  refine decodeMembers_next statsFields_named 1 rfl (h.totalSize.decode _) ?_
  refine decodeMembers_next statsFields_named 2 rfl (h.newFiles.decode _) ?_
  refine decodeMembers_next statsFields_named 3 rfl (h.changedFiles.decode _) ?_
  refine decodeMembers_next statsFields_named 4 rfl (h.unchangedFiles.decode _) ?_
  refine decodeMembers_next statsFields_named 5 rfl (h.deletedFiles.decode _) ?_
  refine decodeMembers_next statsFields_named 6 rfl (h.newBytes.decode _) ?_
  show decodeMembers statsFields (Value.coerceMembers (omitEmpty _ _ _)) ⟨s.fileCount, s.totalSize,
    s.newFiles, s.changedFiles, s.unchangedFiles, s.deletedFiles, s.newBytes, 0⟩ = _
  rw [← append_nil (omitEmpty _ _ _)]
  refine decodeMembers_omitted statsFields_named 7 rfl ?_ fun _ =>
    onField_eq_some (h.scanErrors.decode _)
  intro he
  rw [← beq_iff_eq.mp he]

/-- **What `json.Unmarshal` makes of a written manifest.** -/
theorem ofJson_coerce_toJson (h : m.Typed) :
    Manifest.ofJson m.toJson.coerce = some m.sanitized := by
  have hdirs : decodeMap decodeDir (encodeMap (encodePtr Dir.toJson) m.dirs).coerce none =
      some (m.dirs.map sanitizedDirs) := by
    refine decodeMap_encodeMap ?_
    intro dirs hd e he
    refine decode_dir ?_
    intro d hed f hf
    refine h.files f (mem_flatMap.mpr ⟨e, ?_, ?_⟩)
    · rw [Manifest.dirEntries, hd]
      exact he
    · rw [hed]
      exact hf
  refine decodeMembers_next manifestFields_named 0 rfl (h.version.decode _) ?_
  refine decodeMembers_next manifestFields_named 1 rfl (h.sourceID.decode _) ?_
  have hcloud : m.cloudID.isEmpty = true →
      { Manifest.zero with version := m.version, sourceID := m.sourceID } =
        { Manifest.zero with
          version := m.version, sourceID := m.sourceID, cloudID := coerce m.cloudID } := by
    intro he
    rw [coerce_of_isEmpty he]
    rfl
  refine Eq.trans (decodeMembers_omitted manifestFields_named 2 rfl hcloud
    fun _ => onField_eq_some rfl) ?_
  refine decodeMembers_next manifestFields_named 3 rfl rfl ?_
  refine decodeMembers_next manifestFields_named 4 rfl rfl ?_
  refine decodeMembers_next manifestFields_named 5 rfl rfl ?_
  refine decodeMembers_next manifestFields_named 6 rfl rfl ?_
  refine decodeMembers_next manifestFields_named 7 rfl hdirs ?_
  refine decodeMembers_next manifestFields_named 8 rfl (decode_stats h.stats) ?_
  show decodeMembers manifestFields (Value.coerceMembers (omitEmpty _ _ _))
    { m.sanitized with completeness := [] } = _
  rw [← append_nil (omitEmpty _ _ _)]
  refine decodeMembers_omitted manifestFields_named 9 rfl ?_ fun _ => onField_eq_some rfl
  intro he
  show _ = { m.sanitized with completeness := coerce m.completeness }
  rw [coerce_of_isEmpty he]

theorem writable_toJson (m : Manifest) : m.toJson.Writable 7 := by
  have hchunk (c : ChunkRef) : c.toJson.Writable 1 := by simp [ChunkRef.toJson]
  have hfile (f : FileEntry) : f.toJson.Writable 3 := by simp [FileEntry.toJson, hchunk]
  have hdir (d : Option Dir) : (encodePtr Dir.toJson d).Writable 5 := by
    cases d with
    | none => trivial
    | some d => simp [encodePtr, Dir.toJson, hfile]
  have hstats : m.stats.toJson.Writable 6 := by simp [ManifestStats.toJson]
  simp [Manifest.toJson, hdir, hstats]

/-- The text of a manifest as a value. -/
theorem parse_marshal (m : Manifest) : parse m.marshal = some m.toJson.coerce :=
  parse_render (writable_toJson m) (by decide)

/-! ## Manifests that come back unchanged -/

@[mk_iff]
structure FileEntry.ValidText (f : FileEntry) : Prop where
  name : validString f.name = true
  contentHash : validString f.contentHash = true
  mtime : validString f.mtime = true
  status : validString f.status = true
  chunks : ∀ c ∈ f.chunks, validString c.hash = true

@[mk_iff]
structure Dir.ValidText (d : Dir) : Prop where
  files : ∀ f ∈ d.fileList, f.ValidText
  subDirs : ∀ s ∈ d.subDirList, validString s = true

/-- Every string of the manifest is valid UTF-8. -/
structure Manifest.ValidText (m : Manifest) : Prop where
  cloudID : validString m.cloudID = true
  sourceName : validString m.sourceName = true
  sourcePath : validString m.sourcePath = true
  timestamp : validString m.timestamp = true
  deviceID : validString m.deviceID = true
  completeness : validString m.completeness = true
  key : ∀ e ∈ m.dirEntries, validString e.1 = true
  dir : ∀ e ∈ m.dirEntries, ∀ d ∈ e.2, d.ValidText

instance (f : FileEntry) : Decidable f.ValidText := decidable_of_iff' _ (FileEntry.validText_iff f)

instance (d : Dir) : Decidable d.ValidText := decidable_of_iff' _ (Dir.validText_iff d)

/-- The files and subdirectories of a directory, nil and empty lists identified. -/
def Dir.content (d : Dir) : List FileEntry × List Bytes := (d.fileList, d.subDirList)

/-- The serialized fields, nil and empty lists identified. -/
def Manifest.content (m : Manifest) :
    Manifest × List (Bytes × Option (List FileEntry × List Bytes)) :=
  ({ m with dirs := none, filePath := [] }, m.dirEntries.map fun e => (e.1, e.2.map Dir.content))

theorem FileEntry.validText_sanitized (f : FileEntry) : f.sanitized.ValidText where
  name := validString_coerce _
  contentHash := validString_coerce _
  mtime := validString_coerce _
  status := validString_coerce _
  chunks := by
    intro c hc
    obtain ⟨c₀, -, rfl⟩ := mem_map.mp hc
    exact validString_coerce _

theorem FileEntry.sanitized_of_valid {f : FileEntry} (h : f.ValidText) : f.sanitized = f := by
  have hchunks : f.chunks.map ChunkRef.sanitized = f.chunks := by
    refine (map_congr_left fun c hc => ?_).trans (map_id _)
    show { c with hash := coerce c.hash } = c
    rw [coerce_of_valid (h.chunks c hc)]
  rw [sanitized, hchunks, coerce_of_valid h.name, coerce_of_valid h.contentHash,
    coerce_of_valid h.mtime, coerce_of_valid h.status]

theorem Dir.fileList_sanitized (d : Dir) :
    d.sanitized.fileList = d.fileList.map FileEntry.sanitized := by
  unfold Dir.fileList Dir.sanitized
  cases d.files <;> rfl

theorem Dir.subDirList_sanitized (d : Dir) :
    d.sanitized.subDirList = d.subDirList.map coerce := by
  unfold Dir.subDirList Dir.sanitized
  cases d.subDirs <;> rfl

theorem Dir.validText_sanitized (d : Dir) : d.sanitized.ValidText where
  files := by
    rw [d.fileList_sanitized]
    intro f hf
    obtain ⟨f₀, -, rfl⟩ := mem_map.mp hf
    exact f₀.validText_sanitized
  subDirs := by
    rw [d.subDirList_sanitized]
    intro s hs
    obtain ⟨s₀, -, rfl⟩ := mem_map.mp hs
    exact validString_coerce _

theorem Dir.sanitized_of_valid {d : Dir} (h : d.ValidText) : d.sanitized = d := by
  obtain ⟨files, subDirs⟩ := d
  have hfiles : files.map (·.map FileEntry.sanitized) = files := by
    cases files with
    | none => rfl
    | some l =>
      have hl : l.map FileEntry.sanitized = l :=
        (map_congr_left fun f hf => FileEntry.sanitized_of_valid (h.files f hf)).trans
          (map_id l)
      rw [map_some, hl]
  have hsubs : subDirs.map (·.map coerce) = subDirs := by
    cases subDirs with
    | none => rfl
    | some l =>
      have hl : l.map coerce = l :=
        (map_congr_left fun s hs => coerce_of_valid (h.subDirs s hs)).trans (map_id l)
      rw [map_some, hl]
  rw [sanitized, hfiles, hsubs]

/-- Validity is a matter of the content. -/
theorem Dir.validText_of_content {d d' : Dir} (h : d.content = d'.content) (hd : d.ValidText) :
    d'.ValidText := by
  obtain ⟨hfiles, hsubs⟩ := Prod.mk.inj h
  exact ⟨hfiles ▸ hd.files, hsubs ▸ hd.subDirs⟩

theorem sanitizedDirs_of_valid (h : m.ValidText) {dirs : DirMap} (hdirs : m.dirs = some dirs) :
    sanitizedDirs dirs = dirs := by
  have hentries : m.dirEntries = dirs.entries := by rw [Manifest.dirEntries, hdirs]
  have hfold : sanitizedDirs dirs = dirs.entries.foldl (fun m e => m.insert e.1 e.2) .empty := by
    refine foldl_ext _ _ _ ?_
    intro acc e he
    have hmem : e ∈ m.dirEntries := hentries ▸ he
    have hdir : e.2.map Dir.sanitized = e.2 := by
      cases hd : e.2 with
      | none => rfl
      | some d => rw [map_some, Dir.sanitized_of_valid (h.dir e hmem d hd)]
    rw [coerce_of_valid (h.key e hmem), hdir]
  rw [hfold]
  exact SortedMap.ext (SortedMap.foldl_insert dirs.sorted)

theorem Manifest.sanitized_of_valid (h : m.ValidText) :
    m.sanitized = { m with filePath := [] } := by
  have hdirs : m.dirs.map sanitizedDirs = m.dirs := by
    cases hd : m.dirs with
    | none => rfl
    | some dirs => rw [map_some, sanitizedDirs_of_valid h hd]
  rw [sanitized, hdirs, coerce_of_valid h.cloudID, coerce_of_valid h.sourceName,
    coerce_of_valid h.sourcePath, coerce_of_valid h.timestamp, coerce_of_valid h.deviceID,
    coerce_of_valid h.completeness]

/-- Each directory that is read back is one that was written. -/
theorem mem_dirEntries_sanitized {e : Bytes × Option Dir} (h : e ∈ m.sanitized.dirEntries) :
    ∃ e₀ ∈ m.dirEntries, e = (coerce e₀.1, e₀.2.map Dir.sanitized) := by
  unfold Manifest.dirEntries Manifest.sanitized at h
  unfold Manifest.dirEntries
  cases hd : m.dirs with
  | none =>
    rw [hd] at h
    cases h
  | some dirs =>
    rw [hd] at h
    rcases SortedMap.mem_foldl_insert h with hnil | hmem
    · cases hnil
    · exact hmem

/-- **Only valid UTF-8 is read back unchanged.** -/
theorem content_sanitized_iff : m.sanitized.content = m.content ↔ m.ValidText := by
  constructor
  · intro h
    obtain ⟨hfields, hentries⟩ := Prod.mk.inj h
    injection hfields with _ _ hcloud hname hpath htime hdevice _ _ hcomplete
    have hmem : ∀ e ∈ m.dirEntries, ∃ e₀ : Bytes × Option Dir,
        e.1 = coerce e₀.1 ∧ e.2.map Dir.content = (e₀.2.map Dir.sanitized).map Dir.content := by
      intro e he
      have hin : (e.1, e.2.map Dir.content) ∈
          m.dirEntries.map fun e => (e.1, e.2.map Dir.content) :=
        mem_map.mpr ⟨e, he, rfl⟩
      rw [← hentries] at hin
      obtain ⟨e', he', heq⟩ := mem_map.mp hin
      obtain ⟨e₀, -, rfl⟩ := mem_dirEntries_sanitized he'
      obtain ⟨hk, hd⟩ := Prod.mk.inj heq
      exact ⟨e₀, hk.symm, hd.symm⟩
    refine ⟨validString_iff.mpr hcloud, validString_iff.mpr hname, validString_iff.mpr hpath,
      validString_iff.mpr htime, validString_iff.mpr hdevice, validString_iff.mpr hcomplete, ?_, ?_⟩
    · intro e he
      obtain ⟨e₀, hk, -⟩ := hmem e he
      rw [hk]
      exact validString_coerce _
    · intro e he d hd
      obtain ⟨e₀, -, hc⟩ := hmem e he
      rw [mem_def.mp hd, map_some] at hc
      cases hd₀ : e₀.2 with
      | none =>
        rw [hd₀] at hc
        cases hc
      | some d₀ =>
        rw [hd₀, map_some, map_some] at hc
        exact Dir.validText_of_content (some.inj hc).symm d₀.validText_sanitized
  · intro h
    rw [Manifest.sanitized_of_valid h]
    rfl

end GbfCore
