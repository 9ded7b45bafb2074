import GbfCore.Manifest.Codec
import GbfCore.Manifest.CloudID
import GbfCore.Manifest.Envelope
import GbfCore.Manifest.FileIO
import GbfCore.Manifest.Names

/-!
# Source registries (manifest.go)

For every source the repository keeps a registry with what the user has attached to
it: pins, notes, settings. It is a JSON document in the same envelope as a manifest,
in a file named after the source.
-/

namespace GbfCore

open Json Prog

/-! ## The records -/

/-- `RegistryPin`. -/
structure RegistryPin where
  repoPath : Bytes
  snapshotTime : Int
  note : Bytes
  createdAt : Int
deriving DecidableEq

/-- `RegistryNote`. -/
structure RegistryNote where
  repoPath : Bytes
  snapshotTime : Int
  content : Bytes
  pushedFiles : Bytes
  source : Bytes
  createdAt : Int
  authorDeviceID : Bytes
  authorName : Bytes
deriving DecidableEq

/-- `RegistrySettings`. -/
structure RegistrySettings where
  schedule : Bytes
  scheduleConfig : Bytes
  retention : Bytes
  retentionCustom : Bytes
  excludes : Slice Bytes
  enableAI : Bool
  watchMode : Bytes

/-- `RegistrySnapshot`. -/
structure RegistrySnapshot where
  timestamp : Bytes
  fileCount : Int
  totalSize : Int
deriving DecidableEq

/-- `SourceRegistry`. -/
structure SourceRegistry where
  schemaVersion : Int
  cloudID : Bytes
  name : Bytes
  path : Bytes
  deviceID : Bytes
  hostname : Bytes
  os : Bytes
  pins : Slice RegistryPin
  notes : Slice RegistryNote
  snapshots : Slice RegistrySnapshot
  settings : Option RegistrySettings
  lastSnapshot : Bytes
  snapshotCount : Int
  createdAt : Bytes

/-- `SourceRegistry{}` -/
def SourceRegistry.zero : SourceRegistry :=
  ⟨0, [], [], [], [], [], [], .zero, .zero, .zero, none, [], 0, []⟩

/-! ## Reading -/

/-- Into a `bool`. -/
def decodeBool : Decoder Bool
  | .bool b, _ => some b
  | .null, b => some b
  | _, _ => none

/-- Into a pointer field: what it points to is reused. -/
def decodePtrField {α : Type} (d : Decoder α) (zero : α) : Decoder (Option α)
  | .null, _ => some none
  | v, p => (d v (p.getD zero)).map some

def pinFields : Fields RegistryPin :=
  [(ascii "repoPath",
      onField RegistryPin.repoPath (fun p x => { p with repoPath := x }) decodeString),
    (ascii "snapshotTime",
      onField RegistryPin.snapshotTime (fun p x => { p with snapshotTime := x }) decodeInt64),
    (ascii "note", onField RegistryPin.note (fun p x => { p with note := x }) decodeString),
    (ascii "createdAt",
      onField RegistryPin.createdAt (fun p x => { p with createdAt := x }) decodeInt64)]

def noteFields : Fields RegistryNote :=
  [(ascii "repoPath",
      onField RegistryNote.repoPath (fun n x => { n with repoPath := x }) decodeString),
    (ascii "snapshotTime",
      onField RegistryNote.snapshotTime (fun n x => { n with snapshotTime := x }) decodeInt64),
    (ascii "content", onField RegistryNote.content (fun n x => { n with content := x }) decodeString),
    (ascii "pushedFiles",
      onField RegistryNote.pushedFiles (fun n x => { n with pushedFiles := x }) decodeString),
    (ascii "source", onField RegistryNote.source (fun n x => { n with source := x }) decodeString),
    (ascii "createdAt",
      onField RegistryNote.createdAt (fun n x => { n with createdAt := x }) decodeInt64),
    (ascii "authorDeviceId",
      onField RegistryNote.authorDeviceID (fun n x => { n with authorDeviceID := x }) decodeString),
    (ascii "authorName",
      onField RegistryNote.authorName (fun n x => { n with authorName := x }) decodeString)]

def settingsFields : Fields RegistrySettings :=
  [(ascii "schedule",
      onField RegistrySettings.schedule (fun s x => { s with schedule := x }) decodeString),
    (ascii "scheduleConfig",
      onField RegistrySettings.scheduleConfig (fun s x => { s with scheduleConfig := x })
        decodeString),
    (ascii "retention",
      onField RegistrySettings.retention (fun s x => { s with retention := x }) decodeString),
    (ascii "retentionCustom",
      onField RegistrySettings.retentionCustom (fun s x => { s with retentionCustom := x })
        decodeString),
    (ascii "excludes",
      onField RegistrySettings.excludes (fun s x => { s with excludes := x })
        (decodeSlice decodeString [])),
    (ascii "enableAi",
      onField RegistrySettings.enableAI (fun s x => { s with enableAI := x }) decodeBool),
    (ascii "watchMode",
      onField RegistrySettings.watchMode (fun s x => { s with watchMode := x }) decodeString)]

def snapshotFields : Fields RegistrySnapshot :=
  [(ascii "timestamp",
      onField RegistrySnapshot.timestamp (fun s x => { s with timestamp := x }) decodeString),
    (ascii "fileCount",
      onField RegistrySnapshot.fileCount (fun s x => { s with fileCount := x }) decodeInt64),
    (ascii "totalSize",
      onField RegistrySnapshot.totalSize (fun s x => { s with totalSize := x }) decodeInt64)]

def registryFields : Fields SourceRegistry :=
  [(ascii "schemaVersion",
      onField SourceRegistry.schemaVersion (fun r x => { r with schemaVersion := x }) decodeInt64),
    (ascii "cloudId",
      onField SourceRegistry.cloudID (fun r x => { r with cloudID := x }) decodeString),
    (ascii "name", onField SourceRegistry.name (fun r x => { r with name := x }) decodeString),
    (ascii "path", onField SourceRegistry.path (fun r x => { r with path := x }) decodeString),
    (ascii "deviceId",
      onField SourceRegistry.deviceID (fun r x => { r with deviceID := x }) decodeString),
    (ascii "hostname",
      onField SourceRegistry.hostname (fun r x => { r with hostname := x }) decodeString),
    (ascii "os", onField SourceRegistry.os (fun r x => { r with os := x }) decodeString),
    (ascii "pins", onField SourceRegistry.pins (fun r x => { r with pins := x })
      (decodeSlice (decodeStruct pinFields) ⟨[], 0, [], 0⟩)),
    (ascii "notes", onField SourceRegistry.notes (fun r x => { r with notes := x })
      (decodeSlice (decodeStruct noteFields) ⟨[], 0, [], [], [], 0, [], []⟩)),
    (ascii "snapshots", onField SourceRegistry.snapshots (fun r x => { r with snapshots := x })
      (decodeSlice (decodeStruct snapshotFields) ⟨[], 0, 0⟩)),
    (ascii "settings", onField SourceRegistry.settings (fun r x => { r with settings := x })
      (decodePtrField (decodeStruct settingsFields) ⟨[], [], [], [], .zero, false, []⟩)),
    (ascii "lastSnapshot",
      onField SourceRegistry.lastSnapshot (fun r x => { r with lastSnapshot := x }) decodeString),
    (ascii "snapshotCount",
      onField SourceRegistry.snapshotCount (fun r x => { r with snapshotCount := x }) decodeInt64),
    (ascii "createdAt",
      onField SourceRegistry.createdAt (fun r x => { r with createdAt := x }) decodeString)]

/-- `json.Unmarshal` into a new `SourceRegistry`. -/
def SourceRegistry.ofJson (v : Value) : Option SourceRegistry :=
  decodeStruct registryFields v .zero

/-- `SourceRegistrySchemaVersion` -/
def sourceRegistrySchemaVersion : Int := 1

/-- The errors of reading a registry. -/
inductive RegistryError where
  | cloudID (e : CloudIDError)
  | read (e : FsError)
  | checksumMismatch
  | decompress
  | unmarshal
  | unsupportedVersion (version : Int)
  | identityMismatch (found : Bytes)
  | remove (e : FsError)
deriving DecidableEq, Repr

section
variable (P : Primitives)

/-- The payload of the envelope, where there is one. -/
def registryPayload (data : Bytes) : Except RegistryError Bytes :=
  if registryEnvelopeHeaderSize < data.length ∧
      data.take registryEnvelopeMagic.length = registryEnvelopeMagic then
    match stripGBREnvelope P data with
    | none => .error .checksumMismatch
    | some payload => .ok payload
  else .ok data

/-- Decompress what is compressed. -/
def decompressRegistry (data : Bytes) : Except RegistryError Bytes :=
  if isCompressed data then
    match P.zstdDecompress maxManifestDecompressedSize data with
    | none => .error .decompress
    | some data => .ok data
  else .ok data

/-- The registry in a file, whichever version wrote it. -/
def unmarshalRegistry (data : Bytes) : Except RegistryError SourceRegistry :=
  (registryPayload P data).bind fun data =>
    (decompressRegistry P data).bind fun data =>
      match (parse data).bind SourceRegistry.ofJson with
      | none => .error .unmarshal
      | some reg => .ok reg

/-- `DecodeSourceRegistry`. -/
def decodeSourceRegistry (data : Bytes) : Except RegistryError SourceRegistry :=
  (unmarshalRegistry P data).bind fun reg =>
    if reg.schemaVersion = 0 then .ok { reg with schemaVersion := sourceRegistrySchemaVersion }
    else if sourceRegistrySchemaVersion < reg.schemaVersion then
      .error (.unsupportedVersion reg.schemaVersion)
    else .ok reg

end

/-! ## Writing -/

def RegistryPin.toJson (p : RegistryPin) : Value :=
  .obj ([(ascii "repoPath", .str p.repoPath), (ascii "snapshotTime", .int p.snapshotTime)] ++
    (omitEmpty p.note.isEmpty (ascii "note") (.str p.note) ++
      omitEmpty (p.createdAt == 0) (ascii "createdAt") (.int p.createdAt)))

def RegistryNote.toJson (n : RegistryNote) : Value :=
  .obj ([(ascii "repoPath", .str n.repoPath), (ascii "snapshotTime", .int n.snapshotTime)] ++
    (omitEmpty n.content.isEmpty (ascii "content") (.str n.content) ++
      (omitEmpty n.pushedFiles.isEmpty (ascii "pushedFiles") (.str n.pushedFiles) ++
        (omitEmpty n.source.isEmpty (ascii "source") (.str n.source) ++
          (omitEmpty (n.createdAt == 0) (ascii "createdAt") (.int n.createdAt) ++
            (omitEmpty n.authorDeviceID.isEmpty (ascii "authorDeviceId") (.str n.authorDeviceID) ++
              omitEmpty n.authorName.isEmpty (ascii "authorName") (.str n.authorName)))))))

def RegistrySettings.toJson (s : RegistrySettings) : Value :=
  .obj (omitEmpty s.schedule.isEmpty (ascii "schedule") (.str s.schedule) ++
    (omitEmpty s.scheduleConfig.isEmpty (ascii "scheduleConfig") (.str s.scheduleConfig) ++
      (omitEmpty s.retention.isEmpty (ascii "retention") (.str s.retention) ++
        (omitEmpty s.retentionCustom.isEmpty (ascii "retentionCustom") (.str s.retentionCustom) ++
          (omitEmpty (s.excludes.elems.getD []).isEmpty (ascii "excludes")
              (encodeSlice Value.str s.excludes.elems) ++
            (omitEmpty (!s.enableAI) (ascii "enableAi") (.bool s.enableAI) ++
              omitEmpty s.watchMode.isEmpty (ascii "watchMode") (.str s.watchMode)))))))

def RegistrySnapshot.toJson (s : RegistrySnapshot) : Value :=
  .obj ([(ascii "timestamp", .str s.timestamp)] ++
    (omitEmpty (s.fileCount == 0) (ascii "fileCount") (.int s.fileCount) ++
      omitEmpty (s.totalSize == 0) (ascii "totalSize") (.int s.totalSize)))

/-- The members before the last snapshot. -/
def SourceRegistry.frontMembers (r : SourceRegistry) : List (Bytes × Value) :=
  [(ascii "schemaVersion", .int r.schemaVersion), (ascii "cloudId", .str r.cloudID),
      (ascii "name", .str r.name), (ascii "path", .str r.path),
      (ascii "deviceId", .str r.deviceID)] ++
    (omitEmpty r.hostname.isEmpty (ascii "hostname") (.str r.hostname) ++
      (omitEmpty r.os.isEmpty (ascii "os") (.str r.os) ++
        (omitEmpty (r.pins.elems.getD []).isEmpty (ascii "pins")
            (encodeSlice RegistryPin.toJson r.pins.elems) ++
          (omitEmpty (r.notes.elems.getD []).isEmpty (ascii "notes")
              (encodeSlice RegistryNote.toJson r.notes.elems) ++
            (omitEmpty (r.snapshots.elems.getD []).isEmpty (ascii "snapshots")
                (encodeSlice RegistrySnapshot.toJson r.snapshots.elems) ++
              omitEmpty r.settings.isNone (ascii "settings")
                (encodePtr RegistrySettings.toJson r.settings))))))

/-- The value that `json.Marshal` writes. -/
def SourceRegistry.toJson (r : SourceRegistry) : Value :=
  .obj (r.frontMembers ++ [(ascii "lastSnapshot", .str r.lastSnapshot),
    (ascii "snapshotCount", .int r.snapshotCount), (ascii "createdAt", .str r.createdAt)])

def SourceRegistry.marshal (r : SourceRegistry) : Bytes := r.toJson.render

section
variable (P : Primitives)

/-- `EncodeSourceRegistry`. A registry without a version gets the present one. -/
def encodeSourceRegistry (reg : SourceRegistry) : Bytes :=
  let reg :=
    if reg.schemaVersion = 0 then { reg with schemaVersion := sourceRegistrySchemaVersion } else reg
  gbrEnvelope P (P.zstdCompress reg.marshal)

/-! ## Files -/

/-- `sourceRegistriesDir`. -/
def sourceRegistriesDir (metaDir : Bytes) : Bytes :=
  pathJoin [metaDir, ascii "manifests", ascii "_sources"]

/-- The file of a registry. -/
def sourceRegistryPath (metaDir cloudID : Bytes) : Bytes :=
  pathJoin [sourceRegistriesDir metaDir, cloudID ++ jsonZst]

/-- The errors of writing a registry. -/
inductive RegistrySaveError where
  | cloudID (e : CloudIDError)
  | mkdir (e : FsError)
  | mkdirParent (e : FsError)
  | write (e : FsError)
deriving DecidableEq, Repr

/-- `SaveSourceRegistry`. -/
def saveSourceRegistry (metaDir uuid : Bytes) (reg : SourceRegistry) :
    FsProg (Except RegistrySaveError Unit) :=
  match validateCloudID reg.cloudID with
  | .error e => return .error (.cloudID e)
  | .ok () => do
    match ← Fs.mkdirAll (sourceRegistriesDir metaDir) with
    | .error e => return .error (.mkdir e)
    | .ok () =>
      let path := sourceRegistryPath metaDir reg.cloudID
      match ← Fs.mkdirAll (pathDir path) with
      | .error e => return .error (.mkdirParent e)
      | .ok () =>
        let r ← writeFileAtomic uuid path (encodeSourceRegistry P reg)
        return r.mapError .write

/-- `LoadSourceRegistry`. -/
def loadSourceRegistry (metaDir cloudID : Bytes) : FsProg (Except RegistryError SourceRegistry) :=
  match validateCloudID cloudID with
  | .error e => return .error (.cloudID e)
  | .ok () => do
    match ← Fs.readFile (sourceRegistryPath metaDir cloudID) with
    | .error e => return .error (.read e)
    | .ok data =>
      return (decodeSourceRegistry P data).bind fun reg =>
        if reg.cloudID ≠ cloudID then .error (.identityMismatch reg.cloudID) else .ok reg

/-- `DeleteSourceRegistry`. -/
def deleteSourceRegistry (metaDir cloudID : Bytes) : FsProg (Except RegistryError Unit) :=
  match validateCloudID cloudID with
  | .error e => return .error (.cloudID e)
  | .ok () => do
    let path := sourceRegistryPath metaDir cloudID
    match ← Fs.stat path with
    | .error .notExist => return .ok ()
    | _ =>
      let r ← Fs.remove path
      return r.mapError .remove

end

end GbfCore
