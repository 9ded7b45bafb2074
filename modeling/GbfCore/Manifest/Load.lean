import GbfCore.Blob.Decrypt
import GbfCore.Lib.FileSystem
import GbfCore.Manifest.CloudID
import GbfCore.Manifest.Codec
import GbfCore.Manifest.Envelope

/-!
# Loading a manifest (manifest.go, crypto.go)

A manifest file is taken apart from the outside in: the checksum envelope, the
encryption, the compression, the JSON text. A manifest of version 1 lists its files
flat; `migrateV1Manifest` reads them from the text a second time and builds the
directories. What comes out is validated.
-/

namespace GbfCore

open Json

/-- `GKM1Magic` -/
def gkm1Magic : Bytes := ascii "GKM1"

/-- The metadata key of a master key, HKDF-SHA256. -/
abbrev KeyDerivation := Bytes → { key : Bytes // key.length = 32 }

section
variable (P : Primitives) (hkdf : KeyDerivation)

/-- `EncryptManifest`. A derived key always fits the cipher. -/
def encryptManifest (iv : IV) (key plaintext : Bytes) : Bytes :=
  gkm1Magic ++ iv.bytes ++ P.gcmSeal (hkdf key).1 iv.bytes plaintext

/-- `data[:MagicSize] == GKM1Magic` -/
def isGKM1 (data : Bytes) : Bool :=
  decide (magicSize ≤ data.length) && decide (data.take magicSize = gkm1Magic)

/-- `DecryptManifest`; `none` is an error. Old manifests are encrypted under the
master key itself. -/
def decryptManifest (key data : Bytes) : Option Bytes :=
  if isGKM1 data = false then none
  else
    match decryptSmall P (newDecryptor (hkdf key).1 defaultChunkSize) (data.drop magicSize) with
    | .ok plaintext => some plaintext
    | .error _ =>
      (decryptSmall P (newDecryptor key defaultChunkSize) (data.drop magicSize)).toOption

end

/-! ## Version 1 -/

/-- `v1EmptyDir`. -/
structure V1EmptyDir where
  relPath : Bytes
  name : Bytes

/-- `v1Manifest`. -/
structure V1Manifest where
  files : Slice FileCell
  emptyDirs : Slice V1EmptyDir

/-- The members of `v1FileEntry`. The path goes where the name of an entry goes, and a
modification time has to be a string. -/
def v1FileFields : Fields FileCell := entryFields (ascii "path") decodeString

def v1EmptyDirFields : Fields V1EmptyDir :=
  [(ascii "relPath", onField V1EmptyDir.relPath (fun d x => { d with relPath := x }) decodeString),
    (ascii "name", onField V1EmptyDir.name (fun d x => { d with name := x }) decodeString)]

def v1Fields : Fields V1Manifest :=
  [(ascii "files", onField V1Manifest.files (fun m x => { m with files := x })
      (decodeSlice (decodeStruct v1FileFields) .zero)),
    (ascii "emptyDirs", onField V1Manifest.emptyDirs (fun m x => { m with emptyDirs := x })
      (decodeSlice (decodeStruct v1EmptyDirFields) ⟨[], []⟩))]

/-- `json.Unmarshal` into a new `v1Manifest`. -/
def V1Manifest.ofJson (v : Value) : Option V1Manifest :=
  decodeStruct v1Fields v ⟨.zero, .zero⟩

/-- The entries of the flat list. -/
def V1Manifest.entries (v1 : V1Manifest) : List FileEntry :=
  (v1.files.elems.getD []).map FileCell.entry

/-- `migrateV1Manifest`. A text that does not fit leaves the manifest as it is. -/
def migrateV1Manifest (m : Manifest) (v : Value) : Manifest :=
  match V1Manifest.ofJson v with
  | none => m
  | some v1 =>
    let m := { m with version := 2, dirs := some .empty, stats := .zero }
    let m := v1.entries.foldl Manifest.addFile m
    (v1.emptyDirs.elems.getD []).foldl (fun m d => m.addEmptyDir d.relPath) m

/-! ## Loading -/

/-- The errors of loading. -/
inductive LoadError where
  | read
  | checksumMissing
  | checksumMismatch
  | envelopeMismatch
  | noHook
  | decrypt
  | decompress
  | unmarshal
  | validation (e : StructureError)
deriving DecidableEq, Repr

/-- `ManifestDecryptHook`, where one is registered. -/
abbrev DecryptHook := Option (Bytes → Option Bytes)

/-- The JSON value of a manifest text, and the manifest. -/
def decodeManifest (data : Bytes) : Except LoadError Manifest :=
  match parse data with
  | none => .error .unmarshal
  | some v =>
    match Manifest.ofJson v with
    | none => .error .unmarshal
    | some m =>
      let m := if m.version < 2 then migrateV1Manifest m v else m
      (m.validateStructure.mapError .validation).bind fun _ => .ok m

section
variable (P : Primitives) (hook : DecryptHook)

/-- Verify and take off the envelope, where there is one. -/
def unwrapEnvelope (data : Bytes) : Except LoadError Bytes :=
  if isGBREnvelope data then
    match stripGBREnvelope P data with
    | none => .error .envelopeMismatch
    | some data => .ok data
  else .ok data

/-- Decrypt what is encrypted. -/
def runDecryptHook (data : Bytes) : Except LoadError Bytes :=
  if isGKM1 data then
    match hook with
    | none => .error .noHook
    | some decrypt =>
      match decrypt data with
      | none => .error .decrypt
      | some data => .ok data
  else .ok data

/-- Decompress what is compressed. -/
def decompressManifest (data : Bytes) : Except LoadError Bytes :=
  if isCompressed data then
    match P.zstdDecompress maxManifestDecompressedSize data with
    | none => .error .decompress
    | some data => .ok data
  else .ok data

/-- The text in a manifest file. -/
def manifestText (data : Bytes) : Except LoadError Bytes :=
  (unwrapEnvelope P data).bind fun data =>
    (runDecryptHook hook data).bind (decompressManifest P)

/-- `LoadManifestFromData`. -/
def loadManifestFromData (data : Bytes) : Except LoadError Manifest :=
  (manifestText P hook data).bind decodeManifest

/-- `manifestChecksumPath` -/
def manifestChecksumPath (manifestPath : Bytes) : Bytes := manifestPath ++ ascii ".sha256"

/-- `verifyManifestChecksum`; `strings.EqualFold` with a hexadecimal text folds ASCII
letters only, as that text has no k and no s. -/
def verifyManifestChecksum (fs : FileSystem) (manifestPath data : Bytes) :
    Except LoadError Unit :=
  match fs.read (manifestChecksumPath manifestPath) with
  | none => .error .checksumMissing
  | some expected =>
    if toUpper (trimSpace expected) ≠ toUpper (hexEncode (P.sha256 data)) then
      .error .checksumMismatch
    else .ok ()

/-- `LoadManifest`. -/
def loadManifest (fs : FileSystem) (path : Bytes) : Except LoadError Manifest :=
  match fs.read path with
  | none => .error .read
  | some data =>
    (if isGBREnvelope data then Except.ok ()
      else verifyManifestChecksum P fs path data).bind fun _ =>
      (loadManifestFromData P hook data).bind fun m => .ok { m with filePath := path }

end

end GbfCore
