import GbfCore.Lib.Json.Indent
import GbfCore.Manifest.Registry

/-!
# The configuration of a repository (config.go, init.go)

`config.json` in the metadata directory says what a repository is. It is written once when the
repository is made, without encryption, and once more when it gets a key. `isGBRepo` takes a
directory for a repository if the file can be loaded, or if there are manifests.
-/

namespace GbfCore

open Json Prog

/-- `RepoConfig`. -/
structure RepoConfig where
  version : Int
  format : Bytes
  repositoryID : Bytes
  encrypted : Bool
  hashAlgorithm : Bytes
  cipherAlgorithm : Bytes
  chunkSize : Int
  disableCDC : Bool
  cdcPolynomial : UInt64
  created : Bytes
  deviceID : Bytes
deriving DecidableEq

/-- `FormatGBF` -/
def formatGBF : Bytes := ascii "gbf"

/-- `FormatGBLegacy` -/
def formatGBLegacy : Bytes := ascii "gb"

/-- `MetaDir` -/
def metaDirOf (repoRoot : Bytes) : Bytes := pathJoin [repoRoot, ascii ".ginkgo-backup"]

/-- `ConfigPath` -/
def configPath (repoRoot : Bytes) : Bytes := pathJoin [metaDirOf repoRoot, ascii "config.json"]

/-- `ManifestsDir` -/
def manifestsDir (metaDir : Bytes) : Bytes := pathJoin [metaDir, ascii "manifests"]

/-- `DefaultConfig`; the identifier and the time are inputs. -/
def defaultConfig (repositoryID created deviceID : Bytes) : RepoConfig where
  version := 1
  format := formatGBF
  repositoryID := repositoryID
  encrypted := false
  hashAlgorithm := ascii "sha256"
  cipherAlgorithm := ascii "aes-256-gcm"
  chunkSize := defaultChunkSize
  disableCDC := false
  cdcPolynomial := 0
  created := created
  deviceID := deviceID

/-! ## The text -/

/-- The members that are written. -/
def RepoConfig.members (c : RepoConfig) : List (Bytes × Value) :=
  [(ascii "version", .int c.version), (ascii "format", .str c.format),
    (ascii "repositoryId", .str c.repositoryID), (ascii "encrypted", .bool c.encrypted),
    (ascii "hashAlgorithm", .str c.hashAlgorithm),
    (ascii "cipherAlgorithm", .str c.cipherAlgorithm), (ascii "chunkSize", .int c.chunkSize)] ++
  (omitEmpty (!c.disableCDC) (ascii "disable_cdc") (.bool c.disableCDC) ++
    (omitEmpty (c.cdcPolynomial = 0) (ascii "cdcPolynomial") (.int c.cdcPolynomial.toNat) ++
      [(ascii "created", .str c.created), (ascii "deviceId", .str c.deviceID)]))

/-- `json.MarshalIndent`, which does not fail here. -/
def RepoConfig.marshal (c : RepoConfig) : Bytes := indent c.members

/-- Into a `uint64`. -/
def decodePolynomial : Decoder UInt64 := fun v p =>
  (decodeUint64 v p.toNat).map UInt64.ofNat

def configFields : Fields RepoConfig :=
  [(ascii "version", onField RepoConfig.version (fun c x => { c with version := x }) decodeInt64),
    (ascii "format", onField RepoConfig.format (fun c x => { c with format := x }) decodeString),
    (ascii "repositoryId",
      onField RepoConfig.repositoryID (fun c x => { c with repositoryID := x }) decodeString),
    (ascii "encrypted",
      onField RepoConfig.encrypted (fun c x => { c with encrypted := x }) decodeBool),
    (ascii "hashAlgorithm",
      onField RepoConfig.hashAlgorithm (fun c x => { c with hashAlgorithm := x }) decodeString),
    (ascii "cipherAlgorithm",
      onField RepoConfig.cipherAlgorithm (fun c x => { c with cipherAlgorithm := x }) decodeString),
    (ascii "chunkSize",
      onField RepoConfig.chunkSize (fun c x => { c with chunkSize := x }) decodeInt64),
    (ascii "disable_cdc",
      onField RepoConfig.disableCDC (fun c x => { c with disableCDC := x }) decodeBool),
    (ascii "cdcPolynomial",
      onField RepoConfig.cdcPolynomial (fun c x => { c with cdcPolynomial := x }) decodePolynomial),
    (ascii "created", onField RepoConfig.created (fun c x => { c with created := x }) decodeString),
    (ascii "deviceId",
      onField RepoConfig.deviceID (fun c x => { c with deviceID := x }) decodeString)]

/-- `RepoConfig{}` -/
def RepoConfig.zero : RepoConfig := ⟨0, [], [], false, [], [], 0, false, 0, [], []⟩

/-- `json.Unmarshal` into a new `RepoConfig`. -/
def RepoConfig.unmarshal (data : Bytes) : Option RepoConfig :=
  (parse data).bind fun v => decodeStruct configFields v .zero

/-- The configuration with its strings coerced to UTF-8. -/
def RepoConfig.coerced (c : RepoConfig) : RepoConfig :=
  { c with
    format := coerce c.format
    repositoryID := coerce c.repositoryID
    hashAlgorithm := coerce c.hashAlgorithm
    cipherAlgorithm := coerce c.cipherAlgorithm
    created := coerce c.created
    deviceID := coerce c.deviceID }

theorem configFields_named : configFields.Named :=
  ⟨by decide +kernel, by decide +kernel⟩

theorem flat_members (c : RepoConfig) : ∀ e ∈ c.members, e.2.Flat := by
  have hint : ∀ i : Int, (Value.int i).Flat := isNumeral_intText
  intro e he
  simp only [RepoConfig.members, List.mem_append] at he
  rcases he with he | he | he | he
  · simp only [List.mem_cons, List.not_mem_nil, or_false] at he
    rcases he with rfl | rfl | rfl | rfl | rfl | rfl | rfl
    · exact hint _
    · exact trivial
    · exact trivial
    · exact trivial
    · exact trivial
    · exact trivial
    · exact hint _
  · exact flat_omitEmpty (v := .bool c.disableCDC) trivial e he
  · exact flat_omitEmpty (hint _) e he
  · simp only [List.mem_cons, List.not_mem_nil, or_false] at he
    rcases he with rfl | rfl
    · exact trivial
    · exact trivial

/-- **A configuration is read back as it was written**, up to the coercion. -/
theorem RepoConfig.unmarshal_marshal {c : RepoConfig} (hversion : IsInt64 c.version)
    (hchunk : IsInt64 c.chunkSize) : RepoConfig.unmarshal c.marshal = some c.coerced := by
  have hn := configFields_named
  rw [RepoConfig.unmarshal, RepoConfig.marshal, parse_indent (by simp [RepoConfig.members])
    (flat_members c), Option.bind_some]
  refine decodeMembers_next hn 0 rfl (hversion.decode _) ?_
  refine decodeMembers_next hn 1 rfl rfl ?_
  refine decodeMembers_next hn 2 rfl rfl ?_
  refine decodeMembers_next hn 3 rfl rfl ?_
  refine decodeMembers_next hn 4 rfl rfl ?_
  refine decodeMembers_next hn 5 rfl rfl ?_
  refine decodeMembers_next hn 6 rfl (hchunk.decode _) ?_
  -- what was left out has the zero value it is read as
  have hcdc : (!c.disableCDC) = true → { c.coerced with
      disableCDC := false, cdcPolynomial := 0, created := [], deviceID := [] } =
      { c.coerced with cdcPolynomial := 0, created := [], deviceID := [] } := by
    intro h
    have hoff : c.disableCDC = false := by simpa using h
    simp [RepoConfig.coerced, hoff]
  refine Eq.trans (decodeMembers_omitted hn 7 rfl hcdc fun _ => onField_eq_some rfl) ?_
  have hpol : decide (c.cdcPolynomial = 0) = true →
      { c.coerced with cdcPolynomial := 0, created := [], deviceID := [] } =
        { c.coerced with created := [], deviceID := [] } := by
    intro h
    simp [RepoConfig.coerced, of_decide_eq_true h]
  refine Eq.trans (decodeMembers_omitted hn 8 rfl hpol fun _ => onField_eq_some ?_) ?_
  · have hread := decodeUint64_int c.cdcPolynomial.toNat_lt 0
    show (decodeUint64 (.int c.cdcPolynomial.toNat) 0).map UInt64.ofNat = some c.cdcPolynomial
    rw [hread, Option.map_some, UInt64.ofNat_toNat]
  refine decodeMembers_next hn 9 rfl rfl ?_
  exact decodeMembers_written hn 10 rfl (onField_eq_some rfl)

/-! ## The file -/

/-- How the operations on a repository fail. -/
inductive RepoError where
  | alreadyInitialized
  | mkdir (dir : Bytes) (e : FsError)
  | polynomial
  | writeConfig (e : FsError)
  | readConfig (e : FsError)
  | unmarshalConfig
  /-- no random bytes for the master key -/
  | generateKey
  /-- no random bytes for the salt -/
  | generateSalt
  /-- no random bytes for the nonce -/
  | generateNonce
  | writeKeyFile (e : FsError)
  | readKeyFile (e : FsError)
  | unsupportedFormat
  | tooShort
  | encryptedTooShort
  | wrongPassword
  | needsPassword
  | parseKeyFile
  | emptyKey
  | decodeKey
  | emptyPassword
  | alreadyGEK1
  | noLegacyKeyFile
  | verificationFailed
  | verificationMismatch
deriving DecidableEq

/-- `SaveConfig`. -/
def saveConfig (uuid repoRoot : Bytes) (cfg : RepoConfig) : FsProg (Except RepoError Unit) := do
  let r ← writeFileAtomic uuid (configPath repoRoot) cfg.marshal
  return r.mapError .writeConfig

/-- `LoadConfig`. -/
def loadConfig (repoRoot : Bytes) : FsProg (Except RepoError RepoConfig) := do
  match ← Fs.readFile (configPath repoRoot) with
  | .error e => return .error (.readConfig e)
  | .ok data =>
    match RepoConfig.unmarshal data with
    | none => return .error .unmarshalConfig
    | some cfg => return .ok cfg

/-- `cfg.Format == FormatGBF || cfg.Format == FormatGBLegacy` -/
def knownFormat : Except RepoError RepoConfig → Bool
  | .ok cfg => decide (cfg.format = formatGBF ∨ cfg.format = formatGBLegacy)
  | .error _ => false

/-- `IsGBRepo`. -/
def isGBRepo (repoRoot : Bytes) : FsProg Bool := do
  let cfg ← loadConfig repoRoot
  if knownFormat cfg then return true
  else
    match ← Fs.readDir (manifestsDir (metaDirOf repoRoot)) with
    | .ok entries => return !entries.isEmpty
    | .error _ => return false

/-- What an initialisation takes from outside: identifiers, the time, random numbers. -/
structure InitInputs where
  repositoryID : Bytes
  created : Bytes
  /-- `GenerateCDCPolynomial` -/
  polynomial : Option UInt64
  /-- for the staging file of the first configuration -/
  uuid : Bytes

/-- The loop of `InitRepo`. -/
def makeDirs : List Bytes → FsProg (Except RepoError Unit)
  | [] => return .ok ()
  | dir :: rest => do
    match ← Fs.mkdirAll dir with
    | .error e => return .error (.mkdir dir e)
    | .ok () => makeDirs rest

/-- The directories of a repository. -/
def repoDirs (repoRoot : Bytes) : List Bytes :=
  [metaDirOf repoRoot, metaDirOf repoRoot ++ ascii "/manifests", repoRoot ++ ascii "/gb"]

/-- `InitRepo`. -/
def initRepo (repoRoot deviceID : Bytes) (env : InitInputs) : FsProg (Except RepoError Unit) := do
  if ← isGBRepo repoRoot then return .error .alreadyInitialized
  else
    match ← makeDirs (repoDirs repoRoot) with
    | .error e => return .error e
    | .ok () =>
      match env.polynomial with
      | none => return .error .polynomial
      | some pol =>
        saveConfig env.uuid repoRoot
          { defaultConfig env.repositoryID env.created deviceID with cdcPolynomial := pol }

end GbfCore
