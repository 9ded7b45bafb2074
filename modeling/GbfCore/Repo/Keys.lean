import GbfCore.Lib.Base64
import GbfCore.Repo.Config

/-!
# Key files (keys.go)

The master key of a repository is in `repo.key`: wrapped with a key derived from a password
(GEK1), or in an older JSON file, in plain. `migrateKeyFileToGEK1` turns the one into the other,
`initRepoWithPassword` and `initRepoWithKeyFile` make a repository with a key.
-/

namespace GbfCore

open Json Prog

/-- `SaltSize` -/
def saltSize : Nat := 32

/-- `"GEK\x01"` -/
def gek1Magic : Bytes := [0x47, 0x45, 0x4b, 0x01]

/-- What `GenerateSalt` returns. -/
structure Salt where
  bytes : Bytes
  length_eq : bytes.length = saltSize

/-- What `GenerateRandomKey` returns. -/
structure MasterKey where
  bytes : Bytes
  length_eq : bytes.length = 32

/-- `DeriveKeyFromPassword`, Argon2id, from a password and a salt. -/
abbrev PasswordDerivation := Bytes → Bytes → { key : Bytes // key.length = 32 }

/-- `KeyFilePath` -/
def keyFilePath (repoRoot : Bytes) : Bytes := pathJoin [metaDirOf repoRoot, ascii "repo.key"]

/-- `data[0] == 'G' && data[1] == 'E' && data[2] == 'K' && data[3] == 1` -/
def isGEK1 (data : Bytes) : Bool :=
  decide (4 ≤ data.length) && decide (data.take 4 = gek1Magic)

section
variable (P : Primitives) (argon2 : PasswordDerivation)

/-! ## Wrapped keys -/

/-- The random values that wrap a key; `none` is a failure of `rand.Read`. -/
structure WrapInputs where
  salt : Option Salt
  nonce : Option IV
  /-- for the staging file of the key file -/
  uuid : Bytes

/-- `EncodeGEK1KeyFile`. A derived key always fits the cipher. -/
def encodeGEK1KeyFile (env : WrapInputs) (masterKey password : Bytes) : Except RepoError Bytes :=
  match env.salt with
  | none => .error .generateSalt
  | some salt =>
    match env.nonce with
    | none => .error .generateNonce
    | some nonce =>
      .ok (gek1Magic ++ salt.bytes ++
        (nonce.bytes ++ P.gcmSeal (argon2 password salt.bytes).1 nonce.bytes masterKey))

/-- `DecryptGEK1MasterKey`. -/
def decryptGEK1MasterKey (salt encryptedKey password : Bytes) : Except RepoError Bytes :=
  if encryptedKey.length < ivSize + tagSize then .error .encryptedTooShort
  else
    match P.gcmOpen (argon2 password salt).1 (encryptedKey.take ivSize)
        (encryptedKey.drop ivSize) with
    | none => .error .wrongPassword
    | some masterKey => .ok masterKey

/-- `unlockGEK1KeyFile`. -/
def unlockGEK1KeyFile (data password : Bytes) : Except RepoError Bytes :=
  if data.length < 4 + saltSize then .error .tooShort
  else
    decryptGEK1MasterKey P argon2 ((data.drop 4).take saltSize) (data.drop (4 + saltSize)) password

/-- What `UnlockRepoWithPassword` makes of the content of the file. -/
def unlockKeyFile (data password : Bytes) : Except RepoError Bytes :=
  if isGEK1 data then unlockGEK1KeyFile P argon2 data password else .error .unsupportedFormat

/-- `UnlockRepoWithPassword`. -/
def unlockRepoWithPassword (repoRoot password : Bytes) : FsProg (Except RepoError Bytes) := do
  match ← Fs.readFile (keyFilePath repoRoot) with
  | .error e => return .error (.readKeyFile e)
  | .ok data => return unlockKeyFile P argon2 data password

/-- Write a key file. -/
def writeKeyFile (uuid repoRoot data : Bytes) : FsProg (Except RepoError Unit) := do
  let r ← writeFileAtomic uuid (keyFilePath repoRoot) data
  return r.mapError .writeKeyFile

/-- `SaveGEK1KeyFile`. -/
def saveGEK1KeyFile (env : WrapInputs) (repoRoot masterKey password : Bytes) :
    FsProg (Except RepoError Unit) :=
  match encodeGEK1KeyFile P argon2 env masterKey password with
  | .error e => return .error e
  | .ok data => writeKeyFile env.uuid repoRoot data

end

/-! ## Plain keys -/

/-- `KeyFileData`. -/
structure KeyFileData where
  version : Int
  algorithm : Bytes
  key : Bytes
  salt : Bytes

def keyFileFields : Fields KeyFileData :=
  [(ascii "version", onField KeyFileData.version (fun k x => { k with version := x }) decodeInt64),
    (ascii "algorithm",
      onField KeyFileData.algorithm (fun k x => { k with algorithm := x }) decodeString),
    (ascii "key", onField KeyFileData.key (fun k x => { k with key := x }) decodeString),
    (ascii "salt", onField KeyFileData.salt (fun k x => { k with salt := x }) decodeString)]

/-- `json.Unmarshal` into a new `KeyFileData`. -/
def KeyFileData.unmarshal (data : Bytes) : Option KeyFileData :=
  (parse data).bind fun v => decodeStruct keyFileFields v ⟨0, [], [], []⟩

/-- `json.MarshalIndent`. -/
def KeyFileData.marshal (kf : KeyFileData) : Bytes :=
  indent [(ascii "version", .int kf.version), (ascii "algorithm", .str kf.algorithm),
    (ascii "key", .str kf.key), (ascii "salt", .str kf.salt)]

/-- It begins with a brace. -/
theorem isGEK1_marshal (kf : KeyFileData) : isGEK1 kf.marshal = false := by
  have hne : kf.marshal.take 4 ≠ gek1Magic := by
    rw [KeyFileData.marshal, indent, List.cons_append, List.take_succ_cons]
    exact fun heq => absurd (List.cons.inj heq).1 (by decide)
  rw [isGEK1, decide_eq_false hne, Bool.and_false]

theorem keyFileFields_named : keyFileFields.Named :=
  ⟨by decide +kernel, by decide +kernel⟩

/-- **A key file is read back as it was written**, up to the coercion. -/
theorem KeyFileData.unmarshal_marshal {kf : KeyFileData} (hversion : IsInt64 kf.version) :
    KeyFileData.unmarshal kf.marshal =
      some ⟨kf.version, coerce kf.algorithm, coerce kf.key, coerce kf.salt⟩ := by
  have hn := keyFileFields_named
  have hflat : ∀ e ∈ [(ascii "version", Value.int kf.version), (ascii "algorithm", .str kf.algorithm),
      (ascii "key", .str kf.key), (ascii "salt", .str kf.salt)], e.2.Flat := by
    simp only [List.mem_cons, List.not_mem_nil, or_false]
    rintro e (rfl | rfl | rfl | rfl)
    · exact isNumeral_intText _
    all_goals exact trivial
  rw [KeyFileData.unmarshal, KeyFileData.marshal, parse_indent (by simp) hflat, Option.bind_some]
  refine decodeMembers_next hn 0 rfl (hversion.decode _) ?_
  refine decodeMembers_next hn 1 rfl rfl ?_
  refine decodeMembers_next hn 2 rfl rfl ?_
  exact decodeMembers_written hn 3 rfl (onField_eq_some rfl)

/-- What `LoadKeyFile` makes of the content of the file. -/
def parseKeyFile (data : Bytes) : Except RepoError KeyFileData :=
  if isGEK1 data then .error .needsPassword
  else
    match KeyFileData.unmarshal data with
    | none => .error .parseKeyFile
    | some kf => .ok kf

/-- `LoadKeyFile`. -/
def loadKeyFile (repoRoot : Bytes) : FsProg (Except RepoError KeyFileData) := do
  match ← Fs.readFile (keyFilePath repoRoot) with
  | .error e => return .error (.readKeyFile e)
  | .ok data => return parseKeyFile data

/-- `KeyFileData.DecodeKey`. -/
def KeyFileData.decodeKey (kf : KeyFileData) : Except RepoError Bytes :=
  if kf.key = [] then .error .emptyKey
  else
    match base64Decode kf.key with
    | none => .error .decodeKey
    | some key => .ok key

/-- The key protection modes. -/
inductive KeyProtection where
  | gek1
  | legacyPlaintext
  | none
deriving DecidableEq

/-- `KeyFileProtectionMode`. -/
def keyFileProtectionMode (repoRoot : Bytes) : FsProg (Except RepoError KeyProtection) := do
  match ← Fs.readFile (keyFilePath repoRoot) with
  | .error .notExist => return .ok .none
  | .error e => return .error (.readKeyFile e)
  | .ok data =>
    if isGEK1 data then return .ok .gek1
    else
      match KeyFileData.unmarshal data with
      | none => return .error .parseKeyFile
      | some _ => return .ok .legacyPlaintext

section
variable (P : Primitives) (argon2 : PasswordDerivation)

/-! ## From the one to the other -/

/-- The rest of `MigrateKeyFileToGEK1`, from the master key on. -/
def wrapAndVerify (env : WrapInputs) (repoRoot password masterKey : Bytes) :
    FsProg (Except RepoError Unit) := do
  match ← saveGEK1KeyFile P argon2 env repoRoot masterKey password with
  | .error e => return .error e
  | .ok () =>
    match ← unlockRepoWithPassword P argon2 repoRoot password with
    | .error _ => return .error .verificationFailed
    | .ok unlocked =>
      if unlocked ≠ masterKey then return .error .verificationMismatch else return .ok ()

/-- `MigrateKeyFileToGEK1`. -/
def migrateKeyFileToGEK1 (env : WrapInputs) (repoRoot password : Bytes) :
    FsProg (Except RepoError Unit) :=
  if password = [] then return .error .emptyPassword
  else do
    match ← keyFileProtectionMode repoRoot with
    | .error e => return .error e
    | .ok .gek1 => return .error .alreadyGEK1
    | .ok .none => return .error .noLegacyKeyFile
    | .ok .legacyPlaintext =>
      match ← loadKeyFile repoRoot with
      | .error e => return .error e
      | .ok kf =>
        match kf.decodeKey with
        | .error e => return .error e
        | .ok masterKey => wrapAndVerify P argon2 env repoRoot password masterKey

/-! ## New repositories -/

/-- The end of both initialisations: the configuration is written again, as encrypted. -/
def markEncrypted (uuid repoRoot : Bytes) : FsProg (Except RepoError Unit) := do
  match ← loadConfig repoRoot with
  | .error e => return .error e
  | .ok cfg => saveConfig uuid repoRoot { cfg with encrypted := true }

/-- `InitRepoWithPassword`; the key is what `GenerateRandomKey` returns, and `uuid` is for the
staging file of the second configuration. -/
def initRepoWithPassword (repoRoot deviceID password : Bytes) (env : InitInputs)
    (masterKey : Option MasterKey) (wrap : WrapInputs) (uuid : Bytes) :
    FsProg (Except RepoError Unit) := do
  match ← initRepo repoRoot deviceID env with
  | .error e => return .error e
  | .ok () =>
    match masterKey with
    | none => return .error .generateKey
    | some masterKey =>
      match ← saveGEK1KeyFile P argon2 wrap repoRoot masterKey.bytes password with
      | .error e => return .error e
      | .ok () => markEncrypted uuid repoRoot

/-- `InitRepoWithKeyFile`. -/
def initRepoWithKeyFile (repoRoot deviceID : Bytes) (env : InitInputs)
    (masterKey : Option MasterKey) (keyUuid uuid : Bytes) : FsProg (Except RepoError Unit) := do
  match ← initRepo repoRoot deviceID env with
  | .error e => return .error e
  | .ok () =>
    match masterKey with
    | none => return .error .generateKey
    | some masterKey =>
      let kf : KeyFileData :=
        ⟨1, ascii "aes-256-gcm", base64Encode masterKey.bytes, []⟩
      match ← writeKeyFile keyUuid repoRoot kf.marshal with
      | .error e => return .error e
      | .ok () => markEncrypted uuid repoRoot

end

end GbfCore
