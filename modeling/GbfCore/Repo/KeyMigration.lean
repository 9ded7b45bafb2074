import GbfCore.Blob.Sample
import GbfCore.Lib.DiskImage
import GbfCore.Repo.Keys

/-!
# The migration of a key file

`MigrateKeyFileToGEK1` reads the master key, wraps it and replaces the file by an atomic write.
Wherever it is cut off and whichever calls fail, the file still holds the key
(`migration_keeps_key`): as it was, or wrapped so that the password unlocks it.
-/

namespace GbfCore

open List Prog

variable {env : WrapInputs} {q : FsProg (Except RepoError Unit)}

/-- The master key in a legacy key file; anything else is none. -/
def legacyKey (data : Bytes) : Option Bytes :=
  ((parseKeyFile data).bind KeyFileData.decodeKey).toOption

/-- `repo.key` is a wrapped key file from which the password unlocks this key. -/
structure Unlocks (P : Primitives) (argon2 : PasswordDerivation) (repoRoot password key : Bytes)
    (fs : FileSystem) : Prop where
  gek1 : ∃ data, fs.read (keyFilePath repoRoot) = some data ∧ isGEK1 data = true
  runs : (unlockRepoWithPassword P argon2 repoRoot password).Runs
    (FsCall.Outcome fun _ => False) fs fun r _ => r = .ok key

/-- What a migration that has come this far has done to the key. -/
structure KeyKept (P : Primitives) (argon2 : PasswordDerivation) (repoRoot password : Bytes)
    (fs fs' : FileSystem) (q : FsProg (Except RepoError Unit)) : Prop where
  /-- The file is as it was, or it unlocks. -/
  held : ∀ data key, fs.read (keyFilePath repoRoot) = some data → legacyKey data = some key →
    fs'.read (keyFilePath repoRoot) = some data ∨ Unlocks P argon2 repoRoot password key fs'
  /-- If the call has returned nil, it unlocks. -/
  done : ∀ data key, fs.read (keyFilePath repoRoot) = some data → legacyKey data = some key →
    q = pure (.ok ()) → Unlocks P argon2 repoRoot password key fs'
  /-- If there was no legacy key, the call does not return nil and the file is as it was. -/
  refused : (∀ data, fs.read (keyFilePath repoRoot) = some data → legacyKey data = none) →
    fs'.read (keyFilePath repoRoot) = fs.read (keyFilePath repoRoot) ∧ q ≠ pure (.ok ())

section
variable {P : Primitives} {argon2 : PasswordDerivation} {repoRoot password key : Bytes}
  {fs fs' : FileSystem} {log : List (Sigma FsCall.Answer)}

/-- **What is wrapped can be unwrapped.** -/
theorem unlock_encode (haead : P.AEADLaws) {data : Bytes}
    (h : encodeGEK1KeyFile P argon2 env key password = .ok data) :
    isGEK1 data = true ∧ unlockKeyFile P argon2 data password = .ok key := by
  unfold encodeGEK1KeyFile at h
  split at h
  · cases h
  rename_i salt _
  split at h
  · cases h
  rename_i nonce _
  cases h
  have hvalid : validKey (argon2 password salt.bytes).1 = true :=
    decide_eq_true (.inr (.inr (argon2 password salt.bytes).2))
  have hsalt := salt.length_eq
  have hnonce := nonce.length_eq
  obtain ⟨sealed, hsealed⟩ : ∃ sealed,
      P.gcmSeal (argon2 password salt.bytes).1 nonce.bytes key = sealed := ⟨_, rfl⟩
  have hlength : sealed.length = key.length + tagSize :=
    hsealed ▸ haead.length_seal _ _ key hvalid hnonce
  have hopen := haead.open_seal _ _ key hvalid hnonce
  rw [hsealed] at hopen ⊢
  have hmagic : isGEK1 (gek1Magic ++ salt.bytes ++ (nonce.bytes ++ sealed)) = true := by
    simp [isGEK1, gek1Magic]
  refine ⟨hmagic, ?_⟩
  have hdrop : (gek1Magic ++ salt.bytes ++ (nonce.bytes ++ sealed)).drop (4 + saltSize) =
      nonce.bytes ++ sealed :=
    drop_left' (by rw [length_append, hsalt]; rfl)
  have htake : ((gek1Magic ++ salt.bytes ++ (nonce.bytes ++ sealed)).drop 4).take saltSize =
      salt.bytes := by
    have hmagic4 : gek1Magic.length = 4 := rfl
    rw [append_assoc, drop_left' hmagic4, take_left' hsalt]
  rw [unlockKeyFile, if_pos hmagic, unlockGEK1KeyFile, if_neg, hdrop, htake, decryptGEK1MasterKey,
    if_neg, take_left' hnonce, drop_left' hnonce, hopen]
  · rw [length_append, hnonce, hlength]
    omega
  · rw [length_append, length_append, hsalt]
    have : gek1Magic.length = 4 := rfl
    omega

theorem unlocks_of_read {data : Bytes} (hread : fs.read (keyFilePath repoRoot) = some data)
    (hgek1 : isGEK1 data = true) (hunlock : unlockKeyFile P argon2 data password = .ok key) :
    Unlocks P argon2 repoRoot password key fs :=
  ⟨⟨data, hread, hgek1⟩, Fs.runs_readFile hread (runs_ret hunlock)⟩

/-- Whatever only reads files changes nothing, at any point. -/
theorem logged_readsFile {α : Type} {p q : FsProg α} (hp : p.Calls FsCall.ReadsFile)
    (h : Logged FsCall.Faulty p fs log q fs') : fs' = fs := by
  refine (logged_of_calls (fun s => s = fs) hp ?_ h rfl).1
  rintro c s r s' hc hout rfl
  cases c with
  | readFile path => exact hout.readFile.1
  | _ => exact hc.elim

theorem record_readsFile {α : Type} {p : FsProg α} {a : α} (hp : p.Calls FsCall.ReadsFile)
    (h : p.Record FsCall.Faulty fs log a fs') : fs' = fs :=
  logged_readsFile hp (logged_of_record h)

theorem calls_keyFileProtectionMode (repoRoot : Bytes) :
    (keyFileProtectionMode repoRoot).Calls FsCall.ReadsFile := by
  refine calls_ok (sat_ask trivial) (by rintro ⟨⟩ <;> trivial) fun data => ?_
  dsimp only
  split
  · exact sat_ret trivial
  · split <;> exact sat_ret trivial

theorem calls_loadKeyFile (repoRoot : Bytes) : (loadKeyFile repoRoot).Calls FsCall.ReadsFile := by
  refine calls_bind (sat_ask trivial) fun r => ?_
  rcases r with e | data <;> exact sat_ret trivial

theorem calls_unlockRepoWithPassword (P : Primitives) (argon2 : PasswordDerivation)
    (repoRoot password : Bytes) :
    (unlockRepoWithPassword P argon2 repoRoot password).Calls FsCall.ReadsFile := by
  refine calls_bind (sat_ask trivial) fun r => ?_
  rcases r with e | data <;> exact sat_ret trivial

/-- A key file that was loaded is in the file. -/
theorem parse_of_loadKeyFile {kf : KeyFileData}
    (h : (loadKeyFile repoRoot).Record FsCall.Faulty fs log (.ok kf) fs') :
    ∃ data, fs.read (keyFilePath repoRoot) = some data ∧ parseKeyFile data = .ok kf := by
  obtain ⟨content, fs₁, rest, hout, rfl, hcontent⟩ := record_ask h
  obtain ⟨rfl, hread⟩ := hout.readFile
  rcases content with e | data
  · exact nomatch hcontent.2.1
  · exact ⟨data, hread data rfl, hcontent.2.1.symm⟩

/-! ## The write and the check behind it -/

/-- At every point of the write the file is what it was, or it unlocks. -/
theorem logged_saveGEK1KeyFile (haead : P.AEADLaws)
    (hfresh : fs.inode (tempPath (keyFilePath repoRoot) env.uuid) = none)
    (h : Logged FsCall.Faulty (saveGEK1KeyFile P argon2 env repoRoot key password) fs log q fs') :
    fs'.read (keyFilePath repoRoot) = fs.read (keyFilePath repoRoot) ∨
      Unlocks P argon2 repoRoot password key fs' := by
  unfold saveGEK1KeyFile at h
  split at h
  · obtain ⟨-, -, rfl⟩ := logged_ret h
    exact .inl rfl
  · rename_i data hdata
    obtain ⟨hgek1, hunlock⟩ := unlock_encode haead hdata
    have hwrite : ∃ log' q', Logged FsCall.Faulty
        (writeFileAtomic env.uuid (keyFilePath repoRoot) data) fs log' q' fs' := by
      rcases logged_bind h with ⟨c, next, hw, -⟩ | ⟨r, fs₁, log₁, log₂, rfl, hw, hrest⟩
      · exact ⟨log, _, hw⟩
      · obtain ⟨-, -, rfl⟩ := logged_ret hrest
        exact ⟨log₁, _, logged_of_record hw⟩
    obtain ⟨log', q', hw⟩ := hwrite
    have hreplaced := logged_writeFileAtomic hfresh hw
    by_cases hold : renames (keyFilePath repoRoot) log' = 0
    · exact .inl (hreplaced.old hold)
    · exact .inr (unlocks_of_read (hreplaced.new hold).1 hgek1 hunlock)

/-- A check that succeeds has unlocked the key from the file. -/
theorem unlocks_of_record
    (h : (unlockRepoWithPassword P argon2 repoRoot password).Record FsCall.Faulty fs
      log (.ok key) fs') : Unlocks P argon2 repoRoot password key fs := by
  obtain ⟨content, fs₁, rest, hout, rfl, hcontent⟩ := record_ask h
  obtain ⟨rfl, hread⟩ := hout.readFile
  rcases content with e | data
  · exact nomatch hcontent.2.1
  · have hok : unlockKeyFile P argon2 data password = .ok key := hcontent.2.1.symm
    refine unlocks_of_read (hread data rfl) ?_ hok
    unfold unlockKeyFile at hok
    split at hok
    · assumption
    · cases hok

theorem logged_wrapAndVerify (haead : P.AEADLaws)
    (hfresh : fs.inode (tempPath (keyFilePath repoRoot) env.uuid) = none)
    (h : Logged FsCall.Faulty (wrapAndVerify P argon2 env repoRoot password key) fs log q fs') :
    (fs'.read (keyFilePath repoRoot) = fs.read (keyFilePath repoRoot) ∨
      Unlocks P argon2 repoRoot password key fs') ∧
    (q = pure (.ok ()) → Unlocks P argon2 repoRoot password key fs') := by
  rcases logged_bind h with ⟨c, next, hsave, rfl⟩ | ⟨saved, fs₁, log₁, log₂, rfl, hsave, hsaved⟩
  · exact ⟨logged_saveGEK1KeyFile haead hfresh hsave, nofun⟩
  have hkept := logged_saveGEK1KeyFile haead hfresh (logged_of_record hsave)
  rcases saved with e | ⟨⟩
  · obtain ⟨-, rfl, rfl⟩ := logged_ret hsaved
    exact ⟨hkept, nofun⟩
  have hcalls := calls_unlockRepoWithPassword P argon2 repoRoot password
  rcases logged_bind hsaved with ⟨c, next, hcheck, rfl⟩ |
    ⟨unlocked, fs₂, log₃, log₄, rfl, hcheck, hrest⟩
  · obtain rfl := logged_readsFile hcalls hcheck
    exact ⟨hkept, nofun⟩
  obtain rfl := record_readsFile hcalls hcheck
  rcases unlocked with e | unlocked
  · obtain ⟨-, rfl, rfl⟩ := logged_ret hrest
    exact ⟨hkept, nofun⟩
  dsimp only at hrest
  split at hrest
  · obtain ⟨-, rfl, rfl⟩ := logged_ret hrest
    exact ⟨hkept, nofun⟩
  · rename_i heq
    obtain ⟨-, rfl, rfl⟩ := logged_ret hrest
    rw [not_not.mp heq] at hcheck
    exact ⟨hkept, fun _ => unlocks_of_record hcheck⟩

/-! ## The migration -/

/-- Up to the write nothing has changed. -/
theorem keyKept_unchanged (hq : q ≠ pure (.ok ())) :
    KeyKept P argon2 repoRoot password fs fs q :=
  ⟨fun _ _ hdata _ => .inl hdata, fun _ _ _ _ h => absurd h hq, fun _ => ⟨rfl, hq⟩⟩

/-- **A migration never loses the master key**, whichever of its calls fail and wherever it is
cut off. -/
theorem migration_keeps_key (P : Primitives) (argon2 : PasswordDerivation) (haead : P.AEADLaws)
    (env : WrapInputs) (repoRoot password : Bytes) (hpassword : password ≠ [])
    (fs fs' : FileSystem) (hfresh : fs.inode (tempPath (keyFilePath repoRoot) env.uuid) = none)
    (log : List (Sigma FsCall.Answer)) (q : FsProg (Except RepoError Unit))
    (h : Logged FsCall.Faulty (migrateKeyFileToGEK1 P argon2 env repoRoot password) fs log q fs') :
    KeyKept P argon2 repoRoot password fs fs' q := by
  rw [migrateKeyFileToGEK1, if_neg hpassword] at h
  have hmode := calls_keyFileProtectionMode repoRoot
  rcases logged_bind h with ⟨c, next, hlook, rfl⟩ | ⟨mode, fs₁, log₁, log₂, rfl, hlook, hlooked⟩
  · obtain rfl := logged_readsFile hmode hlook
    exact keyKept_unchanged nofun
  obtain rfl := record_readsFile hmode hlook
  rcases mode with e | mode
  · obtain ⟨-, rfl, rfl⟩ := logged_ret hlooked
    exact keyKept_unchanged nofun
  cases mode with
  | gek1 =>
    obtain ⟨-, rfl, rfl⟩ := logged_ret hlooked
    exact keyKept_unchanged nofun
  | none =>
    obtain ⟨-, rfl, rfl⟩ := logged_ret hlooked
    exact keyKept_unchanged nofun
  | legacyPlaintext =>
    have hload := calls_loadKeyFile repoRoot
    rcases logged_bind hlooked with ⟨c, next, hkey, rfl⟩ |
      ⟨loaded, fs₂, log₃, log₄, rfl, hkey, hloaded⟩
    · obtain rfl := logged_readsFile hload hkey
      exact keyKept_unchanged nofun
    obtain rfl := record_readsFile hload hkey
    rcases loaded with e | kf
    · obtain ⟨-, rfl, rfl⟩ := logged_ret hloaded
      exact keyKept_unchanged nofun
    obtain ⟨data, hdata, hparse⟩ := parse_of_loadKeyFile hkey
    dsimp only at hloaded
    split at hloaded
    · obtain ⟨-, rfl, rfl⟩ := logged_ret hloaded
      exact keyKept_unchanged nofun
    · -- the key that is wrapped is the one in the file
      rename_i masterKey hdecode
      have hlegacy : legacyKey data = some masterKey := by
        rw [legacyKey, hparse]
        show (KeyFileData.decodeKey kf).toOption = some masterKey
        rw [hdecode]
        rfl
      obtain ⟨hheld, hdone⟩ := logged_wrapAndVerify haead hfresh hloaded
      rw [hdata] at hheld
      refine ⟨?_, ?_, fun hnone => ?_⟩
      · intro data' key hdata' hkey'
        cases hdata.symm.trans hdata'
        cases hlegacy.symm.trans hkey'
        exact hheld
      · intro data' key hdata' hkey'
        cases hdata.symm.trans hdata'
        cases hlegacy.symm.trans hkey'
        exact hdone
      · exact absurd (hlegacy.symm.trans (hnone data hdata)) nofun

end

/-! ## A key file -/

/-- Thirty-two zero bytes. -/
def zeroKey : Bytes := List.replicate 32 0

theorem length_zeroKey : zeroKey.length = 32 := rfl

/-- What Argon2id derives from the password `secret` and a salt of zero bytes. -/
def secretDerivation : PasswordDerivation := fun _ _ =>
  ⟨[0x6d, 0xde, 0x4d, 0x38, 0x94, 0x3d, 0xeb, 0xe1, 0xc6, 0x4d, 0xb7, 0x4c, 0xe1, 0x15, 0x85, 0xac,
    0xa3, 0x2d, 0x4a, 0x32, 0xd5, 0x49, 0xb0, 0xe1, 0x64, 0x4a, 0xc6, 0x86, 0x25, 0xe9, 0x45, 0x55], rfl⟩

/-- The first blocks of the keystream of AES-256-GCM for that key and a nonce of zero bytes. -/
def wrapKeystream : Bytes :=
  [0x45, 0x5c, 0xb2, 0x83, 0x84, 0x73, 0xcb, 0x3e, 0xd5, 0xda, 0x64, 0x97, 0x60, 0x43, 0x5d, 0x99,
   0xe6, 0xf9, 0xd1, 0x66, 0x6f, 0xbc, 0x40, 0x69, 0x39, 0x03, 0x9c, 0xf5, 0x37, 0x14, 0xc4, 0x05]

/-- The tag of `zeroKey`. -/
def wrapTag (p : Bytes) : Bytes :=
  if p = zeroKey then
    [0x3d, 0x1b, 0xa4, 0x3d, 0x0a, 0x27, 0xc5, 0x4d, 0x5e, 0x85, 0x7a, 0xc4, 0x05, 0xbd, 0xd9, 0x9b]
  else List.replicate 16 0

theorem length_wrapTag (p : Bytes) : (wrapTag p).length = tagSize := by
  rw [wrapTag]
  split <;> rfl

def wrapPrimitives : Primitives := samplePrimitives.withCipher wrapKeystream wrapTag

def zeroWrap : WrapInputs := ⟨some ⟨zeroKey, length_zeroKey⟩, some sampleIV, ascii "u"⟩

/-- A repository with `zeroKey` in a legacy key file. -/
def legacyRepo : Image where
  dirs := [ascii "/r/.ginkgo-backup"]
  names := [(ascii "/r/.ginkgo-backup/repo.key", 0)]
  inodes := [(KeyFileData.marshal ⟨1, ascii "aes-256-gcm", base64Encode zeroKey, []⟩, 0)]

theorem legacyRepo_valid : legacyRepo.Valid := by decide

/-- The migration of this repository succeeds, and the password unlocks its key. -/
theorem migration_keeps_key_zero :
    ∃ log fs', Logged FsCall.Faulty
        (migrateKeyFileToGEK1 wrapPrimitives secretDerivation zeroWrap (ascii "/r") (ascii "secret"))
        (legacyRepo.disk legacyRepo_valid).fs log (pure (.ok ())) fs' ∧
      Unlocks wrapPrimitives secretDerivation (ascii "/r") (ascii "secret") zeroKey fs' := by
  have hcomputed : (legacyRepo.run 0 (migrateKeyFileToGEK1 wrapPrimitives secretDerivation zeroWrap
      (ascii "/r") (ascii "secret"))).any
        (fun p => decide (p.1 = .ok () ∧ p.2.2.Valid)) = true := by
    decide +kernel
  obtain ⟨⟨r, log, i⟩, hrun, hok⟩ := (Option.any_eq_true _ _).mp hcomputed
  obtain ⟨rfl, hvalid⟩ := of_decide_eq_true hok
  have hrecord := Disk.record_files (Image.record_run legacyRepo_valid hvalid hrun)
  have hlogged := Fs.logged_faulty hrecord
  refine ⟨log, _, hlogged, ?_⟩
  exact (migration_keeps_key wrapPrimitives secretDerivation
    (withCipher_aead samplePrimitives wrapKeystream length_wrapTag) zeroWrap _ _ (by decide) _ _
    (by decide) _ _ hlogged).done _ zeroKey rfl (by decide +kernel) rfl

end GbfCore
