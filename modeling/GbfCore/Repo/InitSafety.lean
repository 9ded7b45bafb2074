import GbfCore.Lib.Inside
import GbfCore.Repo.KeyMigration

/-!
# Making a repository with a key

`InitRepoWithPassword` and `InitRepoWithKeyFile` write `config.json`, then `repo.key`, then
`config.json` again, and only the second time it says that the repository is encrypted. Each
write is atomic, the three together are not: the result is all or nothing exactly if the run
does not end between the two renames onto `config.json` (`init_all_or_nothing_iff`).
-/

namespace GbfCore

open Json List Prog Option Disk

variable {b : UInt8} {data keyUuid path uuid : Bytes} {content : Except RepoError Bytes}
  {repoRoot : Bytes} {masterKey : Option MasterKey}

/-! ## What a repository is taken for -/

/-- `IsGBRepo` says no. -/
def NotARepo (repoRoot : Bytes) (d : Disk) : Prop :=
  ∀ now, (isGBRepo repoRoot).Runs (Disk.Outcome .none now) d fun found _ => found = false

/-- The configuration says that the repository is encrypted, and its key can be had. -/
structure Secured (repoRoot : Bytes) (unlock : FsProg (Except RepoError Bytes)) (d : Disk) :
    Prop where
  encrypted : ∀ now, (loadConfig repoRoot).Runs (Disk.Outcome .none now) d fun r _ =>
    ∃ cfg, r = .ok cfg ∧ cfg.encrypted = true
  unlocks : ∀ now, unlock.Runs (Disk.Outcome .none now) d fun r _ =>
    ∃ key, r = .ok key ∧ key.length = 32

/-- `LoadKeyFile` and `DecodeKey`. -/
def loadMasterKey (repoRoot : Bytes) : FsProg (Except RepoError Bytes) := do
  match ← loadKeyFile repoRoot with
  | .error e => return .error e
  | .ok kf => return kf.decodeKey

/-- A directory without a repository in it. Its name does not lead through the directory that
is to be made in it. -/
structure FreshRoot (d : Disk) (repoRoot : Bytes) : Prop where
  bare : d.Bare (metaDirOf repoRoot)
  apart : ¬ OnPath (metaDirOf repoRoot) repoRoot

/-! ## Both initialisations -/

/-- What the two initialisations share: the first configuration, the key file with this
content, the second configuration. -/
def initWithKey (repoRoot deviceID : Bytes) (env : InitInputs) (content : Except RepoError Bytes)
    (keyUuid uuid : Bytes) : FsProg (Except RepoError Unit) := do
  match ← initRepo repoRoot deviceID env with
  | .error e => return .error e
  | .ok () =>
    match content with
    | .error e => return .error e
    | .ok data =>
      match ← writeKeyFile keyUuid repoRoot data with
      | .error e => return .error e
      | .ok () => markEncrypted uuid repoRoot

/-- The key file of `InitRepoWithPassword`. -/
def passwordContent (P : Primitives) (argon2 : PasswordDerivation) (password : Bytes)
    (masterKey : Option MasterKey) (wrap : WrapInputs) : Except RepoError Bytes :=
  match masterKey with
  | none => .error .generateKey
  | some masterKey => encodeGEK1KeyFile P argon2 wrap masterKey.bytes password

/-- The key file of `InitRepoWithKeyFile`. -/
def plainContent (masterKey : Option MasterKey) : Except RepoError Bytes :=
  match masterKey with
  | none => .error .generateKey
  | some masterKey =>
    .ok (KeyFileData.marshal ⟨1, ascii "aes-256-gcm", base64Encode masterKey.bytes, []⟩)

theorem initRepoWithPassword_eq (P : Primitives) (argon2 : PasswordDerivation)
    (repoRoot deviceID password : Bytes) (env : InitInputs) (masterKey : Option MasterKey)
    (wrap : WrapInputs) (uuid : Bytes) :
    initRepoWithPassword P argon2 repoRoot deviceID password env masterKey wrap uuid =
      initWithKey repoRoot deviceID env (passwordContent P argon2 password masterKey wrap) wrap.uuid
        uuid := by
  refine congrArg (initRepo repoRoot deviceID env >>= ·) (funext fun r => ?_)
  rcases r with e | ⟨⟩
  · rfl
  · cases masterKey with
    | none => rfl
    | some masterKey =>
      dsimp only [passwordContent, saveGEK1KeyFile]
      cases encodeGEK1KeyFile P argon2 wrap masterKey.bytes password <;> rfl

theorem initRepoWithKeyFile_eq (repoRoot deviceID : Bytes) (env : InitInputs)
    (masterKey : Option MasterKey) (keyUuid uuid : Bytes) :
    initRepoWithKeyFile repoRoot deviceID env masterKey keyUuid uuid =
      initWithKey repoRoot deviceID env (plainContent masterKey) keyUuid uuid := by
  refine congrArg (initRepo repoRoot deviceID env >>= ·) (funext fun r => ?_)
  rcases r with e | ⟨⟩
  · rfl
  · cases masterKey <;> rfl

/-! ## Names in the metadata directory -/

section

/-- A name in the metadata directory that begins with this byte, or something below it. -/
def Entry (repoRoot : Bytes) (b : UInt8) (path : Bytes) : Prop :=
  ∃ rest, path = metaDirOf repoRoot ++ slash :: b :: rest

theorem Entry.ne {a : UInt8} {path' : Bytes} (h : Entry repoRoot a path)
    (h' : Entry repoRoot b path') (hne : a ≠ b) : path ≠ path' := by
  obtain ⟨rest, rfl⟩ := h
  obtain ⟨rest', rfl⟩ := h'
  intro heq
  exact hne (List.cons.inj (List.cons.inj (append_cancel_left heq)).2).1

theorem Entry.tempPath (h : Entry repoRoot b path) (uuid : Bytes) :
    Entry repoRoot b (tempPath path uuid) := by
  obtain ⟨rest, rfl⟩ := h
  exact ⟨rest ++ ascii "." ++ uuid ++ ascii ".tmp", by simp [GbfCore.tempPath]⟩

section
variable (repoRoot : Bytes)

theorem cleanDir_metaDirOf : CleanDir (metaDirOf repoRoot) :=
  cleanDir_pathJoin _ (by decide)

theorem configPath_eq :
    configPath repoRoot = metaDirOf repoRoot ++ slash :: ascii "config.json" :=
  (cleanDir_metaDirOf repoRoot).join (by decide)

theorem keyFilePath_eq :
    keyFilePath repoRoot = metaDirOf repoRoot ++ slash :: ascii "repo.key" :=
  (cleanDir_metaDirOf repoRoot).join (by decide)

theorem manifestsDir_eq :
    manifestsDir (metaDirOf repoRoot) = metaDirOf repoRoot ++ slash :: ascii "manifests" :=
  (cleanDir_metaDirOf repoRoot).join (by decide)

theorem entry_config : Entry repoRoot 0x63 (configPath repoRoot) :=
  ⟨ascii "onfig.json", configPath_eq repoRoot⟩

theorem entry_key : Entry repoRoot 0x72 (keyFilePath repoRoot) :=
  ⟨ascii "epo.key", keyFilePath_eq repoRoot⟩

end

theorem entry_manifests (repoRoot rest : Bytes) :
    Entry repoRoot 0x6d (manifestsDir (metaDirOf repoRoot) ++ slash :: rest) :=
  ⟨ascii "anifests" ++ slash :: rest, by rw [manifestsDir_eq]; simp [ascii]⟩

end

/-! ## The files at every point -/

section
variable {deviceID : Bytes} {env : InitInputs} {fs fs' : FileSystem}
  {log : List (Sigma FsCall.Answer)} {q : FsProg (Except RepoError Unit)}

/-- The first configuration. -/
def firstConfig (deviceID : Bytes) (env : InitInputs) : RepoConfig :=
  { defaultConfig env.repositoryID env.created deviceID with
    cdcPolynomial := env.polynomial.getD 0 }

/-- The second one: it is read back and marked. -/
def secondConfig (deviceID : Bytes) (env : InitInputs) : RepoConfig :=
  { (firstConfig deviceID env).coerced with encrypted := true }

theorem unmarshal_firstConfig (deviceID : Bytes) (env : InitInputs) :
    RepoConfig.unmarshal (firstConfig deviceID env).marshal =
      some (firstConfig deviceID env).coerced := by
  have hversion : IsInt64 (1 : Int) := by decide
  have hchunk : IsInt64 (defaultChunkSize : Int) := by decide
  exact RepoConfig.unmarshal_marshal hversion hchunk

theorem unmarshal_secondConfig (deviceID : Bytes) (env : InitInputs) :
    RepoConfig.unmarshal (secondConfig deviceID env).marshal =
      some (secondConfig deviceID env).coerced := by
  have hversion : IsInt64 (1 : Int) := by decide
  have hchunk : IsInt64 (defaultChunkSize : Int) := by decide
  exact RepoConfig.unmarshal_marshal hversion hchunk

/-- What a program that makes one atomic write has done so far. -/
structure WrittenOnce (path uuid data : Bytes) (log : List (Sigma FsCall.Answer))
    (q : FsProg (Except RepoError Unit)) (fs fs' : FileSystem) : Prop
    extends Replaced path (tempPath path uuid) data log fs fs' where
  done : q = pure (.ok ()) → renames path log = 1

/-- A write that gives its error a name. -/
theorem logged_named {name : FsError → RepoError} (hfree : fs.read (tempPath path uuid) = none)
    (h : Logged FsCall.Faulty (do
      let r ← writeFileAtomic uuid path data
      return r.mapError name) fs log q fs') : WrittenOnce path uuid data log q fs fs' := by
  obtain ⟨q', hwrite, hresult⟩ := logged_result h
  have hreplaced := logged_writeFileAtomic (FileSystem.read_eq_none.mp hfree) hwrite
  refine ⟨hreplaced, fun hq => ?_⟩
  obtain ⟨r, rfl, hr⟩ := hresult _ hq
  rcases r with e | ⟨⟩
  · exact nomatch hr
  · have hmade := renamed_of_ok (record_of_logged hwrite)
    have honce := hreplaced.once
    omega

/-- Where nothing was written, whatever was to be written. -/
theorem writtenOnce_refl (hlog : ∀ g, renames g log = 0) (hq : q ≠ pure (.ok ())) :
    WrittenOnce path uuid data log q fs fs :=
  ⟨⟨fun _ => rfl, fun hne => absurd (hlog path) hne, by rw [hlog path]; exact Nat.zero_le 1,
    fun g _ => hlog g, fun _ _ _ => rfl⟩, fun h => absurd h hq⟩

/-- What comes after calls that change nothing. -/
theorem WrittenOnce.after {log' : List (Sigma FsCall.Answer)} (hlog : ∀ g, renames g log = 0)
    (h : WrittenOnce path uuid data log' q fs fs') :
    WrittenOnce path uuid data (log ++ log') q fs fs' := by
  have hcount : ∀ g, renames g (log ++ log') = renames g log' := by
    intro g
    rw [renames_append, hlog g, Nat.zero_add]
  exact ⟨⟨fun h0 => h.old ((hcount path).symm.trans h0),
    fun hne => h.new fun h0 => hne ((hcount path).trans h0), (hcount path).symm ▸ h.once,
    fun g hg => (hcount g).trans (h.elsewhere g hg), h.others⟩,
    fun hq => (hcount path).trans (h.done hq)⟩

/-- A call that changes no file and renames nothing. -/
def Looks : FsCall → Prop
  | .readFile _ => True
  | .readDir _ => True
  | .mkdirAll _ => True
  | _ => False

theorem logged_looks {α : Type} {p q : FsProg α} (hp : p.Calls Looks)
    (h : Logged FsCall.Faulty p fs log q fs') : fs' = fs ∧ ∀ g, renames g log = 0 := by
  obtain ⟨hfs, hlog⟩ := logged_of_calls (fun s => s = fs) hp (by
    rintro c s r s' hc ⟨unreadable, hout⟩ rfl
    cases c with
    | readFile path => exact hout.1
    | readDir path => exact hout
    | mkdirAll path => exact hout
    | _ => exact hc.elim) h rfl
  refine ⟨hfs, fun g => countP_eq_zero.mpr fun ev hev htrue => ?_⟩
  obtain ⟨c, r⟩ := ev
  cases c with
  | rename source target => exact hlog _ hev
  | _ => exact nomatch htrue

theorem calls_loadConfig (repoRoot : Bytes) : (loadConfig repoRoot).Calls Looks := by
  refine calls_ok (sat_ask trivial) (fun _ => trivial) fun data => ?_
  dsimp only
  split <;> exact sat_ret trivial

theorem calls_isGBRepo (repoRoot : Bytes) : (isGBRepo repoRoot).Calls Looks := by
  refine calls_bind (calls_loadConfig repoRoot) fun cfg => ?_
  split
  · exact sat_ret trivial
  · refine calls_bind (sat_ask trivial) fun r => ?_
    rcases r with e | entries <;> exact sat_ret trivial

theorem calls_makeDirs (dirs : List Bytes) : (makeDirs dirs).Calls Looks := by
  induction dirs with
  | nil => exact sat_ret trivial
  | cons dir rest ih =>
    refine calls_ok (sat_ask trivial) (fun _ => trivial) fun ⟨⟩ => ?_
    exact ih

theorem logged_initRepo (hfree : fs.read (tempPath (configPath repoRoot) env.uuid) = none)
    (h : Logged FsCall.Faulty (initRepo repoRoot deviceID env) fs log q fs') :
    WrittenOnce (configPath repoRoot) env.uuid (firstConfig deviceID env).marshal log q fs fs' := by
  rcases logged_bind h with ⟨c, next, hlook, rfl⟩ | ⟨found, fs₁, log₁, log₂, rfl, hlook, hlooked⟩
  · obtain ⟨rfl, hlog⟩ := logged_looks (calls_isGBRepo repoRoot) hlook
    exact writtenOnce_refl hlog nofun
  obtain ⟨rfl, hlog₁⟩ := logged_looks (calls_isGBRepo repoRoot) (logged_of_record hlook)
  refine .after hlog₁ ?_
  split at hlooked
  · obtain ⟨rfl, rfl, rfl⟩ := logged_ret hlooked
    exact writtenOnce_refl renames_nil nofun
  rcases logged_bind hlooked with ⟨c, next, hmake, rfl⟩ |
    ⟨made, fs₂, log₃, log₄, rfl, hmake, hmade⟩
  · obtain ⟨rfl, hlog⟩ := logged_looks (calls_makeDirs _) hmake
    exact writtenOnce_refl hlog nofun
  obtain ⟨rfl, hlog₃⟩ := logged_looks (calls_makeDirs _) (logged_of_record hmake)
  refine .after hlog₃ ?_
  rcases made with e | ⟨⟩
  · obtain ⟨rfl, rfl, rfl⟩ := logged_ret hmade
    exact writtenOnce_refl renames_nil nofun
  dsimp only at hmade
  split at hmade
  · obtain ⟨rfl, rfl, rfl⟩ := logged_ret hmade
    exact writtenOnce_refl renames_nil nofun
  · rename_i pol hpol
    have hfirst : { defaultConfig env.repositoryID env.created deviceID with cdcPolynomial := pol } =
        firstConfig deviceID env := by
      rw [firstConfig, hpol]
      rfl
    rw [hfirst] at hmade
    exact logged_named hfree hmade

theorem logged_markEncrypted
    (hconfig : fs.read (configPath repoRoot) = some (firstConfig deviceID env).marshal)
    (hfree : fs.read (tempPath (configPath repoRoot) uuid) = none)
    (h : Logged FsCall.Faulty (markEncrypted uuid repoRoot) fs log q fs') :
    WrittenOnce (configPath repoRoot) uuid (secondConfig deviceID env).marshal log q fs fs' := by
  rcases logged_bind h with ⟨c, next, hload, rfl⟩ | ⟨loaded, fs₁, log₁, log₂, rfl, hload, hloaded⟩
  · obtain ⟨rfl, hlog⟩ := logged_looks (calls_loadConfig repoRoot) hload
    exact writtenOnce_refl hlog nofun
  obtain ⟨rfl, hlog₁⟩ := logged_looks (calls_loadConfig repoRoot) (logged_of_record hload)
  refine .after hlog₁ ?_
  rcases loaded with e | cfg
  · obtain ⟨rfl, rfl, rfl⟩ := logged_ret hloaded
    exact writtenOnce_refl renames_nil nofun
  · have hcfg : { cfg with encrypted := true } = secondConfig deviceID env := by
      obtain ⟨content, fs₂, rest, hout, rfl, hcontent⟩ := record_ask hload
      obtain ⟨rfl, hread⟩ := hout.readFile
      rcases content with e | data
      · exact nomatch hcontent.2.1
      cases hconfig.symm.trans (hread data rfl)
      dsimp only at hcontent
      rw [unmarshal_firstConfig] at hcontent
      cases hcontent.2.1
      rfl
    rw [← hcfg]
    exact logged_named hfree hloaded

/-- How far an initialisation has come, told by how often `config.json` was replaced. -/
inductive InitStage (repoRoot deviceID : Bytes) (env : InitInputs)
    (content : Except RepoError Bytes) (log : List (Sigma FsCall.Answer)) (fs : FileSystem) : Prop
  | before (hcount : renames (configPath repoRoot) log = 0)
      (hconfig : fs.read (configPath repoRoot) = none)
  | between (hcount : renames (configPath repoRoot) log = 1)
      (hconfig : fs.read (configPath repoRoot) = some (firstConfig deviceID env).marshal)
  | after (hcount : renames (configPath repoRoot) log = 2)
      (hconfig : fs.read (configPath repoRoot) = some (secondConfig deviceID env).marshal)
      {data : Bytes} (hcontent : content = .ok data)
      (hkey : fs.read (keyFilePath repoRoot) = some data)

/-- **At every point of an initialisation** it is in one of these stages. -/
theorem logged_initWithKey (hfree : ∀ rest, fs.read (metaDirOf repoRoot ++ slash :: rest) = none)
    (h : Logged FsCall.Faulty (initWithKey repoRoot deviceID env content keyUuid uuid) fs log q fs') :
    InitStage repoRoot deviceID env content log fs' := by
  have hentry : ∀ {b g}, Entry repoRoot b g → fs.read g = none := by
    rintro b g ⟨rest, rfl⟩
    exact hfree (b :: rest)
  have hconfig := entry_config repoRoot
  have hkey := entry_key repoRoot
  have hstart : ∀ {q : FsProg (Except RepoError Unit)} {log fs'}, WrittenOnce (configPath repoRoot)
      env.uuid (firstConfig deviceID env).marshal log q fs fs' →
      InitStage repoRoot deviceID env content log fs' := by
    intro q log fs' hw
    by_cases h0 : renames (configPath repoRoot) log = 0
    · exact .before h0 ((hw.old h0).trans (hentry hconfig))
    · have honce := hw.once
      exact .between (by omega) (hw.new h0).1
  have htmp := hentry (hconfig.tempPath env.uuid)
  rcases logged_bind h with ⟨c, next, hinit, -⟩ | ⟨made, fs₁, log₁, log₂, rfl, hinit, hmade⟩
  · exact hstart (logged_initRepo htmp hinit)
  have hfirst := logged_initRepo htmp (logged_of_record hinit)
  rcases made with e | ⟨⟩
  · obtain ⟨rfl, -, rfl⟩ := logged_ret hmade
    rw [append_nil]
    exact hstart hfirst
  have hcount₁ := hfirst.done rfl
  obtain ⟨hconfig₁, htmp₁⟩ := hfirst.new (by omega)
  -- the staging names are free again, whatever they are
  have hfree₁ : ∀ g, Entry repoRoot 0x63 g → g ≠ configPath repoRoot → fs₁.read g = none := by
    intro g hg hne
    by_cases heq : g = tempPath (configPath repoRoot) env.uuid
    · exact heq ▸ htmp₁
    · exact (hfirst.others g hne heq).trans (hentry hg)
  have hkey₁ : fs₁.read (tempPath (keyFilePath repoRoot) keyUuid) = none :=
    (hfirst.others _ ((hkey.tempPath _).ne hconfig (by decide))
      ((hkey.tempPath _).ne (hconfig.tempPath _) (by decide))).trans (hentry (hkey.tempPath _))
  cases content with
  | error e =>
    obtain ⟨rfl, -, rfl⟩ := logged_ret hmade
    rw [append_nil]
    exact .between hcount₁ hconfig₁
  | ok data =>
    -- the key file is another file
    have hbetween : ∀ {q : FsProg (Except RepoError Unit)} {log fs'}, WrittenOnce
        (keyFilePath repoRoot) keyUuid data log q fs₁ fs' →
        renames (configPath repoRoot) (log₁ ++ log) = 1 ∧
          ∀ g, Entry repoRoot 0x63 g → fs'.read g = fs₁.read g := by
      intro q log fs' hw
      constructor
      · rw [renames_append, hcount₁, hw.elsewhere _ (hconfig.ne hkey (by decide))]
      · exact fun g hg => hw.others g (hg.ne hkey (by decide))
          (hg.ne (hkey.tempPath _) (by decide))
    rcases logged_bind hmade with ⟨c, next, hwrite, -⟩ |
      ⟨written, fs₂, log₃, log₄, rfl, hwrite, hwritten⟩
    · obtain ⟨hcount, hsame⟩ := hbetween (logged_named hkey₁ hwrite)
      exact .between hcount ((hsame _ hconfig).trans hconfig₁)
    have hw := logged_named hkey₁ (logged_of_record hwrite)
    obtain ⟨hcount, hsame⟩ := hbetween hw
    have hconfig₂ := (hsame _ hconfig).trans hconfig₁
    rcases written with e | ⟨⟩
    · obtain ⟨rfl, -, rfl⟩ := logged_ret hwritten
      rw [append_nil]
      exact .between hcount hconfig₂
    have hkey₂ : fs₂.read (keyFilePath repoRoot) = some data :=
      (hw.new (by rw [hw.done rfl]; exact Nat.one_ne_zero)).1
    have hfree₂ : fs₂.read (tempPath (configPath repoRoot) uuid) = none :=
      (hsame _ (hconfig.tempPath _)).trans (hfree₁ _ (hconfig.tempPath _) (tempPath_ne _ _))
    have hmark := logged_markEncrypted hconfig₂ hfree₂ hwritten
    have htotal : renames (configPath repoRoot) (log₁ ++ (log₃ ++ log₄)) =
        1 + renames (configPath repoRoot) log₄ := by
      rw [← append_assoc, renames_append, hcount]
    by_cases h0 : renames (configPath repoRoot) log₄ = 0
    · exact .between (htotal.trans (by rw [h0])) ((hmark.old h0).trans hconfig₂)
    · have honce := hmark.once
      refine .after (htotal.trans (by omega)) (hmark.new h0).1 rfl ?_
      exact (hmark.others _ (hkey.ne hconfig (by decide))
        (hkey.ne (hconfig.tempPath _) (by decide))).trans hkey₂

end

/-! ## The directory of the manifests -/

section

/-- A call that puts nothing among the manifests. -/
def LeavesManifests (repoRoot : Bytes) (c : FsCall) : Prop :=
  ∀ rest, ¬ Disk.Makes (manifestsDir (metaDirOf repoRoot) ++ slash :: rest) c

theorem OnPath.length_le {dir path : Bytes} (h : OnPath dir path) : dir.length ≤ path.length := by
  rcases h with rfl | ⟨rest, rfl⟩ <;> simp

theorem not_onPath_metaDir (rest : Bytes) :
    ¬ OnPath (manifestsDir (metaDirOf repoRoot) ++ slash :: rest) (metaDirOf repoRoot) := by
  intro h
  have hlength := h.length_le
  rw [manifestsDir_eq] at hlength
  simp at hlength

theorem not_onPath_manifests (rest : Bytes) :
    ¬ OnPath (manifestsDir (metaDirOf repoRoot) ++ slash :: rest)
      (metaDirOf repoRoot ++ ascii "/manifests") := by
  intro h
  have hlength := h.length_le
  have hascii : ascii "/manifests" = slash :: ascii "manifests" := by decide
  rw [manifestsDir_eq, hascii] at hlength
  simp at hlength

theorem not_onPath_gb (hapart : ¬ OnPath (metaDirOf repoRoot) repoRoot) (rest : Bytes) :
    ¬ OnPath (manifestsDir (metaDirOf repoRoot) ++ slash :: rest) (repoRoot ++ ascii "/gb") := by
  intro h
  have hgb : repoRoot ++ ascii "/gb" = repoRoot ++ slash :: ascii "gb" := rfl
  have hway : OnPath (metaDirOf repoRoot) (manifestsDir (metaDirOf repoRoot)) := by
    rw [manifestsDir_eq]
    exact onPath_append _ _
  rw [hgb] at h
  refine hapart (hway.trans ?_)
  rcases h with heq | ⟨rest', heq⟩
  · exact onPath_of_append (by decide) heq.symm
  · rw [append_assoc, cons_append] at heq
    exact onPath_of_append (by decide) heq

/-- What an atomic write can make. -/
theorem makes_writeFileAtomic (uuid path data : Bytes) :
    (writeFileAtomic uuid path data).Calls fun c => ∀ g, Disk.Makes g c →
      OnPath g (pathDir path) ∨ g = tempPath path uuid ∨ g = path := by
  refine atomic_calls (fun g hg => .inl hg) (staging_calls ?_ nofun nofun nofun nofun) ?_ nofun
    (sync_calls nofun nofun nofun)
  · exact fun g hg => .inr (.inl hg.symm)
  · exact fun g hg => .inr (.inr hg.symm)

/-- A file in the metadata directory that does not look like a manifest directory. -/
theorem leaves_write {name : Bytes} (hb : b ≠ 0x6d) (hslash : slash ∉ b :: name) (uuid data : Bytes) :
    (writeFileAtomic uuid (metaDirOf repoRoot ++ slash :: b :: name) data).Calls
      (LeavesManifests repoRoot) := by
  have hentry : Entry repoRoot b (metaDirOf repoRoot ++ slash :: b :: name) := ⟨name, rfl⟩
  refine calls_mono (makes_writeFileAtomic uuid _ data) fun c hc rest hmakes => ?_
  have hmanifests := entry_manifests repoRoot rest
  rcases hc _ hmakes with honpath | heq | heq
  · rw [(cleanDir_metaDirOf repoRoot).pathDir hslash] at honpath
    exact not_onPath_metaDir rest honpath
  · exact hmanifests.ne (hentry.tempPath uuid) hb.symm heq
  · exact hmanifests.ne hentry hb.symm heq

theorem leaves_loadConfig : (loadConfig repoRoot).Calls (LeavesManifests repoRoot) := by
  refine calls_ok (sat_ask nofun) (fun _ => trivial) fun data => ?_
  dsimp only
  split <;> exact sat_ret trivial

theorem leaves_makeDirs {dirs : List Bytes}
    (h : ∀ dir ∈ dirs, ∀ rest, ¬ OnPath (manifestsDir (metaDirOf repoRoot) ++ slash :: rest) dir) :
    (makeDirs dirs).Calls (LeavesManifests repoRoot) := by
  induction dirs with
  | nil => exact sat_ret trivial
  | cons dir rest ih =>
    refine calls_ok (sat_ask (h dir mem_cons_self)) (fun _ => trivial) fun ⟨⟩ => ?_
    exact ih fun dir' hmem => h dir' (mem_cons_of_mem _ hmem)

theorem leaves_saveConfig (uuid : Bytes) (cfg : RepoConfig) :
    (saveConfig uuid repoRoot cfg).Calls (LeavesManifests repoRoot) := by
  unfold saveConfig
  rw [configPath_eq]
  exact calls_bind (leaves_write (by decide) (by decide) uuid _) fun r => sat_ret trivial

/-- No initialisation puts anything among the manifests. -/
theorem leaves_initWithKey {deviceID : Bytes} {env : InitInputs}
    (hapart : ¬ OnPath (metaDirOf repoRoot) repoRoot) :
    (initWithKey repoRoot deviceID env content keyUuid uuid).Calls (LeavesManifests repoRoot) := by
  refine calls_bind ?_ fun r => ?_
  · refine calls_bind (calls_bind leaves_loadConfig fun cfg => ?_) fun found => ?_
    · split
      · exact sat_ret trivial
      · refine calls_bind (sat_ask nofun) fun r => ?_
        rcases r with e | entries <;> exact sat_ret trivial
    · split
      · exact sat_ret trivial
      refine calls_bind (leaves_makeDirs ?_) fun r => ?_
      · simp only [repoDirs, mem_cons, not_mem_nil, or_false]
        rintro dir (rfl | rfl | rfl)
        · exact not_onPath_metaDir
        · exact not_onPath_manifests
        · exact not_onPath_gb hapart
      rcases r with e | ⟨⟩
      · exact sat_ret trivial
      dsimp only
      split
      · exact sat_ret trivial
      · exact leaves_saveConfig _ _
  rcases r with e | ⟨⟩
  · exact sat_ret trivial
  cases content with
  | error e => exact sat_ret trivial
  | ok data =>
    refine calls_bind ?_ fun r => ?_
    · unfold writeKeyFile
      rw [keyFilePath_eq]
      exact calls_bind (leaves_write (by decide) (by decide) keyUuid data) fun r => sat_ret trivial
    rcases r with e | ⟨⟩
    · exact sat_ret trivial
    refine calls_ok leaves_loadConfig (fun _ => trivial) fun cfg => ?_
    exact leaves_saveConfig _ _

end

/-! ## All or nothing -/

section
variable {d d' : Disk} {now : Int}

theorem runs_loadConfig {cfg : RepoConfig} (hread : d.fs.read (configPath repoRoot) = some data)
    (hcfg : RepoConfig.unmarshal data = some cfg) :
    (loadConfig repoRoot).Runs (Disk.Outcome .none now) d fun r d' => r = .ok cfg ∧ d' = d := by
  refine runs_readFile hread ?_
  simp only [Option.elim, hcfg]
  exact runs_ret ⟨rfl, rfl⟩

theorem notARepo_of_read (hread : d.fs.read (configPath repoRoot) = none)
    (hbare : d.Bare (manifestsDir (metaDirOf repoRoot))) : NotARepo repoRoot d := by
  intro now
  have hload : (loadConfig repoRoot).Runs (Disk.Outcome .none now) d fun r d' =>
      knownFormat r = false ∧ d' = d :=
    runs_readFile hread (runs_ret ⟨rfl, rfl⟩)
  refine runs_bind hload ?_
  rintro cfg d' ⟨hformat, rfl⟩
  rw [hformat, if_neg Bool.false_ne_true]
  refine runs_readDir_or (fun entries hlists => ?_) fun e => runs_ret rfl
  obtain rfl := hbare.lists hlists
  exact runs_ret rfl

/-- A configuration of this format is that of a repository. -/
theorem runs_isGBRepo {cfg : RepoConfig} (hread : d.fs.read (configPath repoRoot) = some data)
    (hcfg : RepoConfig.unmarshal data = some cfg) (hformat : cfg.format = formatGBF) :
    (isGBRepo repoRoot).Runs (Disk.Outcome .none now) d fun found _ => found = true := by
  refine runs_bind (runs_loadConfig hread hcfg) ?_
  rintro r d' ⟨rfl, rfl⟩
  rw [if_pos (by simp [knownFormat, hformat])]
  exact runs_ret rfl

/-- **An initialisation is all or nothing** exactly if it does not end between the two
replacements of `config.json`. -/
theorem initWithKey_iff {deviceID : Bytes} {env : InitInputs}
    {unlock : FsProg (Except RepoError Bytes)}
    (hunlock : ∀ data d, content = .ok data → d.fs.read (keyFilePath repoRoot) = some data →
      ∀ now, unlock.Runs (Disk.Outcome .none now) d fun r _ => ∃ key, r = .ok key ∧ key.length = 32)
    (hfresh : FreshRoot d repoRoot) {log : List (Sigma FsCall.Answer)}
    {q : FsProg (Except RepoError Unit)}
    (h : Logged Disk.Faulty (initWithKey repoRoot deviceID env content keyUuid uuid) d log q d') :
    NotARepo repoRoot d' ∨ Secured repoRoot unlock d' ↔ renames (configPath repoRoot) log ≠ 1 := by
  have hfree : ∀ rest, d.fs.read (metaDirOf repoRoot ++ slash :: rest) = none :=
    fun rest => FileSystem.read_eq_none.mpr (hfresh.bare rest).1
  have hbare : d'.Bare (manifestsDir (metaDirOf repoRoot)) := by
    intro rest
    refine (logged_of_calls
      (fun d : Disk => d.Absent (manifestsDir (metaDirOf repoRoot) ++ slash :: rest))
      (leaves_initWithKey hfresh.apart) (fun c d r d' hc hout habsent => ?_) h ?_).1
    · exact habsent.kept (hc rest) hout
    · obtain ⟨name, hname⟩ := entry_manifests repoRoot rest
      rw [hname]
      exact hfresh.bare _
  cases logged_initWithKey hfree (logged_files h) with
  | before hcount hconfig =>
    exact iff_of_true (.inl (notARepo_of_read hconfig hbare)) (by rw [hcount]; decide)
  | between hcount hconfig =>
    -- recognised as a repository, and not as an encrypted one
    have hcfg := unmarshal_firstConfig deviceID env
    have hformat : coerce formatGBF = formatGBF := by decide
    refine iff_of_false ?_ (fun hne => hne hcount)
    rintro (hnot | hsecured)
    · obtain ⟨found, _, hfalse, htrue⟩ :=
        (hnot 0).exists (runs_isGBRepo hconfig hcfg hformat)
      exact absurd (hfalse.symm.trans htrue) Bool.false_ne_true
    · obtain ⟨r, _, ⟨cfg, hr, hencrypted⟩, hr', -⟩ :=
        (hsecured.encrypted 0).exists (runs_loadConfig hconfig hcfg)
      cases hr.symm.trans hr'
      exact absurd hencrypted Bool.false_ne_true
  | after hcount hconfig hcontent hkey =>
    refine iff_of_true (.inr ⟨fun now => ?_, hunlock _ _ hcontent hkey⟩) (by rw [hcount]; decide)
    refine (runs_loadConfig hconfig (unmarshal_secondConfig deviceID env)).mono ?_
    rintro r _ ⟨rfl, -⟩
    exact ⟨_, rfl, rfl⟩

/-- The password unlocks what was wrapped. -/
theorem runs_unlock {P : Primitives} {argon2 : PasswordDerivation} (haead : P.AEADLaws)
    {password : Bytes} {wrap : WrapInputs}
    (hcontent : passwordContent P argon2 password masterKey wrap = .ok data)
    (hread : d.fs.read (keyFilePath repoRoot) = some data) :
    (unlockRepoWithPassword P argon2 repoRoot password).Runs (Disk.Outcome .none now) d
      fun r _ => ∃ key, r = .ok key ∧ key.length = 32 := by
  cases masterKey with
  | none => exact nomatch hcontent
  | some masterKey =>
    refine runs_readFile hread (runs_ret ?_)
    exact ⟨masterKey.bytes, (unlock_encode haead hcontent).2, masterKey.length_eq⟩

/-- A plain key file is read back. -/
theorem decodeKey_marshal (masterKey : MasterKey) :
    ∃ kf, parseKeyFile (KeyFileData.marshal
        ⟨1, ascii "aes-256-gcm", base64Encode masterKey.bytes, []⟩) = .ok kf ∧
      kf.decodeKey = .ok masterKey.bytes := by
  have hversion : IsInt64 (1 : Int) := by decide
  have hascii : coerce (base64Encode masterKey.bytes) = base64Encode masterKey.bytes :=
    coerce_of_valid (validString_of_ascii fun b hb => mem_base64Encode b hb)
  have hne : base64Encode masterKey.bytes ≠ [] := by
    refine base64Encode_ne_nil fun hnil => ?_
    have hlength := masterKey.length_eq
    rw [hnil] at hlength
    exact nomatch hlength
  refine ⟨⟨1, coerce (ascii "aes-256-gcm"), coerce (base64Encode masterKey.bytes), coerce []⟩,
    ?_, ?_⟩
  · rw [parseKeyFile, isGEK1_marshal, if_neg Bool.false_ne_true,
      KeyFileData.unmarshal_marshal hversion]
  · rw [KeyFileData.decodeKey]
    simp only [hascii]
    rw [if_neg hne, base64Decode_encode]

theorem runs_loadMasterKey (hcontent : plainContent masterKey = .ok data)
    (hread : d.fs.read (keyFilePath repoRoot) = some data) :
    (loadMasterKey repoRoot).Runs (Disk.Outcome .none now) d
      fun r _ => ∃ key, r = .ok key ∧ key.length = 32 := by
  cases masterKey with
  | none => exact nomatch hcontent
  | some masterKey =>
    cases hcontent
    obtain ⟨kf, hparse, hkey⟩ := decodeKey_marshal masterKey
    have hload : (loadKeyFile repoRoot).Runs (Disk.Outcome .none now) d fun r _ => r = .ok kf :=
      runs_readFile hread (runs_ret hparse)
    refine runs_bind hload ?_
    rintro r d' rfl
    exact runs_ret ⟨masterKey.bytes, hkey, masterKey.length_eq⟩

end

/-- **Both initialisations are all or nothing** exactly if the run does not end between the two
renames onto `config.json`, wherever it is cut off and whichever calls fail. -/
theorem init_all_or_nothing_iff (P : Primitives) (argon2 : PasswordDerivation) (haead : P.AEADLaws)
    (repoRoot deviceID password : Bytes) (env : InitInputs) (masterKey : Option MasterKey)
    (wrap : WrapInputs) (keyUuid uuid : Bytes) (d d' : Disk) (hfresh : FreshRoot d repoRoot)
    (log : List (Sigma FsCall.Answer)) (q : FsProg (Except RepoError Unit)) :
    (Logged Disk.Faulty
        (initRepoWithPassword P argon2 repoRoot deviceID password env masterKey wrap uuid) d log q
        d' →
      (NotARepo repoRoot d' ∨ Secured repoRoot
          (unlockRepoWithPassword P argon2 repoRoot password) d' ↔
        renames (configPath repoRoot) log ≠ 1)) ∧
    (Logged Disk.Faulty (initRepoWithKeyFile repoRoot deviceID env masterKey keyUuid uuid) d log q
        d' →
      (NotARepo repoRoot d' ∨ Secured repoRoot (loadMasterKey repoRoot) d' ↔
        renames (configPath repoRoot) log ≠ 1)) := by
  constructor
  · intro h
    rw [initRepoWithPassword_eq] at h
    exact initWithKey_iff (fun _ _ hcontent hread now => runs_unlock haead hcontent hread) hfresh h
  · intro h
    rw [initRepoWithKeyFile_eq] at h
    exact initWithKey_iff (fun _ _ hcontent hread now => runs_loadMasterKey hcontent hread) hfresh h

/-! ## A repository that is left without its key -/

/-- An empty directory. -/
def emptyRoot : Image := ⟨[ascii "/r"], [], []⟩

theorem emptyRoot_valid : emptyRoot.Valid := by decide

theorem emptyRoot_fresh : FreshRoot (emptyRoot.disk emptyRoot_valid) (ascii "/r") := by
  have hmeta : metaDirOf (ascii "/r") = ascii "/r/.ginkgo-backup" := by decide
  refine ⟨fun rest => ⟨rfl, fun hdir => ?_⟩, ?_⟩
  · have hlength := congrArg List.length (mem_singleton.mp hdir)
    rw [hmeta] at hlength
    simp [ascii] at hlength
  · rw [hmeta]
    rintro (heq | ⟨rest, heq⟩)
    · exact absurd heq (by decide)
    · have hlength := congrArg List.length heq
      simp [ascii] at hlength

def sampleInit : InitInputs :=
  ⟨ascii "00000000-0000-4000-8000-000000000000", ascii "2024-01-01T00:00:00Z",
    some 0x3da3358b4dc173, ascii "u"⟩

def zeroMasterKey : MasterKey := ⟨zeroKey, length_zeroKey⟩

/-- A computed initialisation that gets to its end. -/
theorem exists_logged_init {p : FsProg (Except RepoError Unit)}
    (h : (emptyRoot.run 0 p).any (fun q => decide (q.1 = .ok () ∧
      renames (configPath (ascii "/r")) q.2.1 ≠ 1 ∧ q.2.2.Valid)) = true) :
    ∃ log d', Logged Disk.Faulty p (emptyRoot.disk emptyRoot_valid) log (pure (.ok ())) d' ∧
      renames (configPath (ascii "/r")) log ≠ 1 := by
  obtain ⟨⟨r, log, i⟩, hrun, hok⟩ := (any_eq_true _ _).mp h
  obtain ⟨rfl, hcount, hvalid⟩ := of_decide_eq_true hok
  exact ⟨log, _, logged_of_record (record_faulty (Image.record_run emptyRoot_valid hvalid hrun)),
    hcount⟩

/-- Without errors both initialisations get to their end. -/
theorem init_all_or_nothing_sample :
    (∃ log d', Logged Disk.Faulty (initRepoWithPassword wrapPrimitives secretDerivation (ascii "/r")
        (ascii "d") (ascii "secret") sampleInit (some zeroMasterKey) zeroWrap (ascii "v"))
        (emptyRoot.disk emptyRoot_valid) log (pure (.ok ())) d' ∧
      (NotARepo (ascii "/r") d' ∨ Secured (ascii "/r")
        (unlockRepoWithPassword wrapPrimitives secretDerivation (ascii "/r") (ascii "secret")) d')) ∧
    ∃ log d', Logged Disk.Faulty (initRepoWithKeyFile (ascii "/r") (ascii "d") sampleInit
        (some zeroMasterKey) (ascii "w") (ascii "v"))
        (emptyRoot.disk emptyRoot_valid) log (pure (.ok ())) d' ∧
      (NotARepo (ascii "/r") d' ∨ Secured (ascii "/r") (loadMasterKey (ascii "/r")) d') := by
  have haead := withCipher_aead samplePrimitives wrapKeystream length_wrapTag
  constructor
  · obtain ⟨log, d', hlogged, hcount⟩ := exists_logged_init (p := initRepoWithPassword wrapPrimitives
      secretDerivation (ascii "/r") (ascii "d") (ascii "secret") sampleInit (some zeroMasterKey)
      zeroWrap (ascii "v")) (by decide +kernel)
    exact ⟨log, d', hlogged, ((init_all_or_nothing_iff wrapPrimitives secretDerivation haead _ _ _ _
      _ _ [] _ _ _ emptyRoot_fresh _ _).1 hlogged).mpr hcount⟩
  · obtain ⟨log, d', hlogged, hcount⟩ := exists_logged_init (p := initRepoWithKeyFile (ascii "/r")
      (ascii "d") sampleInit (some zeroMasterKey) (ascii "w") (ascii "v")) (by decide +kernel)
    exact ⟨log, d', hlogged, ((init_all_or_nothing_iff wrapPrimitives secretDerivation haead _ _ []
      _ _ zeroWrap _ _ _ _ emptyRoot_fresh _ _).2 hlogged).mpr hcount⟩

/-- The directory of the key file cannot be opened, and the initialisation fails: it leaves a
repository that is not encrypted. -/
theorem init_leaves_unencrypted :
    ∃ log d', (initRepoWithPassword wrapPrimitives secretDerivation (ascii "/r") (ascii "d")
        (ascii "secret") sampleInit (some zeroMasterKey) zeroWrap (ascii "v")).Record Disk.Faulty
        (emptyRoot.disk emptyRoot_valid) log (.error (.writeKeyFile .other)) d' ∧
      (isGBRepo (ascii "/r")).Runs (Disk.Outcome .none 0) d' (fun found _ => found = true) ∧
      (loadConfig (ascii "/r")).Runs (Disk.Outcome .none 0) d' fun r _ =>
        ∃ cfg, r = .ok cfg ∧ cfg.encrypted = false := by
  have hcomputed : (emptyRoot.run 0 (initRepo (ascii "/r") (ascii "d") sampleInit)).any
      (fun p => decide (p.1 = .ok () ∧ p.2.2.Valid)) = true := by
    decide +kernel
  obtain ⟨⟨r, log, i⟩, hrun, hok⟩ := (any_eq_true _ _).mp hcomputed
  obtain ⟨rfl, hvalid⟩ := of_decide_eq_true hok
  have hinit := record_faulty (Image.record_run emptyRoot_valid hvalid hrun)
  have hwritten := logged_initRepo rfl (logged_files (logged_of_record hinit))
  have hconfig := (hwritten.new (by rw [hwritten.done rfl]; exact Nat.one_ne_zero)).1
  have hcfg := unmarshal_firstConfig (ascii "d") sampleInit
  refine ⟨log ++ [⟨.mkdirAll (pathDir (keyFilePath (ascii "/r"))), .error .other⟩], i.disk hvalid,
    record_bind_mpr hinit ?_, runs_isGBRepo hconfig hcfg (by decide),
    (runs_loadConfig hconfig hcfg).mono ?_⟩
  · have hfails : Disk.Faulty (i.disk hvalid) (.mkdirAll (pathDir (keyFilePath (ascii "/r"))))
        (.error .other) (i.disk hvalid) :=
      ⟨⟨fun _ => False, True⟩, 0, rfl, .inl trivial, rfl, rfl⟩
    exact ⟨.error .other, i.disk hvalid, [], hfails, rfl, rfl, rfl, rfl⟩
  · rintro r _ ⟨rfl, -⟩
    exact ⟨_, rfl, rfl⟩

end GbfCore
