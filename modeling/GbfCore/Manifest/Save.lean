import GbfCore.Manifest.CommitSafety
import GbfCore.Manifest.Load

/-!
# Saving a manifest (manifest.go)

`prepareSave` is what `SaveManifestWithKey` does before its first file-system call;
from there on the save is one of the threads of `Commit`. A saved manifest is loaded
back with its strings coerced to UTF-8, so it comes back unchanged exactly if they
all were valid (`load_saved_iff`).
-/

namespace GbfCore

open Json List Threads

variable {key : Bytes} {m : Manifest}

/-! ## Paths -/

/-- `ManifestDir`. -/
def manifestDir (metaDir cloudID : Bytes) : Bytes := pathJoin [metaDir, ascii "manifests", cloudID]

/-- The name of a manifest file: its second and its device. -/
def manifestFileName (unix : Int) (deviceID : Bytes) : Bytes :=
  intText unix ++ ascii "_" ++ deviceID ++ jsonZst

/-- `ManifestFilePath`. -/
def manifestFilePath (metaDir cloudID : Bytes) (unix : Int) (deviceID : Bytes) : Bytes :=
  pathJoin [manifestDir metaDir cloudID, manifestFileName unix deviceID]

/-- `strings.TrimSuffix`. -/
def trimSuffix (suffix s : Bytes) : Bytes :=
  if suffix <:+ s then s.take (s.length - suffix.length) else s

/-! ## Preparing a save -/

/-- The errors of a save before its first file-system call. -/
inductive SaveError where
  | structure (e : StructureError)
  | cloudID (e : CloudIDError)
  | deviceID (e : CloudIDError)
deriving DecidableEq, Repr

/-- The second of the file name: that of the timestamp, or the present one if the
timestamp cannot be read. -/
def Manifest.saveUnix (m : Manifest) (now : Int) : Int :=
  match parseRFC3339 m.timestamp with
  | some (unix, _) => unix
  | none => now

/-- `ManifestPathKey`. -/
def manifestPathKey (fingerprint sourceID : Bytes) : Bytes := fingerprint ++ slash :: sourceID

/-- The source a manifest is saved under. -/
def Manifest.saveCloudID (m : Manifest) : Bytes :=
  if m.cloudID = [] then manifestPathKey m.deviceID (intText m.sourceID) else m.cloudID

section
variable (P : Primitives) (hkdf : KeyDerivation)

/-- The compressed and, with a key, encrypted text. -/
def savePayload (key : Bytes) (iv : IV) (m : Manifest) : Bytes :=
  if key = [] then P.zstdCompress m.marshal
  else encryptManifest P hkdf iv key (P.zstdCompress m.marshal)

/-- `SaveManifestWithKey` up to its first file-system call. -/
def prepareSave (metaDir : Bytes) (now : Int) (key : Bytes) (iv : IV) (uuid : Bytes)
    (m : Manifest) : Except SaveError SaveJob :=
  (m.validateStructure.mapError .structure).bind fun _ =>
    ((validateCloudID m.saveCloudID).mapError .cloudID).bind fun _ =>
      ((validateCloudID m.deviceID).mapError .deviceID).bind fun _ =>
        .ok {
          stem := trimSuffix jsonZst
            (manifestFilePath metaDir m.saveCloudID (m.saveUnix now) m.deviceID)
          payload := savePayload P hkdf key iv m
          uuid := uuid }

end

variable {P : Primitives} {hkdf : KeyDerivation}

theorem prepareSave_ok {metaDir : Bytes} {now : Int} {iv : IV} {uuid : Bytes} {job : SaveJob} :
    prepareSave P hkdf metaDir now key iv uuid m = .ok job ↔
      m.Structured ∧ validateCloudID m.saveCloudID = .ok () ∧ validateCloudID m.deviceID = .ok () ∧
        job = ⟨trimSuffix jsonZst
          (manifestFilePath metaDir m.saveCloudID (m.saveUnix now) m.deviceID),
          savePayload P hkdf key iv m, uuid⟩ := by
  rw [prepareSave, then_eq_ok, mapError_eq_ok, validateStructure_ok_iff, then_eq_ok, mapError_eq_ok,
    then_eq_ok, mapError_eq_ok, Except.ok.injEq]
  constructor
  · rintro ⟨hm, hc, hd, rfl⟩
    exact ⟨hm, hc, hd, rfl⟩
  · rintro ⟨hm, hc, hd, rfl⟩
    exact ⟨hm, hc, hd, rfl⟩

/-! ## Loading what was saved -/

/-- Digests have 32 bytes, by their type. -/
def Primitives.DigestLength (P : Primitives) : Prop := ∀ d, (P.sha256 d).length = sha256Size

theorem isGBREnvelope_gbrEnvelope (hsha : P.DigestLength) (payload : Bytes) :
    isGBREnvelope (gbrEnvelope P payload) = true := by
  rw [isGBREnvelope, Bool.and_eq_true, decide_eq_true_eq, decide_eq_true_eq]
  constructor
  · rw [gbrEnvelope, length_append, length_append, hsha]
    exact Nat.le_add_right _ _
  · rw [gbrEnvelope, append_assoc]
    exact take_left

theorem stripGBREnvelope_gbrEnvelope (hsha : P.DigestLength) (payload : Bytes) :
    stripGBREnvelope P (gbrEnvelope P payload) = some payload := by
  have hlen : (registryEnvelopeMagic ++ P.sha256 payload).length = registryEnvelopeHeaderSize := by
    rw [length_append, hsha]
    rfl
  have htake : (gbrEnvelope P payload).take registryEnvelopeHeaderSize =
      registryEnvelopeMagic ++ P.sha256 payload := by
    rw [gbrEnvelope, ← hlen]
    exact take_left
  have hdrop : (gbrEnvelope P payload).drop registryEnvelopeHeaderSize = payload := by
    rw [gbrEnvelope, ← hlen]
    exact drop_left
  unfold stripGBREnvelope
  dsimp only
  rw [htake, hdrop, drop_left, if_pos rfl]

theorem isGKM1_encryptManifest (iv : IV) (key plaintext : Bytes) :
    isGKM1 (encryptManifest P hkdf iv key plaintext) = true := by
  have hlen : gkm1Magic.length = magicSize := rfl
  rw [isGKM1, encryptManifest, append_assoc, ← hlen, take_left, length_append]
  simp

/-- A compressed text is not taken for an encrypted one. -/
theorem isGKM1_of_isCompressed {data : Bytes} (h : isCompressed data = true) :
    isGKM1 data = false := by
  rw [isCompressed, Bool.and_eq_true, decide_eq_true_eq, decide_eq_true_eq] at h
  have hne : data.take magicSize ≠ gkm1Magic := by
    rw [show magicSize = 4 from rfl, h.2]
    decide
  rw [isGKM1, decide_eq_false hne, Bool.and_false]

theorem decryptManifest_encryptManifest (haead : P.AEADLaws) (iv : IV) (key plaintext : Bytes) :
    decryptManifest P hkdf key (encryptManifest P hkdf iv key plaintext) = some plaintext := by
  have hkey : validKey (hkdf key).1 = true := by
    simp [validKey, (hkdf key).2]
  have hdrop : (encryptManifest P hkdf iv key plaintext).drop magicSize =
      iv.bytes ++ P.gcmSeal (hkdf key).1 iv.bytes plaintext := by
    rw [encryptManifest, append_assoc, show magicSize = gkm1Magic.length from rfl]
    exact drop_left
  have hlen : ¬ (iv.bytes ++ P.gcmSeal (hkdf key).1 iv.bytes plaintext).length <
      ivSize + tagSize := by
    rw [length_append, haead.length_seal _ _ _ hkey iv.length_eq, iv.length_eq]
    omega
  have htake : (iv.bytes ++ P.gcmSeal (hkdf key).1 iv.bytes plaintext).take ivSize = iv.bytes := by
    rw [← iv.length_eq]
    exact take_left
  have hct : (iv.bytes ++ P.gcmSeal (hkdf key).1 iv.bytes plaintext).drop ivSize =
      P.gcmSeal (hkdf key).1 iv.bytes plaintext := by
    rw [← iv.length_eq]
    exact drop_left
  have hsmall : decryptSmall P (newDecryptor (hkdf key).1 defaultChunkSize)
      (iv.bytes ++ P.gcmSeal (hkdf key).1 iv.bytes plaintext) = .ok plaintext := by
    have hdkey : (newDecryptor (hkdf key).1 defaultChunkSize).key = (hkdf key).1 := rfl
    rw [decryptSmall, if_neg hlen, hdkey, hkey, if_neg (by decide), htake, hct,
      haead.open_seal _ _ _ hkey iv.length_eq]
  rw [decryptManifest, isGKM1_encryptManifest, if_neg (by decide), hdrop, hsmall]

theorem marshal_ne_nil (m : Manifest) : m.marshal ≠ [] := nofun

theorem manifestText_gbrEnvelope (hsha : P.DigestLength) (hook : DecryptHook) (payload : Bytes) :
    manifestText P hook (gbrEnvelope P payload) =
      (runDecryptHook hook payload).bind (decompressManifest P) := by
  rw [manifestText, unwrapEnvelope, isGBREnvelope_gbrEnvelope hsha, if_pos rfl,
    stripGBREnvelope_gbrEnvelope hsha]
  rfl

/-- The text comes out of the saved file again. -/
theorem manifestText_saved (hsha : P.DigestLength) (haead : P.AEADLaws) (hzstd : P.ZstdLaws)
    {hook : DecryptHook} (hkey : key ≠ [] → hook = some (decryptManifest P hkdf key)) (iv : IV)
    (hsize : m.marshal.length ≤ maxManifestDecompressedSize) :
    manifestText P hook (gbrEnvelope P (savePayload P hkdf key iv m)) = .ok m.marshal := by
  have hzip : isCompressed (P.zstdCompress m.marshal) = true :=
    hzstd.isCompressed_compress _ (marshal_ne_nil m)
  have hopen : runDecryptHook hook (savePayload P hkdf key iv m) = .ok (P.zstdCompress m.marshal) := by
    unfold runDecryptHook savePayload
    by_cases hk : key = []
    · rw [if_pos hk, isGKM1_of_isCompressed hzip, if_neg (by decide)]
    · rw [if_neg hk, isGKM1_encryptManifest, if_pos rfl, hkey hk]
      dsimp only
      rw [decryptManifest_encryptManifest haead]
  have hunzip : decompressManifest P (P.zstdCompress m.marshal) = .ok m.marshal := by
    rw [decompressManifest, hzip, if_pos rfl, hzstd.decompress_compress _ _ hsize]
  rw [manifestText_gbrEnvelope hsha, hopen]
  exact hunzip

/-- What a manifest of the current version is decoded to. -/
theorem decodeManifest_marshal (hm : m.Typed) (hversion : m.version = 2) :
    decodeManifest m.marshal =
      (m.sanitized.validateStructure.mapError .validation).bind fun _ => .ok m.sanitized := by
  have hnew : ¬ m.sanitized.version < 2 := by
    show ¬ m.version < 2
    omega
  rw [decodeManifest, parse_marshal]
  dsimp only
  rw [ofJson_coerce_toJson hm]
  dsimp only
  rw [if_neg hnew]

theorem structured_filePath {f : Bytes} (h : m.Structured) :
    { m with filePath := f }.Structured :=
  ⟨fun e he =>
    let ⟨d, hd, hok⟩ := h.dirs e he
    ⟨d, hd, hok.key, hok.files, hok.nodup, hok.subDirs⟩,
    h.fileCount, h.totalSize⟩

section
variable (hsha : P.DigestLength) (haead : P.AEADLaws) (hzstd : P.ZstdLaws)
  {hook : DecryptHook} {metaDir : Bytes} {now : Int} {key : Bytes} {iv : IV} {m : Manifest}
  (hkey : key ≠ [] → hook = some (decryptManifest P hkdf key)) (hm : m.Typed)
  (hversion : m.version = 2) (hsize : m.marshal.length ≤ maxManifestDecompressedSize)
  {c : Config FileSystem Save} (hrun : SaveRun P SavesStart c) {i x : Nat} {uuid f : Bytes}
  (hjob : prepareSave P hkdf metaDir now key iv uuid m = .ok (c.thread i).job)
  (hret : (c.thread i).pc = .returned x f)
include hsha haead hzstd hkey hm hversion hsize hrun hjob hret

/-- What is loaded from the path that a save returned, at any later time. -/
theorem loadManifest_returned :
    loadManifest P hook c.shared f =
      (m.sanitized.validateStructure.mapError .validation).bind fun _ =>
        .ok { m.sanitized with filePath := f } := by
  obtain ⟨-, -, -, hjob⟩ := prepareSave_ok.mp hjob
  have hpayload : (c.thread i).job.payload = savePayload P hkdf key iv m := by rw [hjob]
  have hread : c.shared.read f = some (gbrEnvelope P (savePayload P hkdf key iv m)) := by
    rw [← hpayload]
    exact (savesInv_run (fun _ => savesInv_start) hrun).read_target (by rw [hret]; rfl)
      (by rw [hret]; rfl)
  rw [loadManifest, hread]
  dsimp only
  rw [isGBREnvelope_gbrEnvelope hsha, if_pos rfl, loadManifestFromData,
    manifestText_saved hsha haead hzstd hkey iv hsize]
  show (decodeManifest m.marshal).bind _ = _
  rw [decodeManifest_marshal hm hversion]
  cases m.sanitized.validateStructure <;> rfl

/-- **A saved manifest loads back unchanged if its strings are valid UTF-8**, and only
then: whatever other saves have done meanwhile. -/
theorem load_saved_iff :
    (∃ m', loadManifest P hook c.shared f = .ok m' ∧ m'.content = m.content) ↔ m.ValidText := by
  rw [loadManifest_returned hsha haead hzstd hkey hm hversion hsize hrun hjob hret]
  constructor
  · rintro ⟨m', hload, hsame⟩
    obtain ⟨-, heq⟩ := then_eq_ok.mp hload
    cases heq
    exact content_sanitized_iff.mp hsame
  · intro hvalid
    have hstruct : m.sanitized.Structured := by
      rw [Manifest.sanitized_of_valid hvalid]
      exact structured_filePath (prepareSave_ok.mp hjob).1
    refine ⟨_, then_eq_ok.mpr ⟨mapError_eq_ok.mpr (validateStructure_ok_iff.mpr hstruct), rfl⟩, ?_⟩
    exact content_sanitized_iff.mpr hvalid

end

/-! ## Samples -/

/-- A zstd frame with one raw block; for texts below 128 KiB a decoder reads it. -/
def rawFrame (d : Bytes) : Bytes :=
  zstdMagic ++ 0xa0 :: (beEncode 4 d.length).reverse ++ (beEncode 3 (8 * d.length + 1)).reverse ++ d

/-- A manifest of empty files in the root directory. -/
def sampleManifest (names : List Bytes) : Manifest where
  version := 2
  sourceID := 1
  cloudID := ascii "s"
  sourceName := ascii "home"
  sourcePath := ascii "/home"
  timestamp := ascii "2024-01-01T00:00:00Z"
  deviceID := ascii "d"
  dirs := some (SortedMap.empty.insert []
    (some ⟨some (names.map fun name => ⟨name, [], 0, [], 0o644, fileStatusNew, []⟩), none⟩))
  stats := { ManifestStats.zero with fileCount := names.length, newFiles := names.length }
  completeness := []
  filePath := []

/-- The SHA-256 digests of two compressed manifests. -/
def manifestSHA256 (p : Bytes) : Bytes :=
  if p = rawFrame (sampleManifest [ascii "a"]).marshal then
    [0x9a, 0xf6, 0x60, 0x15, 0x35, 0x63, 0x71, 0xd7, 0xcc, 0x80, 0x80, 0x4c, 0x5c, 0xff, 0x1e, 0x66,
     0x35, 0x55, 0xa2, 0x94, 0x2b, 0x41, 0xdb, 0x92, 0x9d, 0x5c, 0x91, 0x4a, 0xe3, 0x05, 0x79, 0x90]
  else if p = rawFrame (sampleManifest [[0xff], [0xfe]]).marshal then
    [0x06, 0xa3, 0x6f, 0x12, 0xe5, 0x52, 0x41, 0xd5, 0x8b, 0xba, 0x03, 0xad, 0xf7, 0x81, 0x9e, 0x10,
     0xb0, 0xbf, 0x4d, 0xc3, 0x9b, 0xcf, 0xfd, 0x48, 0x5d, 0x90, 0x49, 0xf1, 0x42, 0x28, 0x52, 0xec]
  else List.replicate 32 0

def manifestPrimitives : Primitives :=
  { samplePrimitives with
    sha256 := manifestSHA256
    zstdCompress := rawFrame
    zstdDecompress := fun limit data =>
      if data = rawFrame (data.drop 12) ∧ (data.drop 12).length ≤ limit then some (data.drop 12)
      else none }

theorem manifestPrimitives_digest : manifestPrimitives.DigestLength := by
  intro d
  show (manifestSHA256 d).length = 32
  unfold manifestSHA256
  split
  · rfl
  · split
    · rfl
    · exact length_replicate

theorem manifestPrimitives_aead : manifestPrimitives.AEADLaws :=
  ⟨samplePrimitives_aead.open_seal, samplePrimitives_aead.length_seal⟩

theorem drop_rawFrame (d : Bytes) : (rawFrame d).drop 12 = d := by
  have hlen : (zstdMagic ++ 0xa0 :: (beEncode 4 d.length).reverse ++
      (beEncode 3 (8 * d.length + 1)).reverse).length = 12 := by
    simp [zstdMagic]
  rw [rawFrame, ← hlen]
  exact drop_left

theorem manifestPrimitives_zstd : manifestPrimitives.ZstdLaws where
  decompress_compress limit d h := by
    simp only [manifestPrimitives, drop_rawFrame, h, and_self, if_true]
  isCompressed_compress d _ := by
    show isCompressed (rawFrame d) = true
    simp [isCompressed, rawFrame, zstdMagic]

theorem withDigests_digest {P : Primitives} (digests : List (Bytes × Nat)) (h : P.DigestLength) :
    (P.withDigests digests).DigestLength := by
  intro d
  unfold Primitives.withDigests
  dsimp only
  split
  · exact length_beEncode 32 _
  · exact h d

/-- Any key is derived to zeros. -/
def sampleHkdf : KeyDerivation := fun _ => ⟨List.replicate 32 0, rfl⟩

/-- The job of saving a sample without a key. -/
def sampleJob (names : List Bytes) : SaveJob :=
  ⟨ascii "m/manifests/s/1704067200_d", rawFrame (sampleManifest names).marshal, ascii "0"⟩

theorem prepareSave_sample {names : List Bytes}
    (h : (sampleManifest names).validateStructure = .ok ()) :
    prepareSave manifestPrimitives sampleHkdf (ascii "m") 0 [] sampleIV (ascii "0")
      (sampleManifest names) = .ok (sampleJob names) := by
  have hstem : trimSuffix jsonZst (manifestFilePath (ascii "m") (ascii "s")
      ((sampleManifest []).saveUnix 0) (ascii "d")) = ascii "m/manifests/s/1704067200_d" := by
    decide
  refine prepareSave_ok.mpr ⟨validateStructure_ok_iff.mp h, ?_, ?_, ?_⟩
  · show validateCloudID (ascii "s") = .ok ()
    decide
  · show validateCloudID (ascii "d") = .ok ()
    decide
  · rw [sampleJob, ← hstem]
    rfl

/-- A sample is saved by the only save there is. -/
theorem exists_saved_sample {names : List Bytes}
    (h : (sampleManifest names).validateStructure = .ok ()) :
    ∃ c, SaveRun manifestPrimitives SavesStart c ∧
      prepareSave manifestPrimitives sampleHkdf (ascii "m") 0 [] sampleIV (ascii "0")
        (sampleManifest names) = .ok (c.thread 0).job ∧
      (c.thread 0).pc = .returned 0 (sampleJob names).path := by
  obtain ⟨c, hrun, hthread⟩ :=
    lone_save_returns manifestPrimitives (sampleJob names) (show dot ∉ ascii "0" by decide)
  exact ⟨c, hrun, by rw [hthread]; exact prepareSave_sample h, by rw [hthread]⟩

/-- An ASCII name is saved and comes back. -/
theorem load_saved_ascii :
    ∃ c f, SaveRun manifestPrimitives SavesStart c ∧
      prepareSave manifestPrimitives sampleHkdf (ascii "m") 0 [] sampleIV (ascii "0")
        (sampleManifest [ascii "a"]) = .ok (c.thread 0).job ∧
      (c.thread 0).pc = .returned 0 f ∧
      ∃ m', loadManifest manifestPrimitives none c.shared f = .ok m' ∧
        m'.content = (sampleManifest [ascii "a"]).content := by
  have hvalid : (sampleManifest [ascii "a"]).validateStructure = .ok () := by decide
  obtain ⟨c, hrun, hjob, hret⟩ := exists_saved_sample hvalid
  refine ⟨c, _, hrun, hjob, hret, ?_⟩
  refine (load_saved_iff manifestPrimitives_digest manifestPrimitives_aead manifestPrimitives_zstd
    (nofun) (by decide) rfl (by decide +kernel) hrun hjob
    hret).mpr ?_
  exact ⟨by decide, by decide, by decide, by decide, by decide, by decide, by decide, by decide⟩

/-- Two names that are not UTF-8 become the same text: the save succeeds, and the
manifest cannot be loaded any more. -/
theorem saved_not_loadable :
    ∃ c f, SaveRun manifestPrimitives SavesStart c ∧
      prepareSave manifestPrimitives sampleHkdf (ascii "m") 0 [] sampleIV (ascii "0")
        (sampleManifest [[0xff], [0xfe]]) = .ok (c.thread 0).job ∧
      (c.thread 0).pc = .returned 0 f ∧
      loadManifest manifestPrimitives none c.shared f =
        .error (.validation (.duplicateName [] replacement)) := by
  have hvalid : (sampleManifest [[0xff], [0xfe]]).validateStructure = .ok () := by decide
  obtain ⟨c, hrun, hjob, hret⟩ := exists_saved_sample hvalid
  have hcheck : (sampleManifest [[0xff], [0xfe]]).sanitized.validateStructure =
      .error (.duplicateName [] replacement) := by decide
  refine ⟨c, _, hrun, hjob, hret, ?_⟩
  rw [loadManifest_returned manifestPrimitives_digest manifestPrimitives_aead
    manifestPrimitives_zstd (nofun) (by decide) rfl
    (by decide +kernel) hrun hjob hret, hcheck]
  rfl

end GbfCore
