import GbfCore.Manifest.Save

/-!
# Finding saved manifests (manifest.go)

The readers of a source list the directory `ManifestDir` and keep the names that
`isManifestFile` accepts; the second of a manifest is read off its name. A saved
manifest is found if the identifier of its device is a plain part of the file name
(`saved_listed_iff`).
-/

namespace GbfCore

open List Threads

variable {cloudID deviceID random s : Bytes} {unix : Int} {b : UInt8} {attempt : Nat}

/-! ## The readers -/

/-- The entries that `readManifestFiles` returns for a directory. -/
structure ManifestListed (fs : FileSystem) (dir name : Bytes) : Prop where
  ne_nil : name ≠ []
  slash : slash ∉ name
  exists_file : (fs.inode (dir ++ GbfCore.slash :: name)).isSome
  isManifest : isManifestFile name = true

/-- Cut off what stands from the last full stop on, if something stands before it. -/
def stripExtension (name : Bytes) : Bytes :=
  let base := (name.reverse.dropWhile (· != dot)).tail.reverse
  if base = [] then name else base

def underscore : UInt8 := 0x5f

/-- `ParseManifestFilenameTimestamp`. -/
def parseManifestFilenameTimestamp (filename : Bytes) : Option Bytes :=
  let name := stripExtension (stripExtension filename)
  (parseInt64 (name.takeWhile (· != underscore))).map formatRFC3339

/-! ## Paths of saved manifests -/

/-- The elements of `ManifestDir`. -/
def manifestDirElems (metaDir cloudID : Bytes) : List Bytes :=
  pathElems metaDir ++ ascii "manifests" :: splitSlash cloudID

theorem manifestDirElems_ne_nil (metaDir cloudID : Bytes) : manifestDirElems metaDir cloudID ≠ [] :=
  append_ne_nil_of_right_ne_nil _ (cons_ne_nil _ _)

theorem cleanElems_manifestDir (metaDir : Bytes) (h : PathNames cloudID) :
    CleanElems (rooted metaDir) (manifestDirElems metaDir cloudID) := by
  refine cleanElems_append (cleanElems_pathElems metaDir) ?_
  intro seg hseg
  rcases mem_cons.mp hseg with rfl | hseg
  · exact ⟨⟨by decide, by decide⟩, by decide⟩
  · exact ⟨h seg hseg, slash_notMem_of_mem_splitSlash hseg⟩

theorem manifestDir_eq (metaDir : Bytes) (h : PathNames cloudID) :
    manifestDir metaDir cloudID = renderPath (rooted metaDir) (manifestDirElems metaDir cloudID) := by
  have hnames : PathNames (ascii "manifests" ++ slash :: cloudID) :=
    PathName.sub ⟨by decide, by decide⟩ (by decide) h
  rw [manifestDir, pathJoin_three (by decide), pathJoin_names _ hnames, splitSlash_sub (by decide)]
  rfl

/-- A byte of a decimal text. -/
theorem mem_intText {i : Int} (h : b ∈ intText i) : isDigit b = true ∨ b = minus := by
  cases i with
  | ofNat n => exact .inl (isDigit_natText n b h)
  | negSucc n =>
    rcases mem_cons.mp h with rfl | h
    · exact .inr rfl
    · exact .inl (isDigit_natText (n + 1) b h)

theorem notMem_intText {i : Int} (h : isDigit b = false) (h' : b ≠ minus) :
    b ∉ intText i := by
  intro hmem
  rcases mem_intText hmem with hdigit | hminus
  · rw [h] at hdigit
    cases hdigit
  · exact h' hminus

/-- The front of a manifest name, up to the device. -/
def namePrefix (unix : Int) : Bytes := intText unix ++ ascii "_"

theorem notMem_namePrefix (h : isDigit b = false) (h' : b ≠ minus) (h'' : b ≠ underscore) :
    b ∉ namePrefix unix := by
  intro hmem
  rcases mem_append.mp hmem with hmem | hmem
  · exact notMem_intText h h' hmem
  · exact h'' (mem_singleton.mp hmem)

/-- The parts of a manifest name are names, whatever stands behind the device. -/
theorem pathName_savedName (unix : Int) (h : PathNames deviceID)
    (tail : Bytes) (htail : slash ∉ tail) :
    PathNames (namePrefix unix ++ (deviceID ++ (tail ++ jsonZst))) := by
  have hend : slash ∉ tail ++ jsonZst := fun hmem =>
    (mem_append.mp hmem).elim htail (by decide)
  intro seg hseg
  rcases mem_splitSlash_prepend (notMem_namePrefix (by decide) (by decide) (by decide)) seg hseg
    with hseg | ⟨t, rfl⟩
  · rcases mem_splitSlash_append hend seg hseg with hseg | ⟨t, rfl⟩
    · exact h seg hseg
    · exact pathName_of_mem (b := 0x6a) (by simp [jsonZst, ascii]) (by decide)
  · exact pathName_of_mem (b := underscore) (by simp [namePrefix, ascii, underscore]) (by decide)

theorem manifestFilePath_eq (metaDir : Bytes) (unix : Int)
    (hcloud : PathNames cloudID)
    (hdevice : PathNames deviceID) :
    manifestFilePath metaDir cloudID unix deviceID =
      manifestDir metaDir cloudID ++ slash :: manifestFileName unix deviceID := by
  have hname : PathNames (manifestFileName unix deviceID) := by
    have := pathName_savedName unix hdevice [] (by simp)
    rw [nil_append, ← append_assoc] at this
    exact this
  rw [manifestFilePath, manifestDir_eq metaDir hcloud,
    pathJoin_renderPath (cleanElems_manifestDir metaDir hcloud)
      (manifestDirElems_ne_nil metaDir cloudID) hname]

/-! ## The name a manifest is committed under -/

/-- What an attempt puts behind the device: nothing, or a random suffix. -/
def attemptSuffix (attempt : Nat) (random : Bytes) : Bytes :=
  if attempt = 0 then [] else underscore :: hexEncode random

/-- The name of the file of an attempt. -/
def savedName (unix : Int) (deviceID : Bytes) (attempt : Nat) (random : Bytes) : Bytes :=
  namePrefix unix ++ (deviceID ++ (attemptSuffix attempt random ++ jsonZst))

theorem mem_hexEncode {bs : Bytes} (h : b ∈ hexEncode bs) : ∃ n < 16, b = hexDigit n := by
  obtain ⟨x, -, hx⟩ := mem_flatMap.mp h
  have hlt := x.toNat_lt
  rcases mem_cons.mp hx with rfl | hx
  · exact ⟨x.toNat / 16, by omega, rfl⟩
  · exact ⟨x.toNat % 16, by omega, mem_singleton.mp hx⟩

theorem notMem_attemptSuffix (hb : ∀ n < 16, b ≠ hexDigit n) (hb' : b ≠ underscore) :
    b ∉ attemptSuffix attempt random := by
  unfold attemptSuffix
  split
  · exact not_mem_nil
  · intro hmem
    rcases mem_cons.mp hmem with rfl | hmem
    · exact hb' rfl
    · obtain ⟨n, hn, heq⟩ := mem_hexEncode hmem
      exact hb n hn heq

theorem trimSuffix_append (s suffix : Bytes) : trimSuffix suffix (s ++ suffix) = s := by
  rw [trimSuffix, if_pos (suffix_append s suffix), length_append, Nat.add_sub_cancel]
  exact take_left

/-- The candidates of a prepared save. -/
theorem candidate_eq (metaDir : Bytes) (unix : Int)
    (hcloud : PathNames cloudID)
    (hdevice : PathNames deviceID) (job : SaveJob)
    (hjob : job.stem = trimSuffix jsonZst (manifestFilePath metaDir cloudID unix deviceID))
    (attempt : Nat) (random : Bytes) :
    job.candidate attempt random =
      manifestDir metaDir cloudID ++ slash :: savedName unix deviceID attempt random := by
  have hstem : job.stem = manifestDir metaDir cloudID ++ slash :: (namePrefix unix ++ deviceID) := by
    rw [hjob, manifestFilePath_eq metaDir unix hcloud hdevice]
    show trimSuffix jsonZst (_ ++ slash :: (namePrefix unix ++ deviceID ++ jsonZst)) = _
    rw [← cons_append, ← append_assoc, trimSuffix_append]
  unfold SaveJob.candidate savedName attemptSuffix
  split
  · rw [SaveJob.path, hstem]
    simp
  · rw [hstem]
    simp [underscore, ascii]

/-- The step that commits a save. -/
theorem SaveJob.next_unlink {P : Primitives} {job : SaveJob} {fs fs' : FileSystem} {pc : SavePc}
    {e : SaveEvent} {x : Nat} {f : Bytes} (h : job.next P fs pc e = some (fs', .unlink x f)) :
    ∃ attempt random, f = job.candidate attempt random := by
  cases pc with
  | link y attempt =>
    cases e with
    | link random =>
      simp only [SaveJob.next] at h
      split at h
      · cases h
      · split at h
        · cases h
          exact ⟨attempt, random, rfl⟩
        · cases h
        · cases h
    | _ => cases h
  | write y n =>
    cases e with
    | wrote k =>
      simp only [SaveJob.next, Option.some.injEq, Prod.mk.injEq] at h
      obtain ⟨-, h⟩ := h
      split at h <;> cases h
    | _ => cases h
  | _ => cases e <;> cases h

/-- A save is committed under one of its candidates. -/
theorem target_candidate {P : Primitives} {c : Config FileSystem Save} (h : SaveRun P SavesStart c)
    {i : Nat} {f : Bytes} (hf : (c.thread i).pc.target = some f) :
    ∃ attempt random, f = (c.thread i).job.candidate attempt random := by
  refine Reach.invariant (fun c => ∀ i f, (c.thread i).pc.target = some f →
    ∃ attempt random, f = (c.thread i).job.candidate attempt random) ?_ ?_ h i f hf
  · intro c hstart i f hf
    rw [hstart.pc i] at hf
    cases hf
  · intro c i e fs' t' hinv _ hnext j f hf
    obtain ⟨hjob, hnext⟩ := Save.next_eq_some hnext
    by_cases hji : j = i
    · subst hji
      dsimp only at hf ⊢
      rw [Function.update_self] at hf ⊢
      rw [hjob]
      cases SaveJob.next_effect hnext with
      | keep _ _ htarget _ =>
        rw [htarget] at hf
        exact hinv j f hf
      | create _ _ _ hpc =>
        rw [hpc] at hf
        cases hf
      | write _ _ _ _ _ _ htarget' _ =>
        rw [htarget'] at hf
        cases hf
      | link x g _ _ _ _ _ hpc =>
        rw [hpc] at hf
        cases hf
        rw [hpc] at hnext
        exact SaveJob.next_unlink hnext
    · dsimp only at hf ⊢
      rw [Function.update_of_ne hji] at hf ⊢
      exact hinv j f hf

/-! ## Names with `.alive.` in them -/

/-- The infix that marks an index of live blobs. -/
def aliveInfix : Bytes := ascii ".alive."

/-- An infix that begins with a full stop does not begin in a text without one. -/
theorem alive_infix_of_prefix {pre : Bytes} (hpre : dot ∉ pre) (h : aliveInfix <:+: pre ++ s) :
    aliveInfix <:+: s := by
  induction pre with
  | nil => exact h
  | cons b pre ih =>
    rw [cons_append, infix_cons_iff] at h
    refine ih (fun hmem => hpre (mem_cons_of_mem b hmem)) ?_
    rcases h with hprefix | h
    · obtain ⟨rest, hrest⟩ := hprefix
      have hb : dot = b := (cons.inj hrest).1
      exact absurd (hb ▸ mem_cons_self) hpre
    · exact h

/-- Only the full stop of the suffix can complete the infix. -/
theorem alive_infix_of_append {tail : Bytes} (htail : dot ∉ tail)
    (hhead : ∀ b ∈ tail.head?, b = underscore) (h : aliveInfix <:+: s ++ (tail ++ jsonZst)) :
    aliveInfix <:+: s ++ [dot] := by
  induction s with
  | nil =>
    have hnone := alive_infix_of_prefix htail h
    exact absurd hnone (by decide)
  | cons b s ih =>
    rw [cons_append, infix_cons_iff] at h
    rcases h with hprefix | h
    · rcases prefix_or_prefix_of_prefix hprefix (prefix_append (b :: s) _) with hin | hout
      · exact hin.isInfix.trans (prefix_append _ _).isInfix
      · -- the infix begins in the text and ends behind it
        obtain ⟨t, ht⟩ := hout
        have hnext : t <+: tail ++ jsonZst := by
          rw [← ht] at hprefix
          exact (prefix_append_right_inj (b :: s)).mp hprefix
        have hdrop : aliveInfix.drop (b :: s).length = t := by
          rw [← ht, drop_left]
        have hlen : (b :: s).length ≤ 7 := by
          have := congrArg length ht
          rw [length_append] at this
          have : aliveInfix.length = 7 := rfl
          omega
        have key : ∀ n ≤ 7, 0 < n → aliveInfix.drop n = [] ∨ aliveInfix.drop n = [dot] ∨
            ∃ x ∈ (aliveInfix.drop n).head?, x ≠ dot ∧ x ≠ underscore := by decide
        rcases key _ hlen (Nat.succ_pos _) with hnil | hdot | ⟨x, hx, hxdot, hxbar⟩
        · rw [hdrop] at hnil
          rw [hnil, append_nil] at ht
          rw [ht]
          exact (prefix_append _ _).isInfix
        · rw [hdrop] at hdot
          rw [hdot] at ht
          rw [ht]
        · rw [hdrop] at hx
          obtain ⟨rest, hrest⟩ := head?_eq_some_iff.mp (Option.mem_def.mp hx)
          obtain ⟨more, hmore⟩ := hnext
          rw [hrest] at hmore
          cases tail with
          | nil => exact absurd (cons.inj hmore).1 hxdot
          | cons y tail =>
            have hy : y = underscore := hhead y rfl
            exact absurd ((cons.inj hmore).1.trans hy) hxbar
    · exact (ih h).trans (suffix_cons b _).isInfix

theorem isManifestFile_savedName (h : ¬ aliveInfix <:+: deviceID ++ [dot]) :
    isManifestFile (savedName unix deviceID attempt random) = true := by
  have hsuffix : jsonZst <:+ savedName unix deviceID attempt random := by
    unfold savedName
    rw [← append_assoc, ← append_assoc]
    exact suffix_append _ _
  have halive : ¬ aliveInfix <:+: savedName unix deviceID attempt random := by
    intro hinfix
    have hrest := alive_infix_of_prefix
      (notMem_namePrefix (by decide) (by decide) (by decide)) hinfix
    refine h (alive_infix_of_append (notMem_attemptSuffix (by decide) (by decide)) ?_ hrest)
    unfold attemptSuffix
    split
    · nofun
    · intro b hb
      exact (Option.some.inj hb).symm
  rw [isManifestFile, show ascii ".alive." = aliveInfix from rfl, if_neg halive,
    decide_eq_true hsuffix, Bool.true_or]

/-- The device makes the primary name one of an index. -/
theorem isManifestFile_savedName_alive (h : aliveInfix <:+: deviceID ++ [dot]) :
    isManifestFile (savedName unix deviceID 0 random) = false := by
  have halive : aliveInfix <:+: savedName unix deviceID 0 random := by
    refine h.trans ⟨namePrefix unix, ascii "json.zst", ?_⟩
    unfold savedName
    rw [append_assoc, append_assoc]
    rfl
  exact if_pos halive

/-! ## The second of a name -/

theorem stripExtension_append {ext : Bytes} (hs : s ≠ []) (hext : dot ∉ ext) :
    stripExtension (s ++ dot :: ext) = s := by
  have hrev : (s ++ dot :: ext).reverse = ext.reverse ++ dot :: s.reverse := by simp
  have hdrop : (ext.reverse ++ dot :: s.reverse).dropWhile (· != dot) = dot :: s.reverse := by
    rw [dropWhile_append_of_pos]
    · exact dropWhile_cons_of_neg (by decide)
    · intro b hb
      have hmem : b ∈ ext := mem_reverse.mp hb
      have hne : b ≠ dot := fun h => hext (h ▸ hmem)
      simpa using hne
  unfold stripExtension
  dsimp only
  rw [hrev, hdrop, tail_cons, reverse_reverse, if_neg hs]

theorem parseManifestFilenameTimestamp_savedName (hunix : IsInt64 unix) (deviceID : Bytes)
    (attempt : Nat) (random : Bytes) :
    parseManifestFilenameTimestamp (savedName unix deviceID attempt random) =
      some (formatRFC3339 unix) := by
  have hname : savedName unix deviceID attempt random =
      ((intText unix ++ underscore :: (deviceID ++ attemptSuffix attempt random)) ++
        dot :: ascii "json") ++ dot :: ascii "zst" := by
    simp [savedName, namePrefix, jsonZst, underscore, ascii, dot]
  have htake : (intText unix ++ underscore :: (deviceID ++ attemptSuffix attempt random)).takeWhile
      (· != underscore) = intText unix := by
    rw [takeWhile_append_of_pos]
    · rw [takeWhile_cons_of_neg (by decide), append_nil]
    · intro b hb
      have hne : b ≠ underscore := fun h => notMem_intText (by decide) (by decide) (h ▸ hb)
      simpa using hne
  unfold parseManifestFilenameTimestamp
  dsimp only
  rw [hname, stripExtension_append (by simp) (by decide), stripExtension_append (by simp) (by decide),
    htake, parseInt64_intText hunix.lower hunix.upper]
  rfl

/-! ## Saved manifests are found -/

/-- The file `f` is in the listing of a directory, and its name tells the second of
the timestamp. -/
def FoundAs (fs : FileSystem) (dir timestamp f : Bytes) : Prop :=
  ∃ name, ManifestListed fs dir name ∧ f = dir ++ slash :: name ∧
    ∀ unix nsec, parseRFC3339 timestamp = some (unix, nsec) →
      0 ≤ (dateOfUnix unix).year → (dateOfUnix unix).year ≤ 9999 →
        ∃ text, parseManifestFilenameTimestamp name = some text ∧
          parseRFC3339 text = some (unix, 0)

variable {P : Primitives} {hkdf : KeyDerivation}

theorem foundAs_savedName {fs : FileSystem} {dir : Bytes} {m : Manifest} {now : Int}
    (hslash : slash ∉ m.deviceID) (halive : ¬ aliveInfix <:+: m.deviceID ++ [dot])
    (hfile : (fs.inode (dir ++ slash :: savedName (m.saveUnix now) m.deviceID attempt random)).isSome) :
    FoundAs fs dir m.timestamp
      (dir ++ slash :: savedName (m.saveUnix now) m.deviceID attempt random) := by
  have hnoslash : slash ∉ savedName (m.saveUnix now) m.deviceID attempt random := by
    unfold savedName
    simp only [mem_append, not_or]
    exact ⟨notMem_namePrefix (by decide) (by decide) (by decide), hslash,
      notMem_attemptSuffix (by decide) (by decide), by decide⟩
  refine ⟨_, ⟨?_, hnoslash, hfile, isManifestFile_savedName halive⟩, rfl, ?_⟩
  · simp [savedName, namePrefix, ascii]
  · intro unix nsec hparse hlo hhi
    have hunix : m.saveUnix now = unix := by rw [Manifest.saveUnix, hparse]
    obtain ⟨h64, h64'⟩ := parseRFC3339_bounds hparse
    rw [hunix]
    exact ⟨_, parseManifestFilenameTimestamp_savedName ⟨h64, h64'⟩ _ _ _,
      parseRFC3339_format h64 h64' hlo hhi⟩

/-- **Saved manifests are found by the readers of their source**, whatever other saves
do, exactly if the identifier of the device has no slash and, with a full stop behind
it, no `.alive.`. -/
theorem saved_listed_iff {metaDir : Bytes} {m : Manifest} (hm : m.Structured)
    (hcloud : validateCloudID m.saveCloudID = .ok ()) (hdevice : validateCloudID m.deviceID = .ok ()) :
    (∀ (now : Int) (key : Bytes) (iv : IV) (uuid : Bytes) (c : Config FileSystem Save)
      (i x : Nat) (f : Bytes), SaveRun P SavesStart c →
      prepareSave P hkdf metaDir now key iv uuid m = .ok (c.thread i).job →
      (c.thread i).pc = .returned x f →
      FoundAs c.shared (manifestDir metaDir m.saveCloudID) m.timestamp f) ↔
    slash ∉ m.deviceID ∧ ¬ aliveInfix <:+: m.deviceID ++ [dot] := by
  obtain ⟨-, hcloudNames⟩ := validateCloudID_ok hcloud
  obtain ⟨-, hdeviceNames⟩ := validateCloudID_ok hdevice
  constructor
  · intro h
    -- a save on its own commits under the primary name
    obtain ⟨job, hprep⟩ : ∃ job, prepareSave P hkdf metaDir 0 [] sampleIV [] m = .ok job :=
      ⟨_, prepareSave_ok.mpr ⟨hm, hcloud, hdevice, rfl⟩⟩
    obtain ⟨-, -, -, hjob⟩ := prepareSave_ok.mp hprep
    obtain ⟨c, hrun, hthread⟩ := lone_save_returns P job (by rw [hjob]; simp)
    obtain ⟨name, hlisted, hname, -⟩ := h 0 [] sampleIV [] c 0 0 _ hrun
      (by rw [hthread]; exact hprep) (by rw [hthread])
    have hpath := candidate_eq metaDir (m.saveUnix 0) hcloudNames hdeviceNames job (by rw [hjob]) 0 []
    have hsaved : savedName (m.saveUnix 0) m.deviceID 0 [] = name := by
      have := hpath.symm.trans hname
      exact (cons.inj (append_cancel_left this)).2
    subst hsaved
    constructor
    · intro hslash
      refine hlisted.slash ?_
      unfold savedName
      simp [hslash]
    · intro halive
      have := hlisted.isManifest
      rw [isManifestFile_savedName_alive halive] at this
      cases this
  · rintro ⟨hslash, halive⟩ now key iv uuid c i x f hrun hjob hret
    have htarget : (c.thread i).pc.target = some f := by
      rw [hret]
      rfl
    obtain ⟨attempt, random, rfl⟩ := target_candidate hrun htarget
    obtain ⟨y, -, hy⟩ := (savesInv_run (fun _ => savesInv_start) hrun).target_inode htarget
    obtain ⟨-, -, -, hjob⟩ := prepareSave_ok.mp hjob
    have hpath := candidate_eq metaDir (m.saveUnix now) hcloudNames hdeviceNames
      (c.thread i).job (by rw [hjob]) attempt random
    rw [hpath] at hy ⊢
    exact foundAs_savedName hslash halive (by rw [hy]; rfl)

/-- A save of the sample is found. -/
theorem saved_listed_sample :
    ∃ c f, SaveRun manifestPrimitives SavesStart c ∧
      prepareSave manifestPrimitives sampleHkdf (ascii "m") 0 [] sampleIV (ascii "0")
        (sampleManifest [ascii "a"]) = .ok (c.thread 0).job ∧
      (c.thread 0).pc = .returned 0 f ∧
      FoundAs c.shared (ascii "m/manifests/s") (ascii "2024-01-01T00:00:00Z") f := by
  have hvalid : (sampleManifest [ascii "a"]).validateStructure = .ok () := by decide
  obtain ⟨c, hrun, hjob, hret⟩ := exists_saved_sample hvalid
  have hdir : manifestDir (ascii "m") (ascii "s") = ascii "m/manifests/s" := by decide
  refine ⟨c, _, hrun, hjob, hret, ?_⟩
  rw [← hdir]
  exact (saved_listed_iff (validateStructure_ok_iff.mp hvalid) (by decide) (by decide)).mpr
    ⟨by decide, by decide⟩ _ _ _ _ c 0 0 _ hrun hjob hret

/-- A device with a slash in its identifier: the save succeeds, and the file is in a
directory that no reader of the source looks into. -/
theorem saved_not_listed :
    ∃ c f, SaveRun manifestPrimitives SavesStart c ∧
      prepareSave manifestPrimitives sampleHkdf (ascii "m") 0 [] sampleIV (ascii "0")
        { sampleManifest [ascii "a"] with deviceID := ascii "d/e" } = .ok (c.thread 0).job ∧
      (c.thread 0).pc = .returned 0 f ∧
      f = ascii "m/manifests/s/1704067200_d/e.json.zst" ∧
      ∀ name, ManifestListed c.shared (ascii "m/manifests/s") name →
        f ≠ ascii "m/manifests/s" ++ slash :: name := by
  obtain ⟨c, hrun, hthread⟩ := lone_save_returns manifestPrimitives
    ⟨ascii "m/manifests/s/1704067200_d/e",
      rawFrame { sampleManifest [ascii "a"] with deviceID := ascii "d/e" }.marshal, ascii "0"⟩
    (by decide)
  have hstem : trimSuffix jsonZst (manifestFilePath (ascii "m") (ascii "s")
      ((sampleManifest []).saveUnix 0) (ascii "d/e")) = ascii "m/manifests/s/1704067200_d/e" := by
    decide
  refine ⟨c, _, hrun, ?_, by rw [hthread], by decide, ?_⟩
  · rw [hthread, ← hstem]
    exact prepareSave_ok.mpr ⟨validateStructure_ok_iff.mp (by decide), by decide, by decide, rfl⟩
  · intro name hlisted heq
    have hcut : slash :: ascii "1704067200_d/e.json.zst" = slash :: name :=
      append_cancel_left (show ascii "m/manifests/s" ++ _ = ascii "m/manifests/s" ++ _ from heq)
    have hname := (cons.inj hcut).2
    subst hname
    exact absurd hlisted.slash (by decide)

end GbfCore
