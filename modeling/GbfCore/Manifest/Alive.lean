import GbfCore.Blob.Sample
import GbfCore.Lib.Json.Simulation
import GbfCore.Manifest.Build
import GbfCore.Manifest.Load

/-!
# The blobs a manifest keeps alive (manifest.go)

Three collectors list the blobs that a manifest refers to: `CollectAliveHashes` and
`ManifestToAliveIndex` go through a loaded manifest, `extractHashesFromJSON` decodes
the text once more with a schema of its own, which knows both layouts and never
migrates. The two schemas are compared by simulation.
-/

namespace GbfCore

open Json List Option

variable {l : ManifestLite}
variable {v : Value} {m : Manifest} {data : Bytes} {P : Primitives} {hook : DecryptHook}

/-! ## Loaded manifests -/

/-- What the collectors keep of an entry. -/
def FileEntry.aliveHashes (f : FileEntry) : List Bytes :=
  if f.chunks ≠ [] then f.chunks.map ChunkRef.hash
  else if f.contentHash ≠ [] then [f.contentHash]
  else []

/-- `AliveIndex`. -/
structure AliveIndex where
  version : Int
  hashes : List Bytes
deriving DecidableEq

/-- `ManifestToAliveIndex`. A nil directory, which validation refuses, would be
dereferenced. -/
def manifestToAliveIndex (m : Manifest) : AliveIndex :=
  ⟨1, m.files.flatMap FileEntry.aliveHashes⟩

/-- `CollectAliveHashes`: a map from hashes to true. -/
def collectAliveHashes (manifests : List Manifest) : SortedMap Bytes Bool :=
  (manifests.flatMap fun m => m.files.flatMap FileEntry.aliveHashes).foldl
    (fun alive h => alive.insert h true) .empty

/-! ## The text -/

/-- `fileEntryLite`; a chunk is its hash. -/
structure FileLite where
  contentHash : Bytes
  chunks : List Bytes
  /-- behind the end of `Chunks` -/
  spare : List Bytes

/-- `dirLite`. -/
structure DirLite where
  files : Slice FileLite

/-- `manifestLite`. -/
structure ManifestLite where
  version : Int
  dirs : Option (SortedMap Bytes (Option DirLite))
  files : Slice FileLite

def chunkLiteFields : Fields Bytes :=
  [(ascii "hash", onField (fun h => h) (fun _ x => x) decodeString)]

def FileLite.zero : FileLite := ⟨[], [], []⟩

/-- Into `Chunks`. -/
def decodeLiteChunks : Decoder FileLite := fun v f =>
  (decodeSlice (decodeStruct chunkLiteFields) [] v ⟨some f.chunks, f.spare⟩).map fun s =>
    { f with chunks := s.elems.getD [], spare := s.spare }

def fileLiteFields : Fields FileLite :=
  [(ascii "contentHash",
      onField FileLite.contentHash (fun f x => { f with contentHash := x }) decodeString),
    (ascii "chunks", decodeLiteChunks)]

def dirLiteFields : Fields DirLite :=
  [(ascii "files", onField DirLite.files (fun d x => { d with files := x })
      (decodeSlice (decodeStruct fileLiteFields) .zero))]

def manifestLiteFields : Fields ManifestLite :=
  [(ascii "version", onField ManifestLite.version (fun m x => { m with version := x }) decodeInt64),
    (ascii "dirs", onField ManifestLite.dirs (fun m x => { m with dirs := x })
      (decodeMap (decodePtr (decodeStruct dirLiteFields) ⟨.zero⟩))),
    (ascii "files", onField ManifestLite.files (fun m x => { m with files := x })
      (decodeSlice (decodeStruct fileLiteFields) .zero))]

/-- `json.Unmarshal` into a new `manifestLite`. -/
def ManifestLite.ofJson (v : Value) : Option ManifestLite :=
  decodeStruct manifestLiteFields v ⟨0, none, .zero⟩

/-- What `extractHashesFromJSON` keeps of an entry: no empty hash. -/
def FileLite.hashes (f : FileLite) : List Bytes :=
  if f.chunks ≠ [] then f.chunks.filter (· ≠ [])
  else if f.contentHash ≠ [] then [f.contentHash]
  else []

def fileLites (s : Slice FileLite) : List FileLite := s.elems.getD []

/-- The entries of `Dirs`. -/
def ManifestLite.dirEntries (m : ManifestLite) : List (Bytes × Option DirLite) :=
  (m.dirs.getD .empty).entries

/-- How `extractHashesFromJSON` may end without a list. -/
inductive ExtractError where
  | parse
  /-- a nil directory is dereferenced: the function panics -/
  | nilDir
deriving DecidableEq, Repr

/-- The hashes of the directories. -/
def ManifestLite.dirHashes : List (Bytes × Option DirLite) → Except ExtractError (List Bytes)
  | [] => .ok []
  | (_, none) :: _ => .error .nilDir
  | (_, some d) :: rest =>
    (dirHashes rest).bind fun hashes => .ok ((fileLites d.files).flatMap FileLite.hashes ++ hashes)

/-- `extractHashesFromJSON`. -/
def extractHashesFromJSON (data : Bytes) : Except ExtractError (List Bytes) :=
  match (parse data).bind ManifestLite.ofJson with
  | none => .error .parse
  | some m =>
    (ManifestLite.dirHashes m.dirEntries).bind fun hashes =>
      .ok (hashes ++ (fileLites m.files).flatMap FileLite.hashes)

/-! ## The two schemas -/

/-- The same file in both schemas. -/
structure FileSame (f : FileCell) (g : FileLite) : Prop where
  contentHash : f.entry.contentHash = g.contentHash
  chunks : f.entry.chunks.map ChunkRef.hash = g.chunks
  spare : f.spare.map ChunkRef.hash = g.spare

theorem forall₂_hash {l : List ChunkRef} {l' : List Bytes} :
    List.Forall₂ (fun c h => c.hash = h) l l' ↔ l.map ChunkRef.hash = l' := by
  have heq : l.map ChunkRef.hash = l' ↔ List.Forall₂ Eq (l.map ChunkRef.hash) l' := by
    rw [forall₂_eq_eq_eq]
  rw [heq, forall₂_map_left_iff]

/-- Only the hash of a chunk is known to both. -/
theorem sim_chunk :
    Sim (fun (c : ChunkRef) h => c.hash = h) (decodeStruct chunkFields)
      (decodeStruct chunkLiteFields) := by
  refine sim_decodeStruct (sim_decodeMember ?_ ?_)
  · refine forall_mem_cons.mpr ⟨?_, forall_mem_cons.mpr ⟨?_, nofun⟩⟩
    · exact sim_onField (sim_refl decodeString) (fun _ _ h => h) fun _ _ _ _ _ h => h
    · exact sim_onField_skip fun _ _ _ h => h
  · refine forall_mem_cons.mpr ⟨fun h => ?_, nofun⟩
    exact absurd rfl (h _ mem_cons_self)

theorem sim_chunks : Sim FileSame decodeChunks decodeLiteChunks := by
  intro v f g f' g' hfg hf hg
  obtain ⟨s, hs, rfl⟩ := map_eq_some_iff.mp hf
  obtain ⟨t, ht, rfl⟩ := map_eq_some_iff.mp hg
  have hold : SliceRel (fun (c : ChunkRef) h => c.hash = h) ⟨some f.entry.chunks, f.spare⟩
      ⟨some g.chunks, g.spare⟩ :=
    ⟨forall₂_hash.mpr hfg.chunks, forall₂_hash.mpr hfg.spare⟩
  have hst : SliceRel (fun (c : ChunkRef) h => c.hash = h) s t :=
    sim_decodeSlice sim_chunk rfl v _ _ _ _ hold hs ht
  exact ⟨hfg.contentHash, forall₂_hash.mp hst.elems, forall₂_hash.mp hst.spare⟩

/-- Of a file the hashes are known to both, and of a flat entry of the first layout. -/
theorem sim_file {fields : Fields FileCell} (h : fields = fileFields ∨ fields = v1FileFields) :
    Sim FileSame (decodeStruct fields) (decodeStruct fileLiteFields) := by
  rcases h with rfl | rfl
  all_goals
    refine sim_decodeStruct (sim_decodeMember ?_ ?_)
    · simp only [fileFields, v1FileFields, entryFields, forall_mem_cons]
      refine ⟨?_, ?_, ?_, ?_, ?_, ?_, sim_chunks, nofun⟩
      · exact sim_onField_skip fun _ _ _ h => { h with }
      · exact sim_onField (sim_refl decodeString) (fun _ _ h => h.contentHash)
          fun _ _ _ _ h hx => ⟨hx, h.chunks, h.spare⟩
      iterate 4 exact sim_onField_skip fun _ _ _ h => { h with }
    · simp only [fileLiteFields, forall_mem_cons]
      refine ⟨fun h => ?_, fun h => ?_, nofun⟩
      · exact absurd rfl (h _ (mem_of_getElem? (i := 1) rfl))
      · exact absurd rfl (h _ (mem_of_getElem? (i := 6) rfl))

theorem fileSame_zero : FileSame .zero .zero := ⟨rfl, rfl, rfl⟩

theorem sim_dir :
    Sim (fun (d : DirCell) (e : DirLite) => SliceRel FileSame d.files e.files)
      (decodeStruct dirFields) (decodeStruct dirLiteFields) := by
  refine sim_decodeStruct (sim_decodeMember ?_ ?_)
  · simp only [dirFields, forall_mem_cons]
    refine ⟨?_, ?_, nofun⟩
    · exact sim_onField (sim_decodeSlice (sim_file (.inl rfl)) fileSame_zero) (fun _ _ h => h)
        fun _ _ _ _ _ h => h
    · exact sim_onField_skip fun _ _ _ h => h
  · simp only [dirLiteFields, forall_mem_cons]
    exact ⟨fun h => absurd rfl (h _ (mem_of_getElem? (i := 0) rfl)), nofun⟩

/-- The same directory in both schemas. -/
def DirSame (d : Option Dir) (e : Option DirLite) : Prop :=
  match d, e with
  | none, none => True
  | some d, some e =>
    List.Forall₂ (fun f g => ∃ spare, FileSame ⟨f, spare⟩ g) d.fileList (fileLites e.files)
  | _, _ => False

theorem dirSame_decode {d : Option Dir} {e : Option DirLite} (hd : decodeDir v = some d)
    (he : decodePtr (decodeStruct dirLiteFields) ⟨.zero⟩ v = some e) : DirSame d e := by
  obtain ⟨dc, hdc, rfl⟩ := map_eq_some_iff.mp hd
  by_cases hv : v = .null
  · subst hv
    cases hdc
    cases he
    trivial
  · have hdc' : decodePtr (decodeStruct dirFields) .zero v =
        (decodeStruct dirFields v .zero).map some := by
      cases v <;> first | rfl | exact absurd rfl hv
    have he' : decodePtr (decodeStruct dirLiteFields) ⟨.zero⟩ v =
        (decodeStruct dirLiteFields v ⟨.zero⟩).map some := by
      cases v <;> first | rfl | exact absurd rfl hv
    obtain ⟨dc₁, hdc₁, rfl⟩ := map_eq_some_iff.mp (hdc'.symm.trans hdc)
    obtain ⟨e₁, he₁, rfl⟩ := map_eq_some_iff.mp (he'.symm.trans he)
    have hrel := sim_dir v .zero ⟨.zero⟩ dc₁ e₁ ⟨.nil, .nil⟩ hdc₁ he₁
    show List.Forall₂ _ ((dc₁.files.elems.map (·.map FileCell.entry)).getD []) _
    have hlist : (dc₁.files.elems.map (·.map FileCell.entry)).getD [] =
        (dc₁.files.elems.getD []).map FileCell.entry := by
      cases dc₁.files.elems <;> rfl
    rw [hlist, forall₂_map_left_iff]
    exact hrel.elems.imp fun f g h => ⟨f.spare, h⟩

/-- The directories are read alike. -/
theorem sim_manifest :
    Sim (fun (m : Manifest) (l : ManifestLite) => MapRel DirSame m.dirs l.dirs)
      (decodeStruct manifestFields) (decodeStruct manifestLiteFields) := by
  refine sim_decodeStruct (sim_decodeMember ?_ ?_)
  · simp only [manifestFields, forall_mem_cons]
    refine ⟨?_, ?_, ?_, ?_, ?_, ?_, ?_, ?_, ?_, ?_, nofun⟩
    · exact sim_onField (r := fun _ _ => True) (fun _ _ _ _ _ _ _ _ => trivial)
        (fun _ _ _ => trivial) fun _ _ _ _ h _ => h
    iterate 6 exact sim_onField_skip fun _ _ _ h => h
    · exact sim_onField (sim_decodeMap fun _ _ _ hd he => dirSame_decode hd he) (fun _ _ h => h)
        fun _ _ _ _ _ h => h
    iterate 2 exact sim_onField_skip fun _ _ _ h => h
  · simp only [manifestLiteFields, forall_mem_cons]
    refine ⟨fun h => ?_, fun h => ?_, fun _ => ?_, nofun⟩
    · exact absurd rfl (h _ (mem_of_getElem? (i := 0) rfl))
    · exact absurd rfl (h _ (mem_of_getElem? (i := 7) rfl))
    · exact sim_skip_onField fun _ _ _ h => h

/-- The flat list is read alike. -/
theorem sim_v1 :
    Sim (fun (m : V1Manifest) (l : ManifestLite) => SliceRel FileSame m.files l.files)
      (decodeStruct v1Fields) (decodeStruct manifestLiteFields) := by
  refine sim_decodeStruct (sim_decodeMember ?_ ?_)
  · simp only [v1Fields, forall_mem_cons]
    refine ⟨?_, ?_, nofun⟩
    · exact sim_onField (sim_decodeSlice (sim_file (.inr rfl)) fileSame_zero) (fun _ _ h => h)
        fun _ _ _ _ _ h => h
    · exact sim_onField_skip fun _ _ _ h => h
  · simp only [manifestLiteFields, forall_mem_cons]
    refine ⟨fun _ => ?_, fun _ => ?_, fun h => ?_, nofun⟩
    · exact sim_skip_onField fun _ _ _ h => h
    · exact sim_skip_onField fun _ _ _ h => h
    · exact absurd rfl (h _ (mem_of_getElem? (i := 0) rfl))

/-! ## Hashes -/

/-- Both schemas give the same non-empty hashes of a file. -/
theorem hashes_of_fileSame {f : FileCell} {g : FileLite} (h : FileSame f g) (x : Bytes) :
    x ∈ g.hashes ↔ x ≠ [] ∧ x ∈ f.entry.aliveHashes := by
  have hchunks : g.chunks = [] ↔ f.entry.chunks = [] := by
    rw [← h.chunks, map_eq_nil_iff]
  unfold FileLite.hashes FileEntry.aliveHashes
  by_cases hc : f.entry.chunks = []
  · simp only [hc, hchunks.mpr hc, ne_eq, not_true_eq_false, if_false, h.contentHash]
    split
    · rename_i hne
      rw [mem_singleton]
      constructor
      · rintro rfl
        exact ⟨hne, rfl⟩
      · exact fun hx => hx.2
    · simp
  · rw [if_pos (mt hchunks.mp hc), if_pos hc, h.chunks, mem_filter]
    simp [and_comm]

/-- The hashes of a list of files. -/
theorem mem_hashes_of_forall₂ {l : List FileEntry} {l' : List FileLite}
    (h : List.Forall₂ (fun f g => ∃ spare, FileSame ⟨f, spare⟩ g) l l') (x : Bytes) :
    x ∈ l'.flatMap FileLite.hashes ↔ x ≠ [] ∧ x ∈ l.flatMap FileEntry.aliveHashes := by
  induction h with
  | nil => simp
  | cons hfg _ ih =>
    obtain ⟨spare, hfg⟩ := hfg
    rw [flatMap_cons, mem_append, ih, hashes_of_fileSame hfg, flatMap_cons,
      mem_append, ← and_or_left]

/-- The hashes of the directories. -/
theorem mem_dirHashes {l : List (Bytes × Option Dir)} {l' : List (Bytes × Option DirLite)}
    (h : EntriesRel DirSame l l') {hashes : List Bytes}
    (hok : ManifestLite.dirHashes l' = .ok hashes) (x : Bytes) :
    x ∈ hashes ↔ x ≠ [] ∧ x ∈ (l.flatMap fun e =>
      match e.2 with
      | none => []
      | some d => d.fileList).flatMap FileEntry.aliveHashes := by
  induction h generalizing hashes with
  | nil =>
    cases hok
    simp
  | @cons e e' rest rest' hee _ ih =>
    obtain ⟨k, d⟩ := e
    obtain ⟨k', d'⟩ := e'
    cases d' with
    | none => cases hok
    | some d' =>
      cases d with
      | none => exact hee.2.elim
      | some d =>
        obtain ⟨hashes', hrest, heq⟩ := bind_eq_ok.mp hok
        cases heq
        rw [mem_append, ih hrest, mem_hashes_of_forall₂ hee.2, ← and_or_left,
          flatMap_cons, flatMap_append, mem_append]

/-- The directories of one text. -/
theorem mem_dirHashes_iff {hashes : List Bytes} (hm : Manifest.ofJson v = some m)
    (hl : ManifestLite.ofJson v = some l) (hok : ManifestLite.dirHashes l.dirEntries = .ok hashes)
    (x : Bytes) :
    x ∈ hashes ↔ x ≠ [] ∧ x ∈ m.files.flatMap FileEntry.aliveHashes := by
  have hrel : MapRel DirSame m.dirs l.dirs :=
    sim_manifest v .zero ⟨0, none, .zero⟩ m l .nil hm hl
  have hentries : (m.dirs.getD .empty).entries = m.dirEntries := by
    unfold Manifest.dirEntries
    cases m.dirs <;> rfl
  exact mem_dirHashes (hentries ▸ hrel) hok x

/-- The flat list of one text. -/
theorem mem_flatHashes_iff {v1 : V1Manifest} (hv1 : V1Manifest.ofJson v = some v1)
    (hl : ManifestLite.ofJson v = some l) (x : Bytes) :
    x ∈ (fileLites l.files).flatMap FileLite.hashes ↔
      x ≠ [] ∧ x ∈ v1.entries.flatMap FileEntry.aliveHashes := by
  have hrel : SliceRel FileSame v1.files l.files := sim_v1 v _ _ v1 l ⟨.nil, .nil⟩ hv1 hl
  refine mem_hashes_of_forall₂ ?_ x
  unfold V1Manifest.entries
  rw [forall₂_map_left_iff]
  exact hrel.elems.imp fun f g h => ⟨f.spare, h⟩

/-- Migration keeps the hashes. -/
theorem mem_migrated_iff {v1 : V1Manifest} (hv1 : V1Manifest.ofJson v = some v1) (x : Bytes) :
    x ∈ (migrateV1Manifest m v).files.flatMap FileEntry.aliveHashes ↔
      x ∈ v1.entries.flatMap FileEntry.aliveHashes := by
  have hperm : (migrateV1Manifest m v).files.Perm (v1.entries.map FileEntry.placed) := by
    unfold migrateV1Manifest
    rw [hv1]
    exact (files_foldl_addEmptyDir V1EmptyDir.relPath _ _).trans (files_foldl_addFile _ _)
  rw [(hperm.flatMap_right _).mem_iff, flatMap_map]
  rfl

/-! ## The text is the file -/

/-- No JSON text begins like one of the containers of a manifest. -/
theorem manifestText_of_parse (P : Primitives) (hook : DecryptHook) (h : parse data = some v) :
    manifestText P hook data = .ok data := by
  cases data with
  | nil => cases h
  | cons b rest =>
    have hG : b ≠ 0x47 := by
      rintro rfl
      cases h
    have hz : b ≠ 0x28 := by
      rintro rfl
      cases h
    have henv : isGBREnvelope (b :: rest) = false := by
      refine Bool.and_eq_false_iff.mpr (.inr (decide_eq_false fun htake => hG ?_))
      exact (List.cons.inj htake).1
    have hgkm : isGKM1 (b :: rest) = false := by
      refine Bool.and_eq_false_iff.mpr (.inr (decide_eq_false fun htake => hG ?_))
      exact (List.cons.inj htake).1
    have hzst : isCompressed (b :: rest) = false := by
      refine Bool.and_eq_false_iff.mpr (.inr (decide_eq_false fun htake => hz ?_))
      exact (List.cons.inj htake).1
    simp only [manifestText, unwrapEnvelope, runDecryptHook, decompressManifest, henv, hgkm, hzst,
      Bool.false_eq_true, if_false, Except.bind]

/-! ## Agreement of the collectors -/

/-- A document in the flat layout of version 1. -/
def FlatLayout (v : Value) : Prop :=
  (∃ m ∈ Manifest.ofJson v, m.version < 2) ∧ ¬ v.HasMember (ascii "dirs") ∧
    V1Manifest.ofJson v ≠ none

instance (v : Value) : Decidable (FlatLayout v) :=
  inferInstanceAs (Decidable (_ ∧ _ ∧ _))

/-- A document in the layout of version 2. -/
def DirsLayout (v : Value) : Prop :=
  (∃ m ∈ Manifest.ofJson v, 2 ≤ m.version) ∧ ¬ v.HasMember (ascii "files")

/-- Without directories in the text there are none to go through. -/
theorem dirEntries_of_not_hasMember (hl : ManifestLite.ofJson v = some l)
    (hnot : ¬ v.HasMember (ascii "dirs")) :
    l.dirEntries = [] := by
  have hdirs : l.dirs = none := by
    refine decodeStruct_untouched (ascii "dirs") ManifestLite.dirs ?_ hnot hl
    simp only [manifestLiteFields, forall_mem_cons]
    refine ⟨fun _ _ _ _ h => onField_untouched h fun _ _ => rfl, fun h => absurd rfl h,
      fun _ _ _ _ h => onField_untouched h fun _ _ => rfl, nofun⟩
  unfold ManifestLite.dirEntries
  rw [hdirs]
  rfl

theorem fileLites_of_not_hasMember (hl : ManifestLite.ofJson v = some l)
    (hnot : ¬ v.HasMember (ascii "files")) :
    fileLites l.files = [] := by
  have hfiles : l.files = .zero := by
    refine decodeStruct_untouched (ascii "files") ManifestLite.files ?_ hnot hl
    simp only [manifestLiteFields, forall_mem_cons]
    refine ⟨fun _ _ _ _ h => onField_untouched h fun _ _ => rfl,
      fun _ _ _ _ h => onField_untouched h fun _ _ => rfl, fun h => absurd rfl h, nofun⟩
  rw [hfiles]
  rfl

/-- How an accepted text comes to its list. -/
theorem extract_eq_ok {hashes : List Bytes} (h : extractHashesFromJSON data = .ok hashes) :
    ∃ v l dirHashes, parse data = some v ∧ ManifestLite.ofJson v = some l ∧
      ManifestLite.dirHashes l.dirEntries = .ok dirHashes ∧
      hashes = dirHashes ++ (fileLites l.files).flatMap FileLite.hashes := by
  unfold extractHashesFromJSON at h
  cases hl : (parse data).bind ManifestLite.ofJson with
  | none =>
    rw [hl] at h
    cases h
  | some l =>
    rw [hl] at h
    obtain ⟨v, hv, hlite⟩ := bind_eq_some_iff.mp hl
    obtain ⟨dirHashes, hdirs, heq⟩ := bind_eq_ok.mp h
    cases heq
    exact ⟨v, l, dirHashes, hv, hlite, hdirs, rfl⟩

/-- What an accepted document is loaded as. -/
theorem load_eq_ok (hv : parse data = some v) (h : loadManifestFromData P hook data = .ok m) :
    ∃ m₀, Manifest.ofJson v = some m₀ ∧
      m = if m₀.version < 2 then migrateV1Manifest m₀ v else m₀ := by
  unfold loadManifestFromData at h
  rw [manifestText_of_parse P hook hv] at h
  change decodeManifest data = .ok m at h
  unfold decodeManifest at h
  rw [hv] at h
  cases hm : Manifest.ofJson v with
  | none =>
    simp only [hm] at h
    cases h
  | some m₀ =>
    simp only [hm] at h
    obtain ⟨-, -, heq⟩ := bind_eq_ok.mp h
    exact ⟨m₀, rfl, (Except.ok.inj heq).symm⟩

theorem mem_aliveHashes_iff (f : FileEntry) {h : Bytes} (hne : h ≠ []) :
    h ∈ f.aliveHashes ↔ h ∈ f.blobRefs := by
  by_cases hc : f.chunks = []
  · rw [FileEntry.blobRefs_single hc, FileEntry.aliveHashes, if_neg (not_not.mpr hc)]
    by_cases hcontent : f.contentHash = []
    · rw [if_neg (not_not.mpr hcontent), hcontent, mem_singleton]
      exact ⟨fun h => absurd h not_mem_nil, fun h => absurd h hne⟩
    · rw [if_pos hcontent]
  · rw [FileEntry.blobRefs_chunked hc, FileEntry.aliveHashes, if_pos hc]

theorem mem_collectAliveHashes (m : Manifest) (h : Bytes) :
    (collectAliveHashes [m]).lookup h = some true ↔
      h ∈ m.files.flatMap FileEntry.aliveHashes := by
  unfold collectAliveHashes
  rw [flatMap_singleton, SortedMap.lookup_foldl_insert]
  split
  · rename_i hmem
    exact ⟨fun _ => hmem, fun _ => rfl⟩
  · rename_i hnot
    exact ⟨by rintro ⟨⟩, fun hmem => absurd hmem hnot⟩

/-- Nothing a restore fetches is missing from the list. -/
theorem alive_of_load {hashes : List Bytes} (hload : loadManifestFromData P hook data = .ok m)
    (hext : extractHashesFromJSON data = .ok hashes) {x : Bytes} (hne : x ≠ [])
    (hx : x ∈ m.files.flatMap FileEntry.aliveHashes) : x ∈ hashes := by
  obtain ⟨v, l, dirHashes, hv, hl, hdirs, rfl⟩ := extract_eq_ok hext
  obtain ⟨m₀, hm₀, rfl⟩ := load_eq_ok hv hload
  have hdir : x ∈ m₀.files.flatMap FileEntry.aliveHashes → x ∈ dirHashes :=
    fun h => (mem_dirHashes_iff hm₀ hl hdirs x).mpr ⟨hne, h⟩
  rw [mem_append]
  by_cases hold : m₀.version < 2
  · rw [if_pos hold] at hx
    cases hv1 : V1Manifest.ofJson v with
    | none =>
      -- the text does not fit version 1: the manifest stays as it was decoded
      rw [migrateV1Manifest, hv1] at hx
      exact .inl (hdir hx)
    | some v1 =>
      exact .inr ((mem_flatHashes_iff hv1 hl x).mpr ⟨hne, (mem_migrated_iff hv1 x).mp hx⟩)
  · rw [if_neg hold] at hx
    exact .inl (hdir hx)

/-- Nothing but what a restore fetches is in the list, if the document has one layout. -/
theorem load_of_alive {hashes : List Bytes} (hv : parse data = some v)
    (hload : loadManifestFromData P hook data = .ok m)
    (hext : extractHashesFromJSON data = .ok hashes) (hlayout : FlatLayout v ∨ DirsLayout v)
    {x : Bytes} (hx : x ∈ hashes) : x ∈ m.files.flatMap FileEntry.aliveHashes := by
  obtain ⟨w, l, dirHashes, hw, hl, hdirs, rfl⟩ := extract_eq_ok hext
  cases hv.symm.trans hw
  obtain ⟨m₀, hm₀, rfl⟩ := load_eq_ok hv hload
  rw [mem_append] at hx
  rcases hlayout with ⟨⟨m₁, hm₁, hversion⟩, hnot, hfits⟩ | ⟨⟨m₁, hm₁, hversion⟩, hnot⟩
  · cases hm₀.symm.trans hm₁
    rw [dirEntries_of_not_hasMember hl hnot] at hdirs
    cases hdirs
    obtain ⟨v1, hv1⟩ := ne_none_iff_exists'.mp hfits
    rw [if_pos hversion, mem_migrated_iff hv1]
    exact ((mem_flatHashes_iff hv1 hl x).mp (hx.resolve_left not_mem_nil)).2
  · cases hm₀.symm.trans hm₁
    rw [fileLites_of_not_hasMember hl hnot] at hx
    rw [if_neg (not_lt.mpr hversion)]
    exact ((mem_dirHashes_iff hm₀ hl hdirs x).mp (hx.resolve_right not_mem_nil)).2

/-- **The collectors agree.** Of every document that is loaded as a manifest, each
non-empty hash that a restore fetches is extracted from the text; if the document has
one layout, the three collectors find the same non-empty hashes. -/
theorem collectors_agree (P : Primitives) (hook : DecryptHook) (data : Bytes) (m : Manifest)
    (hashes : List Bytes) (hload : loadManifestFromData P hook data = .ok m)
    (hext : extractHashesFromJSON data = .ok hashes) :
    (∀ f ∈ m.files, ∀ h ∈ f.blobRefs, h ≠ [] → h ∈ hashes) ∧
      ∀ v, parse data = some v → FlatLayout v ∨ DirsLayout v → ∀ h, h ≠ [] →
        (h ∈ hashes ↔ (collectAliveHashes [m]).lookup h = some true) ∧
          (h ∈ hashes ↔ h ∈ (manifestToAliveIndex m).hashes) := by
  constructor
  · intro f hf h hh hne
    refine alive_of_load hload hext hne (mem_flatMap.mpr ⟨f, hf, ?_⟩)
    exact (mem_aliveHashes_iff f hne).mpr hh
  · intro v hv hlayout h hne
    have hiff : h ∈ hashes ↔ h ∈ m.files.flatMap FileEntry.aliveHashes :=
      ⟨load_of_alive hv hload hext hlayout, alive_of_load hload hext hne⟩
    exact ⟨hiff.trans (mem_collectAliveHashes m h).symm, hiff⟩

/-! ## Samples -/

/-- A document of version 1. -/
def flatText : Bytes :=
  ascii "\x7b\"version\":1,\"files\":[\x7b\"path\":\"a/b\",\"contentHash\":\"h\"\x7d]\x7d"

/-- A document of version 2 with a file that can be restored and has a chunk with the empty
hash. -/
def emptyHashText : Bytes :=
  ascii "\x7b\"version\":2,\"dirs\":\x7b\"\":\x7b\"files\":[\x7b\"name\":\"a\"," ++
    ascii "\"contentHash\":\"h\",\"chunks\":[\x7b\"hash\":\"\"\x7d]\x7d]\x7d\x7d,\"stats\":\x7b\"fileCount\":1\x7d\x7d"

/-- A text is loaded as it is decoded. -/
theorem load_of_decode (P : Primitives) (hook : DecryptHook) (h : decodeManifest data = .ok m) :
    loadManifestFromData P hook data = .ok m := by
  cases hv : parse data with
  | none =>
    rw [decodeManifest, hv] at h
    cases h
  | some v =>
    rw [loadManifestFromData, manifestText_of_parse P hook hv]
    exact h

theorem exists_decode (data : Bytes) (h : (decodeManifest data).toOption.isSome) :
    ∃ m, decodeManifest data = .ok m := by
  cases hd : decodeManifest data with
  | error e =>
    rw [hd] at h
    cases h
  | ok m => exact ⟨m, rfl⟩

theorem collectors_agree_flatText :
    ∃ m hashes v, loadManifestFromData samplePrimitives none flatText = .ok m ∧
      extractHashesFromJSON flatText = .ok hashes ∧ parse flatText = some v ∧ FlatLayout v ∧
      ascii "h" ∈ hashes ∧ (collectAliveHashes [m]).lookup (ascii "h") = some true := by
  obtain ⟨m, hm⟩ := exists_decode flatText (by decide +kernel)
  have hload := load_of_decode samplePrimitives none hm
  have hext : extractHashesFromJSON flatText = .ok [ascii "h"] := by decide +kernel
  have hlayout : (parse flatText).any fun v => decide (FlatLayout v) := by decide +kernel
  obtain ⟨v, hv, hflat⟩ := (any_eq_true _ _).mp hlayout
  have hflat : FlatLayout v := of_decide_eq_true hflat
  have hagree := (collectors_agree samplePrimitives none flatText m _ hload hext).2 v hv
    (.inl hflat) (ascii "h") (by decide)
  have hmem : ascii "h" ∈ [ascii "h"] := mem_singleton_self _
  exact ⟨m, _, v, hload, hext, hv, hflat, hmem, hagree.1.mp hmem⟩

theorem emptyHashText_missed :
    ∃ m hashes, loadManifestFromData samplePrimitives none emptyHashText = .ok m ∧
      extractHashesFromJSON emptyHashText = .ok hashes ∧
      ∃ f ∈ m.files, ∃ h ∈ f.blobRefs, h ∉ hashes := by
  obtain ⟨m, hm⟩ := exists_decode emptyHashText (by decide +kernel)
  have hfiles : (decodeManifest emptyHashText).toOption.map Manifest.files =
      some [⟨ascii "a", ascii "h", 0, [], 0, [], [⟨[], 0⟩]⟩] := by decide +kernel
  rw [hm] at hfiles
  refine ⟨m, [], load_of_decode samplePrimitives none hm, by decide +kernel,
    ⟨ascii "a", ascii "h", 0, [], 0, [], [⟨[], 0⟩]⟩, ?_, [], ?_, nofun⟩
  · rw [Option.some.inj hfiles]
    exact mem_cons_self
  · exact mem_cons_self

end GbfCore
