import GbfCore.Pipeline.Scan
import GbfCore.Pipeline.Sizes
import GbfCore.Pipeline.Unencrypted

/-!
# The manifest of a run (pipeline.go)

`Run` starts from an empty manifest, enters the empty directories of the scan and then, in
whatever order the workers finish, the entry of every scanned file. `newManifest_assembled`
says what the manifest holds in the end; `assembled_valid_iff` says for which source trees
`ValidateStructure` accepts it, and with it the save.
-/

namespace GbfCore

open List

variable {s s' : Blobs} {env : Env} {prev : Option FileEntry} {r : Processed}
variable {m : Manifest}

/-- `NewManifest`; `timestamp` is the current time. -/
def newManifest (sourceID : Int) (cloudID sourceName sourcePath deviceID timestamp : Bytes) :
    Manifest where
  version := 2
  sourceID := sourceID
  cloudID := cloudID
  sourceName := sourceName
  sourcePath := sourcePath
  timestamp := timestamp
  deviceID := deviceID
  dirs := some .empty
  stats := .zero
  completeness := []
  filePath := []

/-- The entry that a worker adds for a file that could not be processed. -/
def failedEntry (fe : ScanEntry) (isLocked : Bool) : FileEntry where
  name := fe.relPath
  contentHash := []
  size := fe.size
  mtime := fe.mtime
  mode := fe.mode
  status := if isLocked then fileStatusLocked else fileStatusError
  chunks := []

/-- The new manifest before the workers start. -/
def startManifest (m : Manifest) (sc : Scan) : Manifest :=
  addEmptyDirs { m with stats := { m.stats with scanErrors := sc.scanErrCount } } sc.files
    sc.dirEntries

/-- The manifest after the workers have added these entries, in this order. -/
def assemble (m : Manifest) (sc : Scan) (entries : List FileEntry) : Manifest :=
  entries.foldl Manifest.addFile (startManifest m sc)

/-! ## What it holds -/

/-- A manifest without directories. -/
structure Manifest.Blank (m : Manifest) : Prop where
  dirs : m.dirs = some .empty
  fileCount : m.stats.fileCount = 0
  totalSize : m.stats.totalSize = 0

theorem newManifest_blank (sourceID : Int)
    (cloudID sourceName sourcePath deviceID timestamp : Bytes) :
    (newManifest sourceID cloudID sourceName sourcePath deviceID timestamp).Blank :=
  ⟨rfl, rfl, rfl⟩

theorem Manifest.Blank.lookupDir (h : m.Blank) (q : Bytes) :
    m.lookupDir q = none := by
  rw [Manifest.lookupDir, h.dirs]
  rfl

theorem Manifest.Blank.dirAt (h : m.Blank) (q : Bytes) : m.dirAt q = .zero := by
  rw [Manifest.dirAt, h.lookupDir]

theorem Manifest.Blank.files (h : m.Blank) : m.files = [] := by
  rw [Manifest.files, Manifest.dirEntries, h.dirs]
  rfl

theorem Manifest.Blank.shape (h : m.Blank) : m.Shape ∅ where
  hasDir q := iff_of_false (fun hhas => hhas (h.lookupDir q)) (fun ⟨_, hds, _⟩ => hds.elim)
  subDirs q c := by
    rw [h.dirAt]
    exact iff_of_false not_mem_nil (fun ⟨_, hds, _⟩ => hds.elim)
  noNil q := by
    rw [h.lookupDir]
    exact fun hsome => nomatch hsome

section
variable {m : Manifest} {sc : Scan} {files dirs : List (List Bytes)} {entries : List FileEntry}

/-- The entries are those of the scanned files. -/
def EntriesFor (sc : Scan) (entries : List FileEntry) : Prop :=
  (entries.map FileEntry.name).Perm (sc.files.map ScanEntry.relPath)

theorem EntriesFor.mem (h : EntriesFor sc entries) (hsc : sc.Lists files dirs) {f : FileEntry}
    (hf : f ∈ entries) : ∃ p ∈ files, f.name = joinSlash p := by
  have hmem := h.subset (mem_map_of_mem hf)
  rw [hsc.files] at hmem
  obtain ⟨p, hp, heq⟩ := mem_map.mp hmem
  exact ⟨p, hp, heq.symm⟩

/-- Where the entry of a scanned file goes. -/
theorem place_of_scanned (h : SourcePaths files dirs) {f : FileEntry} {p : List Bytes}
    (hp : p ∈ files) (hname : f.name = joinSlash p) :
    ∃ hne : p ≠ [], f.place = (joinSlash p.dropLast, p.getLast hne) := by
  obtain ⟨hnames, hne⟩ := h.names p (mem_append_left _ hp)
  refine ⟨hne, ?_⟩
  have hcut := dropLast_append_getLast hne
  rw [← hcut] at hnames hname
  exact place_of_name hnames hname

/-- The directories that an assembled manifest is built from. -/
def sourceDirs (files dirs : List (List Bytes)) (entries : List FileEntry) : Set (List Bytes) :=
  parentsOf entries ∪ ({d | d ∈ leafDirs files dirs} ∪ ∅)

/-- A directory the manifest is built from is the root or was scanned. -/
theorem scanned_of_sourceDirs (hsc : sc.Lists files dirs) (h : SourcePaths files dirs)
    (he : EntriesFor sc entries) {d : List Bytes} (hd : d ∈ sourceDirs files dirs entries) :
    d = [] ∨ d ∈ dirs := by
  rcases hd with ⟨hnames, f, hf, hplace⟩ | hleaf | hempty
  · obtain ⟨p, hp, hname⟩ := he.mem hsc hf
    obtain ⟨hne, hplace'⟩ := place_of_scanned h hp hname
    rw [hplace'] at hplace
    have hpnames := (h.names p (mem_append_left _ hp)).1
    have hdrop : Names p.dropLast := fun seg hseg => hpnames seg (mem_of_mem_dropLast hseg)
    cases hdrop.joinSlash_inj hnames hplace
    exact h.parent p (mem_append_left _ hp)
  · exact .inr (mem_filter.mp hleaf).1
  · exact hempty.elim

/-- **What the manifest of a run holds**, whatever the entries say about the files. -/
theorem newManifest_assembled (hm : m.Blank) (hsc : sc.Lists files dirs)
    (h : SourcePaths files dirs) (he : EntriesFor sc entries) :
    Assembled (assemble m sc entries) (sourceDirs files dirs entries) entries := by
  have hstart : ({ m with stats := { m.stats with scanErrors := sc.scanErrCount } } :
      Manifest).Blank := ⟨hm.dirs, hm.fileCount, hm.totalSize⟩
  have hleaf : ∀ d ∈ leafDirs files dirs, Names d ∧ d ≠ [] := fun d hd =>
    h.names d (mem_append_right _ (mem_filter.mp hd).1)
  have hshape := shape_foldl_addEmptyDir hleaf hstart.shape
  have hparents : ∀ f ∈ entries, ∃ ds, Names ds ∧ f.place.1 = joinSlash ds := by
    intro f hf
    obtain ⟨p, hp, hname⟩ := he.mem hsc hf
    obtain ⟨hne, hplace⟩ := place_of_scanned h hp hname
    refine ⟨p.dropLast, fun seg hseg => ?_, congrArg Prod.fst hplace⟩
    exact (h.names p (mem_append_left _ hp)).1 seg (mem_of_mem_dropLast hseg)
  unfold assemble startManifest
  rw [addEmptyDirs_eq hsc h]
  constructor
  · exact shape_foldl_addFile hparents hshape
  · intro d hd seg hseg
    rcases scanned_of_sourceDirs hsc h he hd with rfl | hmem
    · exact absurd hseg not_mem_nil
    · exact (h.names d (mem_append_right _ hmem)).1 seg hseg
  · intro q
    rw [fileList_foldl_addFile, fileList_foldl_addEmptyDir, hstart.dirAt]
    rfl
  · refine (files_foldl_addFile entries _).trans ?_
    have hnone := (files_foldl_addEmptyDir joinSlash (leafDirs files dirs)
      { m with stats := { m.stats with scanErrors := sc.scanErrCount } })
    rw [hstart.files] at hnone
    rw [hnone.eq_nil]
    exact List.Perm.refl _
  · rw [stats_foldl_addFile, stats_foldl_addEmptyDir]
    show m.stats.fileCount + _ = _
    rw [hm.fileCount, Int.zero_add]
  · rw [stats_foldl_addFile, stats_foldl_addEmptyDir]
    show entries.foldl _ m.stats.totalSize = _
    rw [hm.totalSize]

/-- No two entries go to the same place. -/
theorem nodup_places (hsc : sc.Lists files dirs) (h : SourcePaths files dirs)
    (he : EntriesFor sc entries) : (entries.map FileEntry.place).Nodup := by
  have hnames : (entries.map FileEntry.name).Nodup := by
    refine he.nodup_iff.mpr ?_
    rw [hsc.files]
    refine h.nodup.map_on fun a ha b hb heq => ?_
    exact (h.names a (mem_append_left _ ha)).1.joinSlash_inj
      (h.names b (mem_append_left _ hb)).1 heq
  refine (pairwise_map.mp hnames).imp_of_mem ?_ |> pairwise_map.mpr
  intro f g hf hg hne hplace
  -- the name is the place put together again
  obtain ⟨p, hp, hfname⟩ := he.mem hsc hf
  obtain ⟨q, hq, hgname⟩ := he.mem hsc hg
  obtain ⟨hpne, hfplace⟩ := place_of_scanned h hp hfname
  obtain ⟨hqne, hgplace⟩ := place_of_scanned h hq hgname
  rw [hfplace, hgplace] at hplace
  have hpnames := (h.names p (mem_append_left _ hp)).1
  have hqnames := (h.names q (mem_append_left _ hq)).1
  have hdir : p.dropLast = q.dropLast :=
    Names.joinSlash_inj (fun seg hseg => hpnames seg (mem_of_mem_dropLast hseg))
      (fun seg hseg => hqnames seg (mem_of_mem_dropLast hseg)) (congrArg Prod.fst hplace)
  have hlast := congrArg Prod.snd hplace
  refine hne ?_
  rw [hfname, hgname, ← dropLast_append_getLast hpne, ← dropLast_append_getLast hqne,
    hdir]
  exact congrArg (fun name => joinSlash (q.dropLast ++ [name])) hlast

/-- **The keys of the manifest are the scanned directories**, and the root. -/
theorem hasDir_assemble_iff (hm : m.Blank) (hsc : sc.Lists files dirs) (h : SourcePaths files dirs)
    (he : EntriesFor sc entries) {q : Bytes} (hq : q ≠ []) :
    (assemble m sc entries).HasDir q ↔ ∃ d ∈ dirs, q = joinSlash d := by
  have hassembled := newManifest_assembled hm hsc h he
  rw [hassembled.shape.hasDir]
  constructor
  · rintro ⟨ds, hds, above, habove, rfl⟩
    have hne : above ≠ [] := by
      rintro rfl
      exact hq rfl
    rcases scanned_of_sourceDirs hsc h he hds with rfl | hmem
    · exact absurd (prefix_nil.mp habove) hne
    · exact ⟨above, h.prefix_mem hmem habove hne, rfl⟩
  · rintro ⟨d, hd, rfl⟩
    rcases exists_leaf_below h hd with ⟨leaf, hleaf, hbelow⟩ | ⟨p, hp, hbelow⟩
    · exact ⟨leaf, .inr (.inl hleaf), d, hbelow, rfl⟩
    · -- the entry of the file is there, whatever became of it
      have hname : joinSlash p ∈ entries.map FileEntry.name := by
        refine he.symm.subset ?_
        rw [hsc.files]
        exact mem_map_of_mem hp
      obtain ⟨f, hf, hfname⟩ := mem_map.mp hname
      obtain ⟨hne, hplace⟩ := place_of_scanned h hp hfname
      refine ⟨p.dropLast, .inl ⟨fun seg hseg => ?_, f, hf, congrArg Prod.fst hplace⟩, d, hbelow, rfl⟩
      exact (h.names p (mem_append_left _ hp)).1 seg (mem_of_mem_dropLast hseg)

/-- The manifest is accepted exactly if the names are acceptable and the entries are. -/
theorem assemble_structured_iff (hm : m.Blank) (hsc : sc.Lists files dirs)
    (h : SourcePaths files dirs) (he : EntriesFor sc entries) :
    (assemble m sc entries).Structured ↔
      (∀ d ∈ dirs, ∀ seg ∈ d, KeyName seg) ∧ ∀ f ∈ entries, FileOk f.placed := by
  have hassembled := newManifest_assembled hm hsc h he
  have hparents : ∀ f ∈ entries, ∃ ds ∈ sourceDirs files dirs entries,
      f.place.1 = joinSlash ds := by
    intro f hf
    obtain ⟨p, hp, hname⟩ := he.mem hsc hf
    obtain ⟨hne, hplace⟩ := place_of_scanned h hp hname
    have hdrop : Names p.dropLast := fun seg hseg =>
      (h.names p (mem_append_left _ hp)).1 seg (mem_of_mem_dropLast hseg)
    exact ⟨p.dropLast, .inl ⟨hdrop, f, hf, congrArg Prod.fst hplace⟩, congrArg Prod.fst hplace⟩
  rw [hassembled.structured_iff hparents (nodup_places hsc h he)]
  refine and_congr_left fun _ => ?_
  constructor
  · intro hkeys d hd seg hseg
    have hne : joinSlash d ≠ [] :=
      (h.names d (mem_append_right _ hd)).1.joinSlash_ne_nil
        (h.names d (mem_append_right _ hd)).2
    obtain ⟨ds, hds, above, habove, heq⟩ :=
      (hassembled.shape.hasDir _).mp ((hasDir_assemble_iff hm hsc h he hne).mpr ⟨d, hd, rfl⟩)
    have hnames : Names above := fun seg hseg => hassembled.names ds hds seg (habove.subset hseg)
    cases (h.names d (mem_append_right _ hd)).1.joinSlash_inj hnames heq
    exact hkeys ds hds seg (habove.subset hseg)
  · intro hkeys ds hds seg hseg
    rcases scanned_of_sourceDirs hsc h he hds with rfl | hmem
    · exact absurd hseg not_mem_nil
    · exact hkeys ds hmem seg hseg

/-- The names of the files: of the names of a path only the last one is not a key. -/
theorem entryNames_iff (hsc : sc.Lists files dirs) (h : SourcePaths files dirs)
    (he : EntriesFor sc entries) (hkeys : ∀ d ∈ dirs, ∀ seg ∈ d, KeyName seg) :
    (∀ f ∈ entries, EntryName f.place.2) ↔ ∀ p ∈ files, ∀ name ∈ p, backslash ∉ name := by
  constructor
  · intro hall p hp name hname
    have hmem : joinSlash p ∈ entries.map FileEntry.name := by
      refine he.symm.subset ?_
      rw [hsc.files]
      exact mem_map_of_mem hp
    obtain ⟨f, hf, heq⟩ := mem_map.mp hmem
    obtain ⟨hne, hplace⟩ := place_of_scanned h hp heq
    have hlast := (hall f hf).backslash
    rw [hplace] at hlast
    rw [← dropLast_append_getLast hne] at hname
    rcases mem_append.mp hname with hdir | hbase
    · rcases h.parent p (mem_append_left _ hp) with hnil | hparent
      · rw [hnil] at hdir
        exact absurd hdir not_mem_nil
      · exact (hkeys _ hparent name hdir).1
    · rw [mem_singleton.mp hbase]
      exact hlast
  · intro hall f hf
    obtain ⟨p, hp, heq⟩ := he.mem hsc hf
    obtain ⟨hne, hplace⟩ := place_of_scanned h hp heq
    rw [hplace]
    have hpnames := (h.names p (mem_append_left _ hp)).1
    exact (entryName_iff (hpnames _ (getLast_mem hne))).mpr
      (hall p hp _ (getLast_mem hne))

end

/-! ## Which source trees can be saved -/

/-- A file of a source tree that does not change. -/
inductive SourceFile where
  /-- Its size is that of its content. -/
  | regular (content : Bytes)
  /-- What is measured is the text of a symbolic link, or nothing for a device; what is read
  is the target of the link, or what the device delivers. -/
  | other (size : Nat) (small : size < defaultChunkSize) (content : Bytes)

namespace SourceFile

/-- What `Lstat` says. -/
def size : SourceFile → Nat
  | regular content => content.length
  | other size .. => size

/-- What a reader gets to see. -/
def content : SourceFile → Bytes
  | regular content => content
  | other _ _ content => content

/-- Only a regular file is large. -/
theorem length_content {f : SourceFile} (h : defaultChunkSize ≤ f.size) :
    f.content.length = f.size := by
  cases f with
  | regular content => rfl
  | other size small content => exact absurd small (Nat.not_lt.mpr h)

end SourceFile

/-- One file of a run: what the scan saw, what surrounded the work on it, and its previous
entry. Every way the checks of a concurrent run can go is a choice of `env` and `blobs`. -/
structure FileJob where
  fe : ScanEntry
  env : Env
  blobs : Blobs
  prev : Option FileEntry

/-- The work on a file of this source, after a run that left these entries. -/
structure FileJob.Of (source : Bytes → SourceFile) (prevFiles : Bytes → Option FileEntry)
    (j : FileJob) : Prop where
  prev_eq : j.prev = prevFiles j.fe.relPath
  hashPass : j.env.hashPass.Reads (source j.fe.relPath).content
  uploadPass : j.env.uploadPass.Reads (source j.fe.relPath).content

section
variable (P : Primitives) (pl : Pipeline) (locked : PipelineError → Bool)

/-- The entry a worker adds; `locked` is `isFileLockedError`. -/
def FileJob.entry (j : FileJob) : FileEntry :=
  match (processFile P pl j.env j.blobs j.fe j.prev).1 with
  | .ok r => r.entry
  | .error e => failedEntry j.fe (locked e)

/-- Chunks that `ValidateStructure` accepts for a file of this size. -/
def ChunksFit (chunks : List ChunkRef) (size : Nat) : Prop :=
  (∀ c ∈ chunks, 0 ≤ c.size) ∧ (chunks ≠ [] → chunkSum chunks = size)

/-- The chunks of the previous entry may be taken over for the file: its metadata are the
previous ones, or its content is, and a small file can be encrypted. -/
def MayTakeOver (fe : ScanEntry) (content : Bytes) (f : FileEntry) : Prop :=
  sameMetadata fe f = true ∨
    f.contentHash = P.contentHash content ∧ (gcmFails pl = true → defaultChunkSize ≤ fe.size)

variable {P pl}

theorem chunksFit_chunkRef {ds : List Bytes} {size : Nat} (hlen : ds.flatten.length = size)
    (hsize : size < 2 ^ 63) : ChunksFit (ds.map (chunkRef P)) size := by
  constructor
  · intro c hc
    obtain ⟨d, -, rfl⟩ := mem_map.mp hc
    exact Int.natCast_nonneg _
  · intro _
    rw [chunkSum, foldl_wrap64_eq ChunkRef.size, sum_chunkRef, hlen]
    exact wrap64_of_lt (Int.natCast_nonneg _) (by exact_mod_cast hsize)

/-- An entry without chunks that could not be processed needs an acceptable name only. -/
theorem fileOk_failedEntry_iff (fe : ScanEntry) (isLocked : Bool) :
    FileOk (failedEntry fe isLocked).placed ↔ EntryName (failedEntry fe isLocked).place.2 := by
  refine ⟨FileOk.name, fun hname => ⟨hname, Int.natCast_nonneg _, ?_, fun hne => absurd rfl hne⟩⟩
  exact fun _ hc => absurd hc not_mem_nil

/-- The entry of a processed file, whichever branch it came from. -/
theorem processFile_entryFor (hsha : ∀ b, P.sha256 b ≠ [])
    {fe : ScanEntry}
    (hrun : processFile P pl env s fe prev = (.ok r, s')) :
    r.entry.contentHash ≠ [] ∧ EntryFor fe r.entry.contentHash r.entry.chunks r.entry := by
  rcases processFile_ok hrun with ⟨-, -, f, -, hmeta, htry⟩ | ⟨missing, -, hcontent⟩
  · have hentry := tryUnchangedEntry_entry htry
    refine ⟨?_, rfl, hentry.size_eq, rfl, hentry.name_eq, hentry.processed⟩
    rw [hentry.contentHash_eq]
    intro hnil
    simp [sameMetadata, hnil] at hmeta
  · obtain ⟨content, hentry⟩ := processContent_entry hcontent
    refine ⟨?_, rfl, hentry.size_eq, rfl, hentry.name_eq, hentry.processed⟩
    rw [hentry.contentHash_eq]
    intro hnil
    exact hsha _ (hexEncode_inj (hnil.trans rfl))

/-- The entry of a processed file is accepted exactly if its name and its chunks are. -/
theorem fileOk_processFile_iff (hsha : ∀ b, P.sha256 b ≠ [])
    {fe : ScanEntry}
    (hrun : processFile P pl env s fe prev = (.ok r, s')) :
    FileOk r.entry.placed ↔ EntryName r.entry.place.2 ∧ ChunksFit r.entry.chunks fe.size := by
  obtain ⟨hhash, hentry⟩ := processFile_entryFor hsha hrun
  have hrest : r.entry.placed.isRestorable = true := hentry.processed.isRestorable hhash
  constructor
  · intro hok
    exact ⟨hok.name, hok.chunkSize, fun hne => (hok.sum hne hrest).trans hentry.size_eq⟩
  · rintro ⟨hname, hchunks, hsum⟩
    refine ⟨hname, ?_, hchunks, fun hne _ => (hsum hne).trans hentry.size_eq.symm⟩
    show 0 ≤ r.entry.size
    rw [hentry.size_eq]
    exact Int.natCast_nonneg _

/-- The name of the entry is that of the scan. -/
theorem FileJob.entry_name (hsha : ∀ b, P.sha256 b ≠ []) (j : FileJob) :
    (j.entry P pl locked).name = j.fe.relPath := by
  unfold FileJob.entry
  cases hrun : processFile P pl j.env j.blobs j.fe j.prev with
  | mk result s' =>
    cases result with
    | error e => rfl
    | ok r => exact (processFile_entryFor hsha hrun).2.name_eq

/-- A pass over a file that does not change sees its content. -/
theorem hashContent_reads (hC : P.CDCLaws) {fe : ScanEntry} {f : SourceFile}
    {content : Bytes} (hpass : env.hashPass.Reads f.content) (hsize : fe.size = f.size)
    (h : HashContent P pl env fe content) : content = f.content := by
  unfold HashContent at h
  split at h
  · exact hpass.readAll_eq h
  · rename_i hlarge
    rw [hsize, Nat.not_lt] at hlarge
    obtain ⟨ds, hds, rfl⟩ := h
    rw [hsize, ← SourceFile.length_content hlarge] at hds
    rw [hashPieces_reads hpass hds, flatten_largePieces hC]

/-- What is taken over after the file was read is of a previous entry with its hash. -/
theorem takenChunks_cases {fe : ScanEntry}
    {missing : Bool} {content : Bytes} :
    takenChunks P env s fe prev missing content = [] ∨ ∃ f, prev = some f ∧
      f.contentHash = P.contentHash content ∧
      takenChunks P env s fe prev missing content = f.chunks := by
  unfold takenChunks
  dsimp only
  split
  · split
    · rename_i hre
      obtain ⟨f, rfl, hsame, -⟩ := rehashEntry_ok hre
      exact .inr ⟨f, rfl, hsame, rfl⟩
    · exact .inl rfl
  · split
    · rename_i hsame
      cases prev with
      | none => cases hsame.1.1
      | some f => exact .inr ⟨f, rfl, hsame.1.2, rfl⟩
    · exact .inl rfl

section
variable (hC : P.CDCLaws) {f : SourceFile} {fe : ScanEntry}
include hC

/-- The chunks of a file that does not change fit, if the previous ones do wherever they may be
taken over. -/
theorem chunksFit_processFile
    (hpass : env.hashPass.Reads f.content) (hsize : fe.size = f.size) (hlt : fe.size < 2 ^ 63)
    (hfits : ∀ p, prev = some p → MayTakeOver P pl fe f.content p → ChunksFit p.chunks fe.size)
    (hrun : processFile P pl env s fe prev = (.ok r, s')) : ChunksFit r.entry.chunks fe.size := by
  rcases processFile_ok hrun with ⟨-, -, p, hprev, hmeta, htry⟩ | ⟨missing, -, hcontent⟩
  · rw [(tryUnchangedEntry_entry htry).chunks_eq]
    exact hfits p hprev (.inl hmeta)
  · obtain ⟨content, hentry⟩ := processContent_entry hcontent
    obtain rfl := hashContent_reads hC hpass hsize hentry.seen
    have htaken : ChunksFit (takenChunks P env s fe prev missing f.content) fe.size := by
      rcases takenChunks_cases with hnil | ⟨p, hprev, hsame, heq⟩
      · rw [hnil]
        exact ⟨fun _ hc => absurd hc not_mem_nil, fun hne => absurd rfl hne⟩
      · rw [heq]
        refine hfits p hprev (.inr ⟨hsame, fun hgcm => Nat.le_of_not_lt fun hsmall => ?_⟩)
        exact Bool.false_ne_true ((hentry.small hsmall).1.symm.trans hgcm)
    by_cases hsmall : fe.size < defaultChunkSize
    · rw [(hentry.small hsmall).2]
      exact htaken
    · rcases hentry.chunks with heq | ⟨-, ds, heq, hcontent'⟩
      · rw [heq]
        exact htaken
      · -- nothing was taken over: the chunks are those of the content
        rw [heq]
        refine chunksFit_chunkRef ?_ hlt
        rw [← hcontent', hsize]
        exact SourceFile.length_content (hsize ▸ Nat.le_of_not_lt hsmall)

/-- A store in which every blob is found. -/
def fullBlobs : Blobs := fun _ => some []

omit hC in
theorem tryUnchangedEntry_full (content : Bytes) (c : Check) (fe : ScanEntry) (prevFile : FileEntry)
    (contentHash : Bytes) : ∃ entry,
      tryUnchangedEntry (calmEnv content) c fullBlobs fe prevFile contentHash = .ok (some entry) := by
  have hall : ∀ hashes : List Bytes, hashes ≠ [] →
      blobsExist (calmEnv content) c fullBlobs hashes = .ok hashes.eraseDups := by
    intro hashes hne
    rw [blobsExist, if_neg hne]
    exact congrArg Except.ok (filter_eq_self.mpr fun _ _ => rfl)
  unfold tryUnchangedEntry
  generalize hhashes :
    (if prevFile.chunks = [] then [contentHash] else prevFile.chunks.map ChunkRef.hash) = hashes
  have hne : hashes ≠ [] := by
    rw [← hhashes]
    split
    · exact cons_ne_nil _ _
    · exact mt map_eq_nil_iff.mp ‹_›
  dsimp only
  rw [hall hashes hne]
  dsimp only
  rw [if_pos (by simp)]
  exact ⟨_, rfl⟩

/-- Where the previous chunks may be taken over, some run does. -/
theorem processFile_takesOver (hsize : fe.size = f.size) {prevFile : FileEntry}
    (h : MayTakeOver P pl fe f.content prevFile) :
    ∃ r s', processFile P pl (calmEnv f.content) fullBlobs fe (some prevFile) = (.ok r, s') ∧
      r.entry.chunks = prevFile.chunks := by
  by_cases hmeta : sameMetadata fe prevFile = true
  · obtain ⟨entry, hentry⟩ := tryUnchangedEntry_full f.content .fastPath fe prevFile
      prevFile.contentHash
    refine ⟨.unchanged entry, fullBlobs, ?_, (tryUnchangedEntry_entry hentry).chunks_eq⟩
    rw [processFile, fastPathEntry, if_pos hmeta, hentry]
  · obtain ⟨hsame, hgcm⟩ := h.resolve_left hmeta
    have hcalm := calmEnv_calm f.content
    rw [processFile, fastPathEntry, if_neg hmeta]
    dsimp only
    rw [processContent]
    by_cases hlarge : defaultChunkSize ≤ fe.size
    · rw [if_pos hlarge]
      obtain ⟨hashed, hhash⟩ : ∃ hashed, hashStreaming P pl _ fe.size = .ok hashed :=
        hashStreaming_calm hcalm fe.size
      have hof : hashed.Of P (largePieces P pl f.content) := by
        rw [hsize] at hlarge
        rw [hsize, ← SourceFile.length_content hlarge] at hhash
        exact hashStreaming_of (Pass.ofContent_reads _) hhash
      have heq : prevFile.contentHash = hashed.contentHash := by
        rw [hsame, hof.contentHash_eq, flatten_largePieces hC]
      obtain ⟨entry, hentry⟩ := tryUnchangedEntry_full f.content .rehash fe prevFile
        hashed.contentHash
      refine ⟨.unchanged entry, fullBlobs, ?_, (tryUnchangedEntry_entry hentry).chunks_eq⟩
      rw [processFileStreaming, hhash]
      dsimp only
      rw [rehashEntry, if_pos ⟨heq, rfl⟩, hentry]
    · have hgood : gcmFails pl = false :=
        Bool.eq_false_iff.mpr fun hfails => hlarge (hgcm hfails)
      obtain ⟨contentHash, ciphertext, hfile⟩ :=
        hashAndEncryptFile_calm (P := P) hcalm hgood fe.absPath (Nat.not_le.mp hlarge)
      obtain ⟨content, hread, rfl, -⟩ := hashAndEncryptFile_ok hfile
      cases hread
      rw [if_neg hlarge, hfile]
      dsimp only
      rw [checkAndUploadBlob, if_pos ⟨rfl, hsame⟩]
      exact ⟨_, _, rfl, rfl⟩

end

/-- A run in which nothing fails and every blob is found. -/
def calmJob (source : Bytes → SourceFile) (prevFiles : Bytes → Option FileEntry) (fe : ScanEntry) :
    FileJob :=
  ⟨fe, calmEnv (source fe.relPath).content, fullBlobs, prevFiles fe.relPath⟩

theorem calmJob_of (source : Bytes → SourceFile) (prevFiles : Bytes → Option FileEntry)
    (fe : ScanEntry) : (calmJob source prevFiles fe).Of source prevFiles :=
  ⟨rfl, Pass.ofContent_reads _, Pass.ofContent_reads _⟩

/-- **Which source trees make a manifest that can be saved.** Every run over a source that does
not change makes a manifest that `ValidateStructure` accepts, exactly if no name of a scanned
directory has a backslash or a colon, no name of a scanned file has a backslash, and the
previous chunks fit the files that they may be taken over for. -/
theorem assembled_valid_iff (hC : P.CDCLaws) (hsha : ∀ b, P.sha256 b ≠ []) {m : Manifest}
    (hm : m.Blank) (F : Filters) (scanPath : Bytes) {root : Option (List Node)}
    (hroot : ∀ children, root = some children → WellNamedNodes children)
    (source : Bytes → SourceFile) (prevFiles : Bytes → Option FileEntry)
    (hsource : ∀ fe ∈ (scanSourceTree F scanPath root).files, fe.size = (source fe.relPath).size)
    (hsizes : ((scanSourceTree F scanPath root).files.map ScanEntry.size).sum < 2 ^ 63) :
    (∀ jobs : List FileJob, (jobs.map FileJob.fe).Perm (scanSourceTree F scanPath root).files →
      (∀ j ∈ jobs, j.Of source prevFiles) →
      (assemble m (scanSourceTree F scanPath root)
        (jobs.map fun j => j.entry P pl locked)).validateStructure = .ok ()) ↔
      (∀ d ∈ rootPaths (dirPathsOf F []) root, ∀ name ∈ d, backslash ∉ name ∧ colon ∉ name) ∧
      (∀ p ∈ rootPaths (filePathsOf F []) root, ∀ name ∈ p, backslash ∉ name) ∧
      ∀ fe ∈ (scanSourceTree F scanPath root).files, ∀ f, prevFiles fe.relPath = some f →
        MayTakeOver P pl fe (source fe.relPath).content f → ChunksFit f.chunks fe.size := by
  obtain ⟨hlists, hpaths⟩ := scanSourceTree_lists F scanPath hroot
  generalize scanSourceTree F scanPath root = sc at *
  generalize rootPaths (dirPathsOf F []) root = dirs at *
  generalize rootPaths (filePathsOf F []) root = files at *
  have hentries : ∀ {jobs : List FileJob}, (jobs.map FileJob.fe).Perm sc.files →
      EntriesFor sc (jobs.map fun j => j.entry P pl locked) := by
    intro jobs hjobs
    have hmap := hjobs.map ScanEntry.relPath
    unfold EntriesFor
    rw [map_map] at hmap ⊢
    refine (map_congr_left fun j _ => ?_) ▸ hmap
    exact (j.entry_name locked hsha).symm
  constructor
  · intro hall
    have hjobs : ((sc.files.map (calmJob source prevFiles)).map FileJob.fe).Perm sc.files := by
      rw [map_map]
      exact .of_eq (map_id _)
    have hvalid := hall _ hjobs (forall_mem_map.mpr fun fe _ => calmJob_of source prevFiles fe)
    rw [validateStructure_ok_iff, assemble_structured_iff hm hlists hpaths (hentries hjobs)]
      at hvalid
    obtain ⟨hkeys, hok⟩ := hvalid
    refine ⟨hkeys, (entryNames_iff hlists hpaths (hentries hjobs) hkeys).mp
      fun f hf => (hok f hf).name, fun fe hfe f hprev htake => ?_⟩
    -- the job that takes the chunks over
    obtain ⟨r, s', hrun, hchunks⟩ := processFile_takesOver hC (hsource fe hfe) htake
    have hjob := hok _ (mem_map_of_mem (mem_map_of_mem hfe))
    rw [FileJob.entry, calmJob] at hjob
    dsimp only at hjob
    rw [hprev, hrun] at hjob
    rw [← hchunks]
    exact ((fileOk_processFile_iff hsha hrun).mp hjob).2
  · rintro ⟨hkeys, hnames, hfits⟩ jobs hjobs hof
    rw [validateStructure_ok_iff, assemble_structured_iff hm hlists hpaths (hentries hjobs)]
    refine ⟨hkeys, forall_mem_map.mpr fun j hj => ?_⟩
    have hfe : j.fe ∈ sc.files := hjobs.subset (mem_map_of_mem hj)
    have hlt : j.fe.size < 2 ^ 63 := Nat.lt_of_le_of_lt
      (single_le_sum (fun _ _ => Nat.zero_le _) _ (mem_map_of_mem hfe)) hsizes
    have hname := (entryNames_iff hlists hpaths (hentries hjobs) hkeys).mpr hnames _
      (mem_map_of_mem hj)
    unfold FileJob.entry at hname ⊢
    cases hrun : processFile P pl j.env j.blobs j.fe j.prev with
    | mk result s' =>
      rw [hrun] at hname
      cases result with
      | error e => exact (fileOk_failedEntry_iff _ _).mpr hname
      | ok r =>
        refine (fileOk_processFile_iff hsha hrun).mpr ⟨hname, ?_⟩
        refine chunksFit_processFile hC (hof j hj).hashPass (hsource _ hfe) hlt ?_ hrun
        rw [(hof j hj).prev_eq]
        exact hfits _ hfe

end

/-- Nothing is excluded. -/
def noFilters : Filters := ⟨fun _ => false, fun _ => false, fun _ => false⟩

/-- A directory with a file of four bytes and an empty directory. -/
def nestedTree : Option (List Node) :=
  some [.dir (ascii "a") true ⟨0, 0, Instant.zero_nsec_lt⟩ 0
    [.file (ascii "f") 4 ⟨0, 0, Instant.zero_nsec_lt⟩ 0,
      .dir (ascii "b") true ⟨0, 0, Instant.zero_nsec_lt⟩ 0 []]]

theorem wellNamed_nestedTree : ∀ children, nestedTree = some children → WellNamedNodes children := by
  rintro _ ⟨⟩
  have hname : ∀ name ∈ [ascii "a", ascii "b", ascii "f"], PosixName name := by
    intro name hmem
    fin_cases hmem <;> exact ⟨⟨by decide, by decide⟩, by decide, by decide⟩
  exact ⟨⟨hname _ (by decide), hname _ (by decide), by decide, ⟨hname _ (by decide), trivial⟩,
    by decide, trivial⟩, by decide, trivial⟩

/-- The files of the previous manifest: the same file, as one chunk. -/
def nestedPrev (path : Bytes) : Option FileEntry :=
  if path = ascii "a/f" then
    some ⟨path, samplePrimitives.contentHash zstdMagic, 4, formatRFC3339 0, 0, fileStatusNew,
      [chunkRef samplePrimitives zstdMagic]⟩
  else none

/-- Whichever way the next run over that tree goes, its manifest is accepted. -/
theorem nestedManifest_valid : (scanSourceTree noFilters (ascii "/src") nestedTree).files =
      [⟨ascii "a/f", ascii "/src/a/f", 4, formatRFC3339 0, 0⟩] ∧ ∀ jobs : List FileJob,
    (jobs.map FileJob.fe).Perm (scanSourceTree noFilters (ascii "/src") nestedTree).files →
    (∀ j ∈ jobs, j.Of (fun _ => .regular zstdMagic) nestedPrev) →
    (assemble (newManifest 1 (ascii "s") [] [] [] [])
      (scanSourceTree noFilters (ascii "/src") nestedTree)
      (jobs.map fun j => j.entry samplePrimitives samplePipeline fun _ => false)).validateStructure =
        .ok () := by
  refine (fun hfiles => ⟨hfiles, ?_⟩) (by rfl)
  refine (assembled_valid_iff (fun _ => false) samplePrimitives_cdc sampleSHA256_ne_nil
    (newManifest_blank _ _ _ _ _ _) noFilters (ascii "/src") wellNamed_nestedTree
    (fun _ => .regular zstdMagic) nestedPrev ?_ ?_).mpr ⟨by decide, by decide, ?_⟩
  · rw [hfiles]
    decide
  · rw [hfiles]
    decide
  · rw [hfiles]
    intro fe hfe f hprev htake
    rw [mem_singleton.mp hfe] at hprev ⊢
    obtain rfl := Option.some.inj hprev
    exact ⟨by decide, fun _ => by decide⟩

/-- The file `a\b`, with a legal name. -/
def soloTree : Option (List Node) :=
  some [.file (ascii "a\\b") 4 ⟨0, 0, Instant.zero_nsec_lt⟩ 0]

/-- It is scanned and backed up, and then the whole manifest is refused. -/
theorem soloManifest_refused : PosixName (ascii "a\\b") ∧
    ∃ jobs : List FileJob,
      (jobs.map FileJob.fe).Perm (scanSourceTree noFilters (ascii "/src") soloTree).files ∧
      (∀ j ∈ jobs, j.Of (fun _ => .regular zstdMagic) fun _ => none) ∧
      (assemble (newManifest 1 (ascii "s") [] [] [] [])
        (scanSourceTree noFilters (ascii "/src") soloTree)
        (jobs.map fun j => j.entry samplePrimitives samplePipeline fun _ => false)).validateStructure =
          .error (.fileName [] 0 .pathSeparator) := by
  refine ⟨⟨⟨by decide, rfl⟩, by decide, by decide⟩,
    (scanSourceTree noFilters (ascii "/src") soloTree).files.map
      (calmJob (fun _ => .regular zstdMagic) fun _ => none), ?_, ?_, ?_⟩
  · rw [map_map]
    exact .of_eq (map_id _)
  · exact forall_mem_map.mpr fun fe _ => calmJob_of _ _ fe
  · decide +kernel

end GbfCore
