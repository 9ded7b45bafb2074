import GbfCore.Pipeline.RoundTrip

/-!
# The size of an entry

The size of an entry is the one the scan saw; its hash and its chunks come from a later
read. This file decides when they describe the same content (`sizes_agree_iff`): the hash
pass has to deliver as many bytes as the scan saw, and what is taken over from the previous
entry has to fit.

The three readers end differently. A small file, and a large one that is cut by content, is
read to its end, whatever its size is then. A large file that is cut at fixed places is read
until the scanned size is reached or a read comes back empty, so that it may grow.
-/

namespace GbfCore

open List

variable {content contentHash : Bytes} {entry : FileEntry} {s s' : Blobs} {missing : Bool}
  {ciphertext : Bytes}

/-- The reads of `hashFileWithChunks` reach the scanned size: none of them comes back empty
while bytes are missing. -/
inductive Pass.Delivers (pass : Pass) : (i off remaining : Nat) → Prop
  | done {i off : Nat} : Delivers pass i off 0
  | read {i off remaining : Nat} {b : Bytes}
      (hread : pass.read i off (min remaining defaultChunkSize) = some b) (hne : b ≠ [])
      (hrest : Delivers pass (i + 1) (off + b.length) (remaining - b.length)) :
      Delivers pass i off remaining

/-- The chunks, if there are any, have this size together. -/
def SumsTo (chunks : List ChunkRef) (size : Int) : Prop :=
  chunks ≠ [] → (chunks.map ChunkRef.size).sum = size

section
variable (P : Primitives) (pl : Pipeline)

/-- The hash pass delivers as many bytes as the scan saw. -/
def KeepsSize (pass : Pass) (size : Nat) : Prop :=
  if size < defaultChunkSize ∨ pl.cdcEnabled = true then
    ∀ content, pass.readAll = some content → content.length = size
  else pass.Delivers 0 0 size

/-- The content the hash pass over a file sees. -/
def HashContent (env : Env) (fe : ScanEntry) (content : Bytes) : Prop :=
  if fe.size < defaultChunkSize then env.hashPass.readAll = some content
  else ∃ ds, HashPieces P pl env.hashPass fe.size ds ∧ content = ds.flatten

/-- An entry describes a content: its hash, its size, and chunks of that size. -/
structure Describes (entry : FileEntry) (content : Bytes) : Prop where
  contentHash_eq : entry.contentHash = P.contentHash content
  size_eq : entry.size = content.length
  sums : SumsTo entry.chunks entry.size

/-- The chunks of the previous entry, if they are taken over after the file was read. -/
def takenChunks (env : Env) (s : Blobs) (fe : ScanEntry) (prev : Option FileEntry)
    (missing : Bool) (content : Bytes) : List ChunkRef :=
  let hash := P.contentHash content
  if defaultChunkSize ≤ fe.size then
    match rehashEntry env s fe prev hash missing with
    | .ok (some _) => prevChunks prev
    | _ => []
  else if (prev.isSome ∧ prevHash prev = hash) ∧
      env.existsErr .sameHash hash = none ∧ s.has hash then prevChunks prev
  else []

/-- The sizes of the scan, of the content and of what is taken over agree. -/
def SizesAgree (env : Env) (s : Blobs) (fe : ScanEntry) (prev : Option FileEntry)
    (prevContent : Bytes) : Prop :=
  match fastPathEntry env s fe prev with
  | some (.ok (some _)) =>
    -- the file is not read
    prevContent.length = fe.size ∧ SumsTo (prevChunks prev) fe.size
  | fast =>
    KeepsSize pl env.hashPass fe.size ∧ ∀ content, HashContent P pl env fe content →
      SumsTo (takenChunks P env s fe prev fast.isSome content) fe.size

/-- The contents of a run: that of the previous entry and that of the hash pass. -/
def Known (env : Env) (fe : ScanEntry) (prev : Option FileEntry) (prevContent content : Bytes) :
    Prop :=
  prev.isSome = true ∧ content = prevContent ∨ HashContent P pl env fe content

variable {P pl}

/-! ## The bytes of the hash pass -/

/-- The bytes a loop has read are those that were missing, exactly if its reads deliver. -/
theorem hashLoop_length_iff {pass : Pass} {fuel : Nat} :
    ∀ {i off remaining : Nat} {data : List Bytes}, remaining ≤ fuel →
      hashLoop pass fuel i off remaining = .ok data →
      (data.flatten.length = remaining ↔ pass.Delivers i off remaining) := by
  induction fuel with
  | zero =>
    intro i off remaining data hfuel hrun
    cases hrun
    cases Nat.le_zero.mp hfuel
    exact iff_of_true rfl .done
  | succ fuel ih =>
    intro i off remaining data hfuel hrun
    rw [hashLoop] at hrun
    by_cases hrem : remaining = 0
    · rw [if_pos hrem] at hrun
      cases hrun
      subst hrem
      exact iff_of_true rfl .done
    rw [if_neg hrem] at hrun
    split at hrun
    · cases hrun
    split at hrun
    · cases hrun
    rename_i b hread
    have hle : b.length ≤ remaining :=
      Nat.le_trans (pass.read_le _ _ _ _ hread) (Nat.min_le_left _ _)
    split at hrun
    · -- an empty read ends the loop
      rename_i hempty
      cases hrun
      refine iff_of_false (fun h => hrem h.symm) ?_
      rintro (_ | ⟨hread', hne, -⟩)
      · exact hrem rfl
      · cases hread.symm.trans hread'
        exact hne (eq_nil_of_length_eq_zero hempty)
    · rename_i hne
      cases htail : hashLoop pass fuel (i + 1) (off + b.length) (remaining - b.length) with
      | error e =>
        rw [htail] at hrun
        cases hrun
      | ok tail =>
        rw [htail] at hrun
        cases hrun
        have hrest := ih (by omega) htail
        rw [flatten_cons, length_append]
        constructor
        · intro hlen
          exact .read hread (fun hnil => hne (congrArg List.length hnil))
            (hrest.mp (by omega))
        · rintro (_ | ⟨hread', -, hdel⟩)
          · exact absurd rfl hrem
          · cases hread.symm.trans hread'
            have := hrest.mpr hdel
            omega

/-- The content has the size of the scan exactly if the pass keeps it. -/
theorem length_hashContent_iff (hC : P.CDCLaws) {env : Env} {fe : ScanEntry}
    (h : HashContent P pl env fe content) :
    content.length = fe.size ↔ KeepsSize pl env.hashPass fe.size := by
  have hall : ∀ {b : Bytes}, env.hashPass.readAll = some b → (b.length = fe.size ↔
      ∀ c, env.hashPass.readAll = some c → c.length = fe.size) := by
    intro b hb
    refine ⟨fun hlen c hc => ?_, fun hlen => hlen b hb⟩
    cases hb.symm.trans hc
    exact hlen
  unfold HashContent at h
  unfold KeepsSize
  split at h
  · rename_i hsmall
    rw [if_pos (.inl hsmall)]
    exact hall h
  · rename_i hlarge
    obtain ⟨ds, hds, rfl⟩ := h
    unfold HashPieces at hds
    split at hds
    · rename_i hcdc
      obtain ⟨b, hb, rfl⟩ := hds
      rw [if_pos (.inr hcdc), hC.flatten_split]
      exact hall hb
    · rename_i hcdc
      rw [if_neg (not_or.mpr ⟨hlarge, hcdc⟩)]
      exact hashLoop_length_iff (Nat.le_refl _) hds

theorem hashContent_unique {env : Env} {fe : ScanEntry} {a b : Bytes}
    (ha : HashContent P pl env fe a) (hb : HashContent P pl env fe b) : a = b := by
  unfold HashContent at ha hb
  split at ha
  · rename_i hsmall
    rw [if_pos hsmall] at hb
    exact Option.some.inj (ha.symm.trans hb)
  · rename_i hlarge
    rw [if_neg hlarge] at hb
    obtain ⟨ds, hds, rfl⟩ := ha
    obtain ⟨ds', hds', rfl⟩ := hb
    unfold HashPieces at hds hds'
    split at hds
    · rename_i hcdc
      rw [if_pos hcdc] at hds'
      obtain ⟨x, hx, rfl⟩ := hds
      obtain ⟨y, hy, rfl⟩ := hds'
      cases hx.symm.trans hy
      rfl
    · rename_i hcdc
      rw [if_neg hcdc] at hds'
      cases hds.symm.trans hds'
      rfl

/-! ## The entry of a file that was read -/

theorem sum_chunkRef (ds : List Bytes) :
    ((ds.map (chunkRef P)).map ChunkRef.size).sum = (ds.flatten.length : Int) := by
  induction ds with
  | nil => rfl
  | cons d ds ih =>
    rw [map_cons, map_cons, sum_cons, ih, flatten_cons, length_append,
      Int.natCast_add]
    rfl

/-- The chunks of an entry: taken over, or those of the hash pass. -/
def ChunksOf (P : Primitives) (chunks taken : List ChunkRef) (content : Bytes) : Prop :=
  chunks = taken ∨ taken = [] ∧
    ∃ ds : List Bytes, chunks = ds.map (chunkRef P) ∧ content = ds.flatten

theorem ChunksOf.sumsTo_iff {chunks taken : List ChunkRef} {size : Nat}
    (h : ChunksOf P chunks taken content) (hsize : content.length = size) :
    SumsTo chunks size ↔ SumsTo taken size := by
  rcases h with rfl | ⟨rfl, ds, rfl, rfl⟩
  · exact Iff.rfl
  · refine iff_of_true (fun _ => ?_) (fun hne => absurd rfl hne)
    rw [sum_chunkRef, hsize]

/-- The status of the entry is not that of a file that could not be read. -/
def FileEntry.Processed (entry : FileEntry) : Prop :=
  entry.status ≠ fileStatusLocked ∧ entry.status ≠ fileStatusError

theorem FileEntry.Processed.isRestorable (h : entry.Processed) (hhash : entry.contentHash ≠ []) :
    entry.isRestorable = true := by
  rw [FileEntry.isRestorable, if_neg (not_or.mpr h)]
  exact decide_eq_true hhash

/-- The entry of a scanned file that was processed. -/
structure EntryFor (fe : ScanEntry) (contentHash : Bytes) (chunks : List ChunkRef)
    (entry : FileEntry) : Prop where
  contentHash_eq : entry.contentHash = contentHash
  size_eq : entry.size = fe.size
  chunks_eq : entry.chunks = chunks
  name_eq : entry.name = fe.relPath
  processed : entry.Processed

theorem processed_resolveFileStatus (hasPrev : Bool) (contentHash prevHash : Bytes)
    (h : entry.status = (resolveFileStatus hasPrev contentHash prevHash).1) :
    entry.Processed := by
  unfold FileEntry.Processed
  rw [h, resolveFileStatus]
  dsimp only
  split
  · decide
  · split <;> decide

theorem processed_unchanged (h : entry.status = fileStatusUnchanged) :
    entry.Processed := by
  unfold FileEntry.Processed
  rw [h]
  decide

/-- What the parts of an entry that was read are. -/
structure ReadEntry (P : Primitives) (pl : Pipeline) (env : Env) (s : Blobs) (fe : ScanEntry)
    (prev : Option FileEntry) (missing : Bool) (entry : FileEntry) (content : Bytes) : Prop where
  seen : HashContent P pl env fe content
  contentHash_eq : entry.contentHash = P.contentHash content
  size_eq : entry.size = fe.size
  chunks : ChunksOf P entry.chunks (takenChunks P env s fe prev missing content) content
  small : fe.size < defaultChunkSize → gcmFails pl = false ∧
    entry.chunks = takenChunks P env s fe prev missing content
  name_eq : entry.name = fe.relPath
  processed : entry.Processed

section
variable {env : Env} {fe : ScanEntry} {prev : Option FileEntry}

theorem checkAndUploadBlob_entry {r : Processed}
    (hrun : checkAndUploadBlob env s fe prev contentHash ciphertext = (.ok r, s')) :
    EntryFor fe contentHash
      (if (prev.isSome ∧ prevHash prev = contentHash) ∧
          env.existsErr .sameHash contentHash = none ∧ s.has contentHash then prevChunks prev
        else []) r.entry := by
  have hok := checkAndUploadBlob_ok hrun
  split
  · rename_i hreuse
    rw [if_pos hreuse] at hok
    rw [hok.1]
    exact ⟨rfl, rfl, rfl, rfl, processed_unchanged rfl⟩
  · rename_i hreuse
    rw [if_neg hreuse] at hok
    rw [(putUnlessPresent_ok hok).1]
    exact ⟨rfl, rfl, rfl, rfl, processed_resolveFileStatus _ _ _ rfl⟩

theorem tryUnchangedEntry_entry {c : Check} {prevFile : FileEntry}
    (hrun : tryUnchangedEntry env c s fe prevFile contentHash = .ok (some entry)) :
    EntryFor fe contentHash prevFile.chunks entry := by
  rw [(tryUnchangedEntry_ok hrun).1]
  exact ⟨rfl, rfl, rfl, rfl, processed_unchanged rfl⟩

theorem processFileStreaming_entry (hlarge : defaultChunkSize ≤ fe.size) {r : Processed}
    (hrun : processFileStreaming P pl env s fe prev missing = (.ok r, s')) :
    ∃ content, ReadEntry P pl env s fe prev missing r.entry content := by
  obtain ⟨hashed, hhash, hcases⟩ := processFileStreaming_ok hrun
  obtain ⟨ds, hds, hof⟩ := hashStreaming_ok hhash
  have hcontent : HashContent P pl env fe ds.flatten := by
    rw [HashContent, if_neg (Nat.not_lt.mpr hlarge)]
    exact ⟨ds, hds, rfl⟩
  have htaken : takenChunks P env s fe prev missing ds.flatten =
      match rehashEntry env s fe prev hashed.contentHash missing with
      | .ok (some _) => prevChunks prev
      | _ => [] := by
    rw [hof.contentHash_eq]
    exact if_pos hlarge
  have hsmall : ∀ {Q : Prop}, fe.size < defaultChunkSize → Q :=
    fun h => absurd h (Nat.not_lt.mpr hlarge)
  rcases hcases with ⟨hre, -⟩ | ⟨hre, hentry, -⟩
  · rw [hre] at htaken
    obtain ⟨f, rfl, -, htry⟩ := rehashEntry_ok hre
    have hentry := tryUnchangedEntry_entry htry
    exact ⟨_, hcontent, hentry.contentHash_eq.trans hof.contentHash_eq, hentry.size_eq,
      .inl (hentry.chunks_eq.trans htaken.symm), hsmall, hentry.name_eq, hentry.processed⟩
  · rw [hre] at htaken
    rw [hentry]
    exact ⟨_, hcontent, hof.contentHash_eq, rfl, .inr ⟨htaken, ds, hof.chunks_eq, rfl⟩, hsmall, rfl,
      processed_resolveFileStatus _ _ _ rfl⟩

theorem processContent_entry {r : Processed}
    (hrun : processContent P pl env s fe prev missing = (.ok r, s')) :
    ∃ content, ReadEntry P pl env s fe prev missing r.entry content := by
  unfold processContent at hrun
  split at hrun
  · rename_i hlarge
    exact processFileStreaming_entry hlarge hrun
  · rename_i hlarge
    split at hrun
    · cases hrun
    · rename_i contentHash ciphertext hhash
      obtain ⟨content, hread, rfl, hgcm, -⟩ := hashAndEncryptFile_ok hhash
      have hentry := checkAndUploadBlob_entry hrun
      have hchunks : r.entry.chunks = takenChunks P env s fe prev missing content :=
        hentry.chunks_eq.trans (if_neg hlarge).symm
      refine ⟨content, ?_, hentry.contentHash_eq, hentry.size_eq, .inl hchunks,
        fun _ => ⟨hgcm, hchunks⟩, hentry.name_eq,
        hentry.processed⟩
      rw [HashContent, if_pos (Nat.not_le.mp hlarge)]
      exact hread

end

/-! ## Every entry -/

section
variable {env : Env} {fe : ScanEntry} {prev : Option FileEntry} {prevContent : Bytes}

/-- The entry of a file that was read describes the content that was read, or none. -/
theorem ReadEntry.describes_iff (hC : P.CDCLaws)
    (h : ReadEntry P pl env s fe prev missing entry content)
    (hsha : ∀ c, prev.isSome = true → HashContent P pl env fe c →
      P.sha256 c = P.sha256 prevContent → c = prevContent) :
    (∃ c, Known P pl env fe prev prevContent c ∧ Describes P entry c) ↔
      KeepsSize pl env.hashPass fe.size ∧ ∀ c, HashContent P pl env fe c →
        SumsTo (takenChunks P env s fe prev missing c) fe.size := by
  constructor
  · rintro ⟨c, hknown, hdesc⟩
    have hc : c = content := by
      have heq : P.sha256 c = P.sha256 content :=
        hexEncode_inj (hdesc.contentHash_eq.symm.trans h.contentHash_eq)
      rcases hknown with ⟨hprev, rfl⟩ | hcontent
      · exact (hsha content hprev h.seen heq.symm).symm
      · exact hashContent_unique hcontent h.seen
    subst hc
    have hlen : c.length = fe.size := Int.ofNat_inj.mp (hdesc.size_eq.symm.trans h.size_eq)
    refine ⟨(length_hashContent_iff hC h.seen).mp hlen, fun c' hc' => ?_⟩
    cases hashContent_unique hc' h.seen
    refine (h.chunks.sumsTo_iff hlen).mp ?_
    rw [← h.size_eq]
    exact hdesc.sums
  · rintro ⟨hkeeps, htaken⟩
    have hlen := (length_hashContent_iff hC h.seen).mpr hkeeps
    refine ⟨content, .inr h.seen, h.contentHash_eq, h.size_eq.trans (congrArg _ hlen.symm), ?_⟩
    rw [h.size_eq]
    exact (h.chunks.sumsTo_iff hlen).mpr (htaken content h.seen)

/-- **An entry that `processFile` returns describes the content its hash is the hash of**,
exactly if the sizes of the scan, of the hash pass and of what is taken over agree.
`prevContent` is the content of the previous entry. -/
theorem sizes_agree_iff (hC : P.CDCLaws) {s s' : Blobs} {r : Processed}
    (hprev : ∀ f, prev = some f → 2 ≤ f.contentHash.length →
      f.contentHash = P.contentHash prevContent)
    (hsha : ∀ c, prev.isSome = true → HashContent P pl env fe c →
      P.sha256 c = P.sha256 prevContent → c = prevContent)
    (hrun : processFile P pl env s fe prev = (.ok r, s')) :
    (∃ c, Known P pl env fe prev prevContent c ∧ Describes P r.entry c) ↔
      SizesAgree P pl env s fe prev prevContent := by
  unfold SizesAgree
  rcases processFile_ok hrun with ⟨hfast, -, f, rfl, hmeta, htry⟩ | ⟨missing, hfast, hcontent⟩
  · rw [hfast]
    -- the entry is the previous one, with the size of the scan
    have hentry := tryUnchangedEntry_entry htry
    have hlen : 2 ≤ f.contentHash.length := by
      simp only [sameMetadata, Bool.and_eq_true, decide_eq_true_eq] at hmeta
      exact hmeta.2
    have hhash := hentry.contentHash_eq.trans (hprev f rfl hlen)
    have hsize := hentry.size_eq
    have hchunks := hentry.chunks_eq
    show _ ↔ prevContent.length = fe.size ∧ SumsTo f.chunks fe.size
    rw [← hchunks]
    constructor
    · rintro ⟨c, hknown, hdesc⟩
      have hc : c = prevContent := by
        rcases hknown with ⟨-, rfl⟩ | hcontent
        · rfl
        · exact hsha c rfl hcontent
            (hexEncode_inj (hdesc.contentHash_eq.symm.trans hhash))
      subst hc
      refine ⟨Int.ofNat_inj.mp (hdesc.size_eq.symm.trans hsize), ?_⟩
      rw [← hsize]
      exact hdesc.sums
    · rintro ⟨hlen', hsums⟩
      refine ⟨prevContent, .inl ⟨rfl, rfl⟩, hhash, hsize.trans (congrArg _ hlen'.symm), ?_⟩
      show SumsTo r.entry.chunks r.entry.size
      rw [hsize]
      exact hsums
  · rw [hfast]
    obtain ⟨content, hread⟩ := processContent_entry hcontent
    cases missing with
    | false => exact hread.describes_iff hC hsha
    | true => exact hread.describes_iff hC hsha

end

end

/-- The chunks of the previous entry are taken over for the same four bytes. -/
theorem sizes_agree_twoChunks :
    ∃ r s', processFile samplePrimitives samplePipeline fourBytesEnv twoChunksStore (sampleScan 4)
        (some twoChunks) = (.ok r, s') ∧ r.entry.chunks = twoChunks.chunks ∧
      ∃ c, Known samplePrimitives samplePipeline fourBytesEnv (sampleScan 4) (some twoChunks)
        zstdMagic c ∧ Describes samplePrimitives r.entry c := by
  have hrun : processFile samplePrimitives samplePipeline fourBytesEnv twoChunksStore (sampleScan 4)
    (some twoChunks) = (.ok _, _) := rfl
  have hread : ∀ c, HashContent samplePrimitives samplePipeline fourBytesEnv (sampleScan 4) c →
      c = zstdMagic := by
    rintro c ⟨⟩
    rfl
  refine ⟨_, _, hrun, rfl, (sizes_agree_iff samplePrimitives_cdc ?_ ?_ hrun).mpr ⟨?_, ?_⟩⟩
  · rintro _ ⟨⟩ -
    rfl
  · exact fun c _ hc _ => hread c hc
  · rintro content ⟨⟩
    rfl
  · intro c hc
    rw [hread c hc]
    exact fun _ => by decide

/-- A file of one byte that is empty when it is read. The entry has the size of the scan and
the hash of the empty content. -/
theorem sizes_disagree_emptied :
    ∃ r s', processFile samplePrimitives samplePipeline emptyFileEnv .empty (sampleScan 1) none =
        (.ok r, s') ∧ r.entry.size = 1 ∧ r.entry.contentHash = samplePrimitives.contentHash [] ∧
      ¬ ∃ c, Known samplePrimitives samplePipeline emptyFileEnv (sampleScan 1) none [] c ∧
        Describes samplePrimitives r.entry c := by
  have hrun : processFile samplePrimitives samplePipeline emptyFileEnv .empty (sampleScan 1) none =
    (.ok _, _) := rfl
  refine ⟨_, _, hrun, rfl, rfl, ?_⟩
  rintro ⟨c, ⟨hprev, -⟩ | hcontent, hdesc⟩
  · cases hprev
  · cases hcontent
    cases hdesc.size_eq

end GbfCore
