import GbfCore.Blob.RoundTrip
import GbfCore.Pipeline.Integrity
import GbfCore.Pipeline.Restore

/-!
# Backup, then restore

For a file that does not change (`Pass.Reads`), the hash pass and the upload pass
see the same pieces (`storedPieces`): the whole content of a small file, the
chunks of a large one. In a fresh repository the upload puts the blob of each
piece and nothing else (`Holds`), and the restore reads the pieces back.

Which bytes were compressed is not recorded. The writer decides by name, size and
gain, the readers by the first four bytes. So a piece that was stored as it is and
starts with the zstd magic is decompressed by the reader, and does not pass the
hash check (`Survives`). Without a key nothing is read back at all: the blobs are
stored as they are and every reader decrypts.
-/

namespace GbfCore

open List Nat

variable {ciphertext contentHash d p : Bytes} {pass : Pass} {h : Hashed} {env : Env} {s' : Blobs}
  {s : Blobs}
variable {ds : List Bytes}
variable {path : Bytes}
variable {fe : ScanEntry} {prev : Option FileEntry} {r : Processed} {draws : Draws}

/-! ## A file that does not change -/

/-- Every read of the pass sees the content `p`, or fails. -/
structure Pass.Reads (pass : Pass) (p : Bytes) : Prop where
  read_eq : ∀ {i off k b}, pass.read i off k = some b → b = (p.drop off).take k
  readAll_eq : ∀ {b}, pass.readAll = some b → b = p

section
variable (P : Primitives) (pl : Pipeline)

/-- The pieces of a large content. -/
def largePieces (p : Bytes) : List Bytes :=
  if pl.cdcEnabled then P.cdcSplit pl.cdcPolynomial p else pieces defaultChunkSize p

/-- The pieces a content is stored in. -/
def storedPieces (p : Bytes) : List Bytes :=
  if p.length < defaultChunkSize then [p] else largePieces P pl p

variable {P pl}

theorem flatten_largePieces (hC : P.CDCLaws) (p : Bytes) : (largePieces P pl p).flatten = p := by
  unfold largePieces
  split
  · exact hC.flatten_split _ p
  · exact flatten_pieces defaultChunkSize_pos p

theorem ne_nil_of_mem_largePieces (hC : P.CDCLaws) (hd : d ∈ largePieces P pl p) :
    d ≠ [] := by
  unfold largePieces at hd
  split at hd
  · exact hC.split_ne_nil _ p d hd
  · exact ne_nil_of_mem_pieces defaultChunkSize_pos hd

/-- A piece fits the read buffer of the upload pass. -/
theorem length_le_uploadBufSize (hC : P.CDCLaws) (hd : d ∈ largePieces P pl p) :
    d.length ≤ uploadBufSize pl := by
  unfold largePieces at hd
  unfold uploadBufSize
  by_cases hcdc : pl.cdcEnabled = true
  · rw [if_pos hcdc] at hd
    rw [if_pos ⟨hcdc, by decide⟩]
    exact hC.length_split_le _ p d hd
  · rw [if_neg hcdc] at hd
    rw [if_neg (fun h => hcdc h.1)]
    exact length_le_of_mem_pieces hd

theorem uploadBufSize_le : uploadBufSize pl ≤ cdcMaxSize := by
  unfold uploadBufSize
  split <;> decide

theorem length_le_cdcMaxSize (hC : P.CDCLaws) (hd : d ∈ storedPieces P pl p) :
    d.length ≤ cdcMaxSize := by
  unfold storedPieces at hd
  split at hd
  · rename_i hsmall
    rw [mem_singleton.mp hd]
    exact le_trans (le_of_lt hsmall) (by decide)
  · exact le_trans (length_le_uploadBufSize hC hd) uploadBufSize_le

theorem largePieces_ne_nil (hC : P.CDCLaws) (hp : defaultChunkSize ≤ p.length) :
    largePieces P pl p ≠ [] := by
  intro hnil
  have hflat : (largePieces P pl p).flatten = p := flatten_largePieces hC p
  rw [hnil] at hflat
  subst hflat
  exact absurd hp (by decide)

/-! ## The hash pass -/

/-- The turns of `hashFileWithChunks` read the pieces of what is left. -/
theorem hashLoop_reads (hpass : pass.Reads p) :
    ∀ {fuel i off remaining : Nat} {data : List Bytes}, remaining ≤ fuel →
      off + remaining = p.length → hashLoop pass fuel i off remaining = .ok data →
      data = pieces defaultChunkSize (p.drop off)
  | 0, i, off, remaining, data, hfuel, hlen, hrun => by
    cases hrun
    rw [drop_eq_nil_of_le (by omega), pieces_nil defaultChunkSize_pos]
  | fuel + 1, i, off, remaining, data, hfuel, hlen, hrun => by
    rw [hashLoop] at hrun
    by_cases hrem : remaining = 0
    · rw [if_pos hrem] at hrun
      cases hrun
      rw [drop_eq_nil_of_le (by omega), pieces_nil defaultChunkSize_pos]
    rw [if_neg hrem] at hrun
    have hrest : (p.drop off).length = remaining := by
      rw [length_drop]
      omega
    split at hrun
    · cases hrun
    split at hrun
    · cases hrun
    rename_i b hread
    have hb : b = (p.drop off).take defaultChunkSize := by
      rw [hpass.read_eq hread, ← hrest, min_comm, ← take_take, take_length]
    have hblen : b.length = min defaultChunkSize remaining := by
      rw [hb, length_take, hrest]
    have hpos : 0 < b.length := by
      have := defaultChunkSize_pos
      omega
    rw [if_neg (by omega)] at hrun
    cases htail : hashLoop pass fuel (i + 1) (off + b.length) (remaining - b.length) with
    | error e =>
      rw [htail] at hrun
      cases hrun
    | ok tail =>
      rw [htail] at hrun
      cases hrun
      have hne : p.drop off ≠ [] := by
        intro hnil
        rw [hnil, length_nil] at hrest
        exact hrem hrest.symm
      have htl := hashLoop_reads hpass (by omega) (by omega) htail
      -- a short last chunk and a full one leave the same rest
      have hdrop : p.drop (off + b.length) = (p.drop off).drop defaultChunkSize := by
        rw [drop_drop]
        by_cases hfull : defaultChunkSize ≤ remaining
        · rw [hblen, min_eq_left hfull]
        · rw [drop_eq_nil_of_le (by omega), drop_eq_nil_of_le (by omega)]
      rw [pieces_of_ne_nil defaultChunkSize_pos hne, htl, hdrop, ← hb]

theorem cdcLoop_ok :
    ∀ {ds : List Bytes} {i : Nat} {data : List Bytes}, cdcLoop pass ds i = .ok data → data = ds
  | [], i, data, hrun => by
    rw [cdcLoop] at hrun
    split at hrun
    · cases hrun
    · cases hrun
      rfl
  | d :: ds, i, data, hrun => by
    rw [cdcLoop] at hrun
    split at hrun
    · cases hrun
    · cases htail : cdcLoop pass ds (i + 1) with
      | error e =>
        rw [htail] at hrun
        cases hrun
      | ok tail =>
        rw [htail] at hrun
        cases hrun
        rw [cdcLoop_ok htail]

theorem retainLoop_false (n : Nat) (acc ds : List Bytes) : retainLoop false n acc ds = acc := by
  induction ds with
  | nil => rfl
  | cons d ds ih => rwa [retainLoop]

theorem retainLoop_true : ∀ (n : Nat) (acc ds : List Bytes),
    retainLoop true n acc ds = acc ++ ds ∨ retainLoop true n acc ds = []
  | n, acc, [] => .inl (append_nil acc).symm
  | n, acc, d :: ds => by
    rw [retainLoop]
    split
    · exact .inr (retainLoop_false n [] ds)
    · rcases retainLoop_true (n + d.length) (acc ++ [d]) ds with h | h
      · exact .inl (by rw [h, append_assoc]; rfl)
      · exact .inr h

/-- The chunker's pieces are kept whole or not at all. -/
theorem retainLoop_eq (retain : Bool) (ds : List Bytes) :
    retainLoop retain 0 [] ds = ds ∨ retainLoop retain 0 [] ds = [] := by
  cases retain with
  | false => exact .inr (retainLoop_false 0 [] ds)
  | true => exact retainLoop_true 0 [] ds

variable (P) in
/-- The outcome of a hash pass that saw these pieces. -/
structure Hashed.Of (h : Hashed) (ds : List Bytes) : Prop where
  contentHash_eq : h.contentHash = P.contentHash ds.flatten
  chunks_eq : h.chunks = ds.map (chunkRef P)
  data_eq : h.data = ds ∨ h.data = []

variable (P pl) in
/-- The pieces a hash pass over a live file gets to see. -/
def HashPieces (pass : Pass) (size : Nat) (ds : List Bytes) : Prop :=
  if pl.cdcEnabled then
    ∃ bytes, pass.readAll = some bytes ∧ ds = P.cdcSplit pl.cdcPolynomial bytes
  else hashLoop pass size 0 0 size = .ok ds

/-- What a hash pass returns describes the pieces it saw, however the file changes. -/
theorem hashStreaming_ok {size : Nat} (hrun : hashStreaming P pl pass size = .ok h) :
    ∃ ds, HashPieces P pl pass size ds ∧ h.Of P ds := by
  unfold hashStreaming at hrun
  unfold HashPieces
  dsimp only at hrun
  by_cases hcdc : pl.cdcEnabled = true
  · simp only [if_pos hcdc] at hrun ⊢
    unfold hashFileWithCDC at hrun
    split at hrun
    · cases hrun
    split at hrun
    · cases hrun
    rename_i bytes hread
    cases hloop : cdcLoop pass (P.cdcSplit pl.cdcPolynomial bytes) 0 with
    | error e =>
      rw [hloop] at hrun
      cases hrun
    | ok data =>
      rw [hloop] at hrun
      cases hrun
      exact ⟨data, ⟨bytes, hread, cdcLoop_ok hloop⟩, rfl, rfl, retainLoop_eq _ _⟩
  · simp only [if_neg hcdc] at hrun ⊢
    unfold hashFileWithChunks at hrun
    split at hrun
    · cases hrun
    cases hloop : hashLoop pass size 0 0 size with
    | error e =>
      rw [hloop] at hrun
      cases hrun
    | ok data =>
      rw [hloop] at hrun
      cases hrun
      refine ⟨data, rfl, rfl, rfl, ?_⟩
      dsimp only
      split
      · exact .inl rfl
      · exact .inr rfl

/-- The pieces of a file that does not change. -/
theorem hashPieces_reads (hpass : pass.Reads p) (hds : HashPieces P pl pass p.length ds) :
    ds = largePieces P pl p := by
  unfold HashPieces at hds
  unfold largePieces
  split at hds
  · rename_i hcdc
    obtain ⟨bytes, hread, rfl⟩ := hds
    rw [if_pos hcdc, hpass.readAll_eq hread]
  · rename_i hcdc
    rw [if_neg hcdc, hashLoop_reads hpass (le_refl _) (zero_add _) hds, drop_zero]

theorem hashStreaming_of (hpass : pass.Reads p) (hrun : hashStreaming P pl pass p.length = .ok h) :
    h.Of P (largePieces P pl p) := by
  obtain ⟨ds, hds, hof⟩ := hashStreaming_ok hrun
  exact hashPieces_reads hpass hds ▸ hof

theorem Hashed.Of.data_of_mem (hof : h.Of P ds) (hmem : useMemChunks h = true) :
    h.data = ds := by
  rcases hof.data_eq with hdata | hdata
  · exact hdata
  · unfold useMemChunks at hmem
    rw [hdata] at hmem
    simp [length_nil, eq_comm, length_eq_zero_iff] at hmem

/-! ## The upload pass -/

variable (P pl) in
/-- Every blob of the store is the blob of a piece, under the name of the piece. -/
def BlobsOf (path : Bytes) (ds : List Bytes) (s : Blobs) : Prop :=
  ∀ h blob, s h = some blob →
    ∃ d ∈ ds, ∃ draws, h = P.contentHash d ∧ blob = chunkBlob P pl path draws d

theorem blobsOf_empty (path : Bytes) (ds : List Bytes) : BlobsOf P pl path ds .empty := by
  intro h blob hblob
  cases hblob

theorem BlobsOf.put (hs : BlobsOf P pl path ds s) (hd : d ∈ ds) (draws : Draws) :
    BlobsOf P pl path ds (s.put (P.contentHash d) (chunkBlob P pl path draws d)) := by
  intro h blob hblob
  unfold Blobs.put at hblob
  split at hblob
  · rename_i heq
    cases hsome : s h with
    | some old =>
      rw [hsome] at hblob
      cases hblob
      exact hs h _ hsome
    | none =>
      rw [hsome] at hblob
      cases hblob
      exact ⟨d, hd, draws, heq, rfl⟩
  · exact hs h blob hblob

variable (P) in
/-- The turns see the piece that is due: what they store is the piece, and they do
not end the loop. -/
structure TurnsOf (turn : (i off : Nat) → ChunkRef → Turn) (ds : List Bytes) : Prop where
  store_eq : ∀ {pre d post b}, ds = pre ++ d :: post →
    turn pre.length pre.flatten.length (chunkRef P d) = .store b → b = d
  not_done : ∀ {pre d post}, ds = pre ++ d :: post →
    (turn pre.length pre.flatten.length (chunkRef P d)).isDone = false

theorem readSize_chunkRef (hd : d.length ≤ uploadBufSize pl) :
    readSize pl (chunkRef P d) = d.length :=
  min_eq_left hd

/-- Past a piece, the loop stands at the next one. -/
theorem cut_next {pre post : List Bytes} (hbuf : ∀ d ∈ ds, d.length ≤ uploadBufSize pl)
    (hds : ds = pre ++ d :: post) :
    ds = (pre ++ [d]) ++ post ∧ (pre ++ [d]).length = pre.length + 1 ∧
      (pre ++ [d]).flatten.length = pre.flatten.length + readSize pl (chunkRef P d) := by
  have hd : d ∈ ds := hds ▸ mem_append_right pre mem_cons_self
  refine ⟨by rw [hds, append_assoc]; rfl, length_append, ?_⟩
  rw [flatten_append, length_append, readSize_chunkRef (hbuf d hd)]
  simp

section
variable {turn : (i off : Nat) → ChunkRef → Turn} {ds : List Bytes}
  (hturn : TurnsOf P turn ds) (hbuf : ∀ d ∈ ds, d.length ≤ uploadBufSize pl)
include hturn hbuf

/-- The next turn finds the pieces that are left. -/
theorem reachedChunks_of : ∀ {post pre : List Bytes}, ds = pre ++ post →
    reachedChunks pl turn (post.map (chunkRef P)) pre.length pre.flatten.length =
      post.map (chunkRef P)
  | [], pre, hds => rfl
  | d :: post, pre, hds => by
    obtain ⟨hnext, hlen, hoff⟩ := cut_next hbuf hds
    rw [map_cons, reachedChunks, hturn.not_done hds, ← hlen, ← hoff,
      reachedChunks_of hnext]
    rfl

theorem uploadLoop_blobsOf : ∀ {post pre : List Bytes}
    {uploaded n : Nat} {s s' : Blobs}, ds = pre ++ post → BlobsOf P pl path ds s →
      uploadLoop P pl env path turn (post.map (chunkRef P)) pre.length pre.flatten.length uploaded s
        = (.ok n, s') →
      BlobsOf P pl path ds s'
  | [], pre, uploaded, n, s, s', hds, hs, hrun => by
    cases hrun
    exact hs
  | d :: post, pre, uploaded, n, s, s', hds, hs, hrun => by
    have hd : d ∈ ds := hds ▸ mem_append_right pre mem_cons_self
    obtain ⟨hnext, hlen, hoff⟩ := cut_next hbuf hds
    rw [map_cons, uploadLoop] at hrun
    split at hrun
    · cases hrun
    rw [← hlen, ← hoff] at hrun
    cases hcase : turn pre.length pre.flatten.length (chunkRef P d) with
    | fail e =>
      rw [hcase] at hrun
      cases hrun
    | done =>
      rw [hcase] at hrun
      cases hrun
      exact hs
    | skip =>
      rw [hcase] at hrun
      exact uploadLoop_blobsOf hnext hs hrun
    | store b =>
      rw [hcase, hturn.store_eq hds hcase] at hrun
      dsimp only at hrun
      split at hrun
      · cases hrun
      · exact uploadLoop_blobsOf hnext (hs.put hd _) hrun

end

/-- A re-read of a file that did not change delivers the piece that is due. -/
theorem read_piece (hpass : pass.Reads p) {pre post : List Bytes} {b : Bytes} {i : Nat}
    (hp : p = (pre ++ d :: post).flatten) (hread : pass.read i pre.flatten.length d.length = some b) :
    b = d := by
  rw [hpass.read_eq hread, hp, flatten_append, drop_left, flatten_cons,
    take_left]

theorem fileTurn_turnsOf (hC : P.CDCLaws) (hpass : pass.Reads p) (present : List Bytes) :
    TurnsOf P (fileTurn P pl pass present) (largePieces P pl p) := by
  have hcut : ∀ {pre d post}, largePieces P pl p = pre ++ d :: post →
      d ∈ largePieces P pl p ∧ p = (pre ++ d :: post).flatten := by
    intro pre d post hds
    refine ⟨hds ▸ mem_append_right pre mem_cons_self, ?_⟩
    rw [← hds, flatten_largePieces hC]
  constructor
  · intro pre d post b hds hturn
    obtain ⟨hd, hp⟩ := hcut hds
    unfold fileTurn at hturn
    rw [readSize_chunkRef (length_le_uploadBufSize hC hd)] at hturn
    split at hturn
    · cases hturn
    rename_i b' hread
    rw [read_piece hpass hp hread] at hturn
    repeat' split at hturn
    all_goals cases hturn
    rfl
  · intro pre d post hds
    obtain ⟨hd, hp⟩ := hcut hds
    cases hdone : (fileTurn P pl pass present pre.length pre.flatten.length (chunkRef P d)).isDone with
    | false => rfl
    | true =>
      have hread := fileTurn_isDone.mp hdone
      rw [readSize_chunkRef (length_le_uploadBufSize hC hd)] at hread
      exact absurd (read_piece hpass hp hread).symm (ne_nil_of_mem_largePieces hC hd)

theorem uploadTurn_turnsOf (hC : P.CDCLaws) (hpass : env.uploadPass.Reads p)
    (hof : h.Of P (largePieces P pl p)) (present : List Bytes) :
    TurnsOf P (uploadTurn P pl env h present) (largePieces P pl p) := by
  cases hmem : useMemChunks h with
  | false =>
    have hturn : uploadTurn P pl env h present = fileTurn P pl env.uploadPass present := by
      funext i off c
      rw [uploadTurn, hmem]
      rfl
    rw [hturn]
    exact fileTurn_turnsOf hC hpass present
  | true =>
    have hdata := hof.data_of_mem hmem
    constructor
    · intro pre d post b hds hturn
      rw [uploadTurn, hmem, if_pos rfl, memTurn, hdata, hds] at hturn
      split at hturn
      · cases hturn
      · cases hturn
        simp
    · intro pre d post hds
      rw [uploadTurn, hmem, if_pos rfl, memTurn]
      split <;> rfl

variable (P pl) in
/-- The store holds, for each piece, the blob of a piece with its name. -/
structure Holds (path : Bytes) (ds : List Bytes) (s : Blobs) : Prop where
  blobsOf : BlobsOf P pl path ds s
  has : ∀ d ∈ ds, s.has (P.contentHash d)

/-- The upload of a file that did not change puts its pieces. -/
theorem uploadChangedChunks_holds (hC : P.CDCLaws) (hpass : env.uploadPass.Reads p)
    (hof : h.Of P (largePieces P pl p)) {prevs : List ChunkRef} {n : Nat}
    (hrun : uploadChangedChunks P pl env .empty path h prevs = (.ok n, s')) :
    Holds P pl path (largePieces P pl p) s' := by
  unfold uploadChangedChunks at hrun
  split at hrun
  · cases hrun
  rename_i present hpresent
  have hsound := blobsExist_sound hpresent
  have hbuf : ∀ d ∈ largePieces P pl p, d.length ≤ uploadBufSize pl :=
    fun d hd => length_le_uploadBufSize hC hd
  split at hrun
  · rename_i hall
    cases hrun
    refine ⟨blobsOf_empty _ _, fun d hd => ?_⟩
    have hc : chunkRef P d ∈ h.chunks := hof.chunks_eq ▸ mem_map_of_mem hd
    exact hsound _ (contains_iff_mem.mp (all_eq_true.mp hall _ hc))
  split at hrun
  · cases hrun
  split at hrun
  · cases hrun
  have hturns := uploadTurn_turnsOf hC hpass hof present
  have hhas := uploadLoop_has (fun i off c => uploadTurn_skip) hsound hrun
  rw [hof.chunks_eq] at hrun hhas
  have hstart : largePieces P pl p = [] ++ largePieces P pl p := rfl
  have hreached : reachedChunks pl (uploadTurn P pl env h present)
      ((largePieces P pl p).map (chunkRef P)) 0 0 = (largePieces P pl p).map (chunkRef P) :=
    reachedChunks_of hturns hbuf hstart
  refine ⟨uploadLoop_blobsOf hturns hbuf hstart (blobsOf_empty _ _) hrun, fun d hd => ?_⟩
  rw [hhas, hreached, map_map]
  exact .inr (mem_map_of_mem (f := ChunkRef.hash ∘ chunkRef P) hd)

/-! ## A fresh repository -/

/-- Nothing can be taken over from an empty store. -/
theorem tryUnchangedEntry_empty {c : Check} {prevFile entry : FileEntry} :
    tryUnchangedEntry env c .empty fe prevFile contentHash ≠ .ok (some entry) := by
  intro hrun
  obtain ⟨h, hh⟩ := exists_mem_of_ne_nil _ entry.blobRefs_ne_nil
  exact absurd ((tryUnchangedEntry_ok hrun).2 h hh) (by simp [Blobs.has, Blobs.empty])

theorem checkAndUploadBlob_empty
    (hrun : checkAndUploadBlob env .empty fe prev contentHash ciphertext = (.ok r, s')) :
    r.entry = makeFileEntry fe contentHash
        (resolveFileStatus prev.isSome contentHash (prevHash prev)).1 ∧
      s' = Blobs.empty.put contentHash ciphertext := by
  have hnone : ¬ Blobs.empty.has contentHash := by simp [Blobs.has, Blobs.empty]
  have hok := checkAndUploadBlob_ok hrun
  rw [if_neg fun h => hnone h.2.2] at hok
  obtain ⟨hentry, hs⟩ := putUnlessPresent_ok hok
  exact ⟨hentry, hs.resolve_left fun h => hnone h.1⟩

theorem hashAndEncryptFile_reads (hpass : env.hashPass.Reads p) (hkey : pl.key ≠ []) {size : Nat}
    (hrun : hashAndEncryptFile P pl env path size = .ok (contentHash, ciphertext)) :
    contentHash = P.contentHash p ∧ ciphertext = chunkBlob P pl path (env.draws 0) p := by
  obtain ⟨content, hread, rfl, -, hblob⟩ := hashAndEncryptFile_ok hrun
  rw [if_neg hkey] at hblob
  rw [hpass.readAll_eq hread] at hblob ⊢
  exact ⟨rfl, hblob.trans (if_neg hkey).symm⟩

variable (P pl) in
/-- The entry of a content: the small file is one blob, the large one its chunks. -/
structure EntryOf (p : Bytes) (entry : FileEntry) : Prop where
  small : p.length < defaultChunkSize →
    entry.chunks = [] ∧ entry.contentHash = P.contentHash p ∧ entry.size = p.length
  large : ¬ p.length < defaultChunkSize →
    entry.chunks = (largePieces P pl p).map (chunkRef P)

/-- **What a backup leaves in a fresh repository**: the entry of the content and
the blobs of its pieces. -/
theorem processFile_fresh (hC : P.CDCLaws) (hkey : pl.key ≠ []) (hhash : env.hashPass.Reads p)
    (hup : env.uploadPass.Reads p) (hsize : fe.size = p.length)
    (hrun : processFile P pl env .empty fe prev = (.ok r, s')) :
    EntryOf P pl p r.entry ∧ Holds P pl fe.absPath (storedPieces P pl p) s' := by
  rcases processFile_ok hrun with ⟨-, -, f, -, -, htry⟩ | ⟨missing, -, hrun⟩
  · exact absurd htry tryUnchangedEntry_empty
  unfold processContent at hrun
  unfold storedPieces
  by_cases hsmall : p.length < defaultChunkSize
  · rw [if_neg (by omega)] at hrun
    rw [if_pos hsmall]
    split at hrun
    · cases hrun
    rename_i contentHash ciphertext hfile
    obtain ⟨rfl, rfl⟩ := hashAndEncryptFile_reads hhash hkey hfile
    obtain ⟨hentry, rfl⟩ := checkAndUploadBlob_empty hrun
    rw [hentry]
    refine ⟨⟨fun _ => ⟨rfl, rfl, congrArg _ hsize⟩, fun h => absurd hsmall h⟩, ?_, ?_⟩
    · exact (blobsOf_empty _ _).put mem_cons_self _
    · intro d hd
      rw [mem_singleton.mp hd]
      exact Blobs.has_put_self _ _ _
  · rw [if_pos (by omega)] at hrun
    rw [if_neg hsmall]
    obtain ⟨hashed, hfile, ⟨hre, -⟩ | ⟨-, hentry, n, hupload⟩⟩ := processFileStreaming_ok hrun
    · obtain ⟨f, -, -, htry⟩ := rehashEntry_ok hre
      exact absurd htry tryUnchangedEntry_empty
    · rw [hsize] at hfile
      have hof := hashStreaming_of hhash hfile
      rw [hentry]
      refine ⟨⟨fun h => absurd h hsmall, fun _ => hof.chunks_eq⟩, ?_⟩
      exact uploadChangedChunks_holds hC hup hof hupload

/-! ## Reading the blobs back -/

section
variable {dec : Decryptor} (hA : P.AEADLaws) (hdec : dec.key = pl.key)
  (hk : validKey pl.key = true)
include hA hdec hk

theorem chunkBlob_sealed (path : Bytes) (draws : Draws) (d : Bytes) :
    SealedText P dec (chunkBlob P pl path draws d) (toStore P path d) := by
  have hne : pl.key ≠ [] := by
    rintro hnil
    rw [hnil] at hk
    cases hk
  rw [chunkBlob, if_neg hne, sealedBlob, ← hdec]
  exact sealedText hA dec (hdec ▸ hk) draws _

theorem downloadBlob_chunkBlob {h : Bytes} (hs : s h = some (chunkBlob P pl path draws d)) :
    downloadBlob P dec s h = verifiedPlaintext P .decompress h (toStore P path d) := by
  have hsealed := chunkBlob_sealed hA hdec hk path draws d
  rw [downloadBlob, hs]
  dsimp only
  rw [hsealed.decrypt_eq (hdec ▸ hk)]

theorem openChunkBlob_chunkBlob (path : Bytes) (draws : Draws) (d : Bytes) :
    openChunkBlob P dec (chunkBlob P pl path draws d) = .ok (toStore P path d) := by
  have hsealed := chunkBlob_sealed hA hdec hk path draws d
  unfold openChunkBlob
  dsimp only
  rw [hdec, hk, ← hdec, hsealed.opens, hsealed.decrypt_eq (hdec ▸ hk)]
  split <;> rfl

theorem length_chunkBlob_le (hd : d.length ≤ cdcMaxSize) :
    (chunkBlob P pl path draws d).length ≤ maxChunkBlobSize := by
  have hsealed := chunkBlob_sealed hA hdec hk path draws d
  have hle := length_storedChunk_le (P := P) (!isLikelyIncompressible path) d
  rw [hsealed.length_eq, toStore]
  unfold maxChunkBlobSize
  omega

/-- However the store delivers it, a chunk blob gives the stored bytes. -/
theorem restoreChunkStream_chunkBlob (canStream : Bytes → Bool) {h : Bytes}
    (hd : d.length ≤ cdcMaxSize) (hs : s h = some (chunkBlob P pl path draws d)) :
    ∃ failed, restoreChunkStream P dec canStream s h =
      verifiedPlaintext P failed h (toStore P path d) := by
  unfold restoreChunkStream getStream
  by_cases hstream : canStream h = true
  · rw [if_pos hstream, hs]
    dsimp only
    rw [decryptChunkBlobStream,
      if_neg (not_lt.mpr (length_chunkBlob_le hA hdec hk hd)),
      openChunkBlob_chunkBlob hA hdec hk]
    exact ⟨_, rfl⟩
  · rw [if_neg hstream]
    exact ⟨_, downloadBlob_chunkBlob hA hdec hk hs⟩

end

/-! ## The pieces that survive -/

variable (P) in
/-- The readers give the piece back: it does not look like a zstd frame, or the
writer compressed it, or decompressing it makes no difference. -/
def Survives (path d : Bytes) : Prop :=
  isCompressed d = false ∨
    (isLikelyIncompressible path = false ∧ minCompressSize ≤ d.length ∧
      (P.zstdCompress d).length < d.length) ∨
    P.zstdDecompress maxDecompressedSize d = some d

variable (P) in
/-- SHA-256 tells apart the pieces of a file and what they decompress to. -/
def TellsApart (ds : List Bytes) : Prop :=
  ∀ d ∈ ds, ∀ x, x ∈ ds ∨ P.zstdDecompress maxDecompressedSize d = some x →
    P.sha256 x = P.sha256 d → x = d

theorem TellsApart.eq_of_contentHash (htell : TellsApart P ds) {x : Bytes} (hd : d ∈ ds)
    (hx : x ∈ ds ∨ P.zstdDecompress maxDecompressedSize d = some x)
    (heq : P.contentHash x = P.contentHash d) : x = d :=
  htell d hd x hx (hexEncode_inj heq)

/-- What the writer compressed is stored as a frame, and the rest as it is. -/
theorem toStore_eq (path d : Bytes) :
    toStore P path d =
      if isLikelyIncompressible path = false ∧ minCompressSize ≤ d.length ∧
          (P.zstdCompress d).length < d.length then P.zstdCompress d
      else d := by
  rw [toStore, storedChunk]
  simp only [Bool.not_eq_true']
  split <;> rfl

/-- A piece that survives is what the readers take its stored bytes for. -/
theorem smallPlaintext_toStore (hZ : P.ZstdLaws) (hlen : d.length ≤ cdcMaxSize)
    (hd : Survives P path d) : smallPlaintext P (toStore P path d) = some d := by
  rw [toStore_eq]
  split
  · rename_i hcomp
    have hne : d ≠ [] := by
      rintro rfl
      exact absurd hcomp.2.1 (by decide)
    rw [smallPlaintext, hZ.isCompressed_compress d hne, if_pos rfl]
    exact hZ.decompress_compress _ d (le_trans hlen (by decide))
  · rename_i hcomp
    rw [smallPlaintext]
    rcases hd with hmagic | hcomp' | hself
    · rw [hmagic]
      rfl
    · exact absurd hcomp' hcomp
    · split
      · exact hself
      · rfl

/-- The stored bytes of a piece, as a reader takes them: the piece if it survives,
and an error if it does not. -/
theorem verifiedPlaintext_toStore (hZ : P.ZstdLaws) (htell : TellsApart P ds) (hd : d ∈ ds)
    (hlen : d.length ≤ cdcMaxSize) (path : Bytes) (failed : RestoreError) :
    (Survives P path d → verifiedPlaintext P failed (P.contentHash d) (toStore P path d) = .ok d) ∧
      (¬ Survives P path d →
        ∀ out, verifiedPlaintext P failed (P.contentHash d) (toStore P path d) ≠ .ok out) := by
  constructor
  · intro hsurvives
    rw [verifiedPlaintext, smallPlaintext_toStore hZ hlen hsurvives]
    simp
  · intro hnot out hout
    rw [Survives, not_or, not_or, Bool.not_eq_false] at hnot
    obtain ⟨hmagic, hcomp, hself⟩ := hnot
    rw [toStore_eq, if_neg hcomp, verifiedPlaintext, smallPlaintext, if_pos hmagic] at hout
    split at hout
    · cases hout
    · rename_i x hx
      split at hout
      · cases hout
      · rename_i hhash
        rw [htell.eq_of_contentHash hd (.inr hx) (Classical.not_not.mp hhash)] at hx
        exact hself hx

/-- The blob under the name of a piece is a blob of that piece. -/
theorem Holds.blob_eq (hs : Holds P pl path ds s) (htell : TellsApart P ds) (hd : d ∈ ds) :
    ∃ draws, s (P.contentHash d) = some (chunkBlob P pl path draws d) := by
  obtain ⟨blob, hblob⟩ := Option.isSome_iff_exists.mp (hs.has d hd)
  obtain ⟨d', hd', draws, heq, rfl⟩ := hs.blobsOf _ _ hblob
  have hsame := htell.eq_of_contentHash hd (.inl hd') heq.symm
  exact ⟨draws, by rw [hblob, hsame]⟩

section
variable {dec : Decryptor} (hA : P.AEADLaws) (hZ : P.ZstdLaws) (hdec : dec.key = pl.key)
  (hk : validKey pl.key = true) {path : Bytes} {ds : List Bytes} {s : Blobs}
  (hs : Holds P pl path ds s) (htell : TellsApart P ds)
  (hlen : ∀ d ∈ ds, d.length ≤ cdcMaxSize)
include hA hZ hdec hk hs htell hlen

/-- One piece, read back in a turn of the restore loop. -/
theorem restoreChunkStream_piece (canStream : Bytes → Bool) (hd : d ∈ ds) :
    (Survives P path d → restoreChunkStream P dec canStream s (P.contentHash d) = .ok d) ∧
      (¬ Survives P path d →
        ∀ out, restoreChunkStream P dec canStream s (P.contentHash d) ≠ .ok out) := by
  obtain ⟨draws, hblob⟩ := hs.blob_eq htell hd
  obtain ⟨failed, heq⟩ := restoreChunkStream_chunkBlob hA hdec hk canStream (hlen d hd) hblob
  rw [heq]
  exact verifiedPlaintext_toStore hZ htell hd (hlen d hd) path failed

/-- The restore loop returns the rest of the content exactly if the rest of the
pieces survives. -/
theorem restoreChunks_pieces (canStream : Bytes → Bool) :
    ∀ {rest : List Bytes} (dst : Bytes), (∀ d ∈ rest, d ∈ ds) →
      ((∀ d ∈ rest, Survives P path d) →
        restoreChunks P dec canStream s (rest.map (chunkRef P)) dst = .ok (dst ++ rest.flatten)) ∧
      (¬ (∀ d ∈ rest, Survives P path d) →
        ∀ out, restoreChunks P dec canStream s (rest.map (chunkRef P)) dst ≠ .ok out)
  | [], dst, _ => by
    constructor
    · intro _
      rw [flatten_nil, append_nil]
      rfl
    · intro hnot
      exact absurd (fun d hd => absurd hd not_mem_nil) hnot
  | d :: rest, dst, hsub => by
    have hpiece := restoreChunkStream_piece hA hZ hdec hk hs htell hlen canStream
      (hsub d mem_cons_self)
    have hrest := restoreChunks_pieces canStream (dst ++ d)
      fun x hx => hsub x (mem_cons_of_mem d hx)
    rw [map_cons, restoreChunks, show (chunkRef P d).hash = P.contentHash d from rfl]
    by_cases hd : Survives P path d
    · rw [hpiece.1 hd]
      dsimp only
      rw [forall_mem_cons, and_iff_right hd, flatten_cons, ← append_assoc]
      exact hrest
    · constructor
      · intro hall
        exact absurd (hall d mem_cons_self) hd
      · intro _ out hout
        split at hout
        · cases hout
        · rename_i plaintext hok
          exact hpiece.2 hd plaintext hok

end

/-- **Backup then restore**: in a fresh encrypted repository, the restore of a file
that did not change returns its content exactly if every piece survives the
readers' guess at compression. -/
theorem restoreFile_processFile_iff (hA : P.AEADLaws) (hZ : P.ZstdLaws) (hC : P.CDCLaws)
    (hk : validKey pl.key = true) {dec : Decryptor} (hdec : dec.key = pl.key)
    {canStream : Bytes → Bool} {env : Env} {p : Bytes} (hhash : env.hashPass.Reads p)
    (hup : env.uploadPass.Reads p) {fe : ScanEntry} (hsize : fe.size = p.length)
    (htell : TellsApart P (storedPieces P pl p)) {prev : Option FileEntry} {r : Processed}
    {s' : Blobs} (hrun : processFile P pl env .empty fe prev = (.ok r, s')) :
    restoreFile P dec canStream s' r.entry = .ok p ↔
      ∀ d ∈ storedPieces P pl p, Survives P fe.absPath d := by
  have hkey : pl.key ≠ [] := by
    intro hnil
    rw [hnil] at hk
    cases hk
  obtain ⟨hentry, hs⟩ := processFile_fresh hC hkey hhash hup hsize hrun
  have hlen : ∀ d ∈ storedPieces P pl p, d.length ≤ cdcMaxSize :=
    fun d hd => length_le_cdcMaxSize hC hd
  unfold restoreFile
  by_cases hsmall : p.length < defaultChunkSize
  · obtain ⟨hchunks, hcontent, hsz⟩ := hentry.small hsmall
    have hp : p ∈ storedPieces P pl p := by
      rw [storedPieces, if_pos hsmall]
      exact mem_cons_self
    obtain ⟨draws, hblob⟩ := hs.blob_eq htell hp
    have hverified := verifiedPlaintext_toStore hZ htell hp (hlen p hp) fe.absPath .decompress
    rw [if_neg (fun h => h hchunks), hsz, if_neg (by omega), hcontent,
      downloadBlob_chunkBlob hA hdec hk hblob, storedPieces, if_pos hsmall]
    constructor
    · intro hok d hd
      rw [mem_singleton.mp hd]
      exact Classical.not_not.mp fun hnot => hverified.2 hnot p hok
    · intro hall
      exact hverified.1 (hall p mem_cons_self)
  · have hlarge : storedPieces P pl p = largePieces P pl p := if_neg hsmall
    have hloop := restoreChunks_pieces hA hZ hdec hk hs htell hlen canStream [] fun d hd => hd
    rw [hlarge, nil_append, flatten_largePieces hC] at hloop
    have hchunks : r.entry.chunks ≠ [] := by
      rw [hentry.large hsmall]
      exact fun h => largePieces_ne_nil hC (by omega) (map_eq_nil_iff.mp h)
    rw [if_pos hchunks, restoreChunkedFile, hentry.large hsmall, hlarge]
    constructor
    · intro hok
      exact Classical.not_not.mp fun hnot => hloop.2 hnot p hok
    · exact hloop.1

end

/-- A pass over the content `p` in which nothing fails. -/
def Pass.ofContent (p : Bytes) : Pass where
  openFails := false
  cancelled _ := false
  read _ off k := some ((p.drop off).take k)
  read_le _ off k b h := by
    cases h
    exact length_take_le k _
  readAll := some p

theorem Pass.ofContent_reads (p : Bytes) : (Pass.ofContent p).Reads p where
  read_eq h := by
    cases h
    rfl
  readAll_eq h := by
    cases h
    rfl

/-- A small file that has changed since it was backed up to another repository. -/
theorem restoreFile_processFile_abc :
    ∃ r s', processFile samplePrimitives samplePipeline
        (.faultless (.ofContent (ascii "abc")) (.ofContent (ascii "abc"))) .empty (sampleScan 3)
        (some twoChunks) = (.ok r, s') ∧ r.isChanged = true ∧
      restoreFile samplePrimitives (newDecryptor sampleKey 0) (fun _ => true) s' r.entry =
        .ok (ascii "abc") := by
  have hrun : processFile samplePrimitives samplePipeline
      (.faultless (.ofContent (ascii "abc")) (.ofContent (ascii "abc"))) .empty (sampleScan 3)
      (some twoChunks) = (.ok _, _) := rfl
  refine ⟨_, _, hrun, rfl, ?_⟩
  refine (restoreFile_processFile_iff samplePrimitives_aead samplePrimitives_zstd
    samplePrimitives_cdc (by decide) rfl (Pass.ofContent_reads _) (Pass.ofContent_reads _) rfl
    ?_ hrun).mpr ?_
  · rintro d hd x (hx | hx) -
    · rw [mem_singleton.mp hd, mem_singleton.mp hx]
    · rw [mem_singleton.mp hd] at hx
      cases hx
  · intro d hd
    rw [mem_singleton.mp hd]
    exact .inl (by decide)

/-- A file of four bytes, those of the zstd magic, cannot be restored. -/
theorem restoreFile_processFile_zstdMagic :
    ∃ r s', processFile samplePrimitives samplePipeline
        (.faultless (.ofContent zstdMagic) (.ofContent zstdMagic)) .empty (sampleScan 4) none =
          (.ok r, s') ∧
      restoreFile samplePrimitives (newDecryptor sampleKey 0) (fun _ => true) s' r.entry =
        .error .decompress :=
  ⟨_, _, rfl, by decide⟩

end GbfCore
