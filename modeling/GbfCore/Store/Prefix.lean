import GbfCore.Lib.Inside
import GbfCore.Store.LocalStore

/-!
# Listing the blobs with a prefix (local_store.go)

A blob is in the subdirectory of `gb` that has the first two characters of its hash as its
name. `List` and `ListWithModTime` compare the prefix with these names, so that a prefix of
more than two characters finds nothing (`list_complete_iff`), although the conformance test
says that the store may return too much for it.
-/

namespace GbfCore

open List

variable {h : Bytes}

/-- An entry of `os.ReadDir`. `Info` gives the modification time and the size, or fails. -/
structure StoreEntry where
  name : Bytes
  isDir : Bool
  info : Option (Int × Int)
deriving DecidableEq

/-- `.gb` -/
def gbSuffix : Bytes := [0x2e, 0x67, 0x62]

/-- The directory `gb`. -/
structure BlobTree where
  /-- its entries; `none` if there is no such directory -/
  top : Option (List StoreEntry)
  /-- the entries of a subdirectory -/
  shard : Bytes → List StoreEntry
  nodup_top : ((top.getD []).map StoreEntry.name).Nodup
  nodup_shard : ∀ d, ((shard d).map StoreEntry.name).Nodup
  /-- A blob file is where `BlobPath` has put it. -/
  sharded : ∀ d, ∀ b ∈ shard d, ∀ h, validateHash h = true → b.name = h ++ gbSuffix →
    b.isDir = false → blobDir h = d

/-- The directories that cannot be read. -/
structure ReadFaults where
  top : Bool
  shard : Bytes → Bool

/-- The hash of a blob file. -/
def StoreEntry.hash (b : StoreEntry) : Option Bytes :=
  if b.isDir ∨ ¬ gbSuffix <:+ b.name then none
  else
    let name := b.name.take (b.name.length - gbSuffix.length)
    if validateHash name then some name else none

/-- `BlobInfo` -/
structure BlobInfo where
  hash : Bytes
  modTime : Int
  size : Int

namespace BlobTree

/-- The blob files that `List` and `ListWithModTime` come to, with their hashes. -/
def listShards (t : BlobTree) (f : ReadFaults) (pre : Bytes) :
    Except Unit (List (Bytes × StoreEntry)) :=
  if f.top then .error ()
  else .ok <| (t.top.getD []).flatMap fun e =>
    if e.isDir = false then []
    else if pre ≠ [] ∧ ¬ pre <+: e.name then []
    else if f.shard e.name then []
    else (t.shard e.name).filterMap fun b => b.hash.map fun h => (h, b)

/-- `List`. -/
def list (t : BlobTree) (f : ReadFaults) (pre : Bytes) : Except Unit (List Bytes) :=
  (t.listShards f pre).map fun found => found.map Prod.fst

/-- `ListWithModTime`. -/
def listWithModTime (t : BlobTree) (f : ReadFaults) (pre : Bytes) :
    Except Unit (List BlobInfo) :=
  (t.listShards f pre).map fun found => found.map fun p =>
    let (modTime, size) := p.2.info.getD (0, 0)
    ⟨p.1, modTime, size⟩

/-- The blob of a hash is in the store. -/
def Stored (t : BlobTree) (h : Bytes) : Prop :=
  validateHash h = true ∧ (∃ e ∈ t.top.getD [], e.isDir = true ∧ e.name = blobDir h) ∧
    ∃ b ∈ t.shard (blobDir h), b.isDir = false ∧ b.name = h ++ gbSuffix

end BlobTree

/-! ## What is listed -/

theorem StoreEntry.hash_eq_some {b : StoreEntry} :
    b.hash = some h ↔ b.isDir = false ∧ b.name = h ++ gbSuffix ∧ validateHash h = true := by
  unfold StoreEntry.hash
  by_cases hfile : b.isDir = false ∧ gbSuffix <:+ b.name
  · obtain ⟨stem, hstem⟩ := hfile.2
    have htake : b.name.take (b.name.length - gbSuffix.length) = stem := by
      rw [← hstem, length_append, Nat.add_sub_cancel, take_left]
    rw [if_neg (by simp [hfile]), htake]
    dsimp only
    rw [← hstem, append_left_inj]
    constructor
    · intro hsome
      split at hsome
      · next hvalid =>
        cases hsome
        exact ⟨hfile.1, rfl, hvalid⟩
      · cases hsome
    · rintro ⟨-, rfl, hvalid⟩
      rw [if_pos hvalid]
  · rw [if_pos (by simpa [Decidable.or_iff_not_imp_left] using hfile)]
    exact iff_of_false (Option.some_ne_none _).symm fun hlisted => hfile ⟨hlisted.1, h, hlisted.2.1.symm⟩

section
variable {t : BlobTree} {f : ReadFaults} {pre : Bytes}

/-- The hashes of one subdirectory. -/
def BlobTree.hashesIn (t : BlobTree) (f : ReadFaults) (pre : Bytes) (e : StoreEntry) : List Bytes :=
  if e.isDir = true ∧ pre <+: e.name ∧ f.shard e.name = false then
    (t.shard e.name).filterMap StoreEntry.hash
  else []

theorem list_eq : t.list f pre =
    if f.top then .error () else .ok ((t.top.getD []).flatMap (t.hashesIn f pre)) := by
  unfold BlobTree.list BlobTree.listShards
  split
  · rfl
  · refine congrArg Except.ok ?_
    show map Prod.fst _ = _
    rw [map_flatMap]
    refine congrArg (fun g => (t.top.getD []).flatMap g) (funext fun e => ?_)
    unfold BlobTree.hashesIn
    by_cases hkeep : e.isDir = true ∧ pre <+: e.name ∧ f.shard e.name = false
    · rw [if_pos hkeep, if_neg (by simp [hkeep.1]), if_neg fun h => h.2 hkeep.2.1,
        if_neg (by simp [hkeep.2.2]), map_filterMap]
      refine congrArg (fun g => (t.shard e.name).filterMap g) (funext fun b => ?_)
      cases b.hash <;> rfl
    · rw [if_neg hkeep]
      split_ifs with hdir hpre hfault
      · rfl
      · rfl
      · rfl
      · refine absurd ⟨Bool.not_eq_false _ ▸ hdir, ?_, Bool.eq_false_iff.mpr hfault⟩ hkeep
        by_contra hnot
        exact hpre ⟨fun hnil => hnot (hnil ▸ nil_prefix), hnot⟩

theorem mem_hashesIn {e : StoreEntry} :
    h ∈ t.hashesIn f pre e ↔ (e.isDir = true ∧ pre <+: e.name ∧ f.shard e.name = false) ∧
      ∃ b ∈ t.shard e.name, b.isDir = false ∧ b.name = h ++ gbSuffix ∧ validateHash h = true := by
  unfold BlobTree.hashesIn
  split
  · next hkeep => simp [hkeep, mem_filterMap, StoreEntry.hash_eq_some]
  · next hkeep => simp [hkeep]

/-- The hashes of a subdirectory begin with its name. -/
theorem blobDir_of_mem_hashesIn {e : StoreEntry} (hmem : h ∈ t.hashesIn f pre e) :
    blobDir h = e.name := by
  obtain ⟨-, b, hb, hfile, hname, hvalid⟩ := mem_hashesIn.mp hmem
  exact t.sharded e.name b hb h hvalid hname hfile

/-- **What is listed**: the blobs whose subdirectory can be read and begins with the prefix. -/
theorem mem_list {l : List Bytes} (hl : t.list f pre = .ok l) :
    h ∈ l ↔ t.Stored h ∧ pre <+: blobDir h ∧ f.shard (blobDir h) = false := by
  rw [list_eq] at hl
  split at hl
  · cases hl
  cases hl
  rw [mem_flatMap]
  constructor
  · rintro ⟨e, he, hmem⟩
    have hdir := blobDir_of_mem_hashesIn hmem
    obtain ⟨⟨hisDir, hpre, hread⟩, b, hb, hfile, hname, hvalid⟩ := mem_hashesIn.mp hmem
    rw [← hdir] at hb hpre hread
    exact ⟨⟨hvalid, ⟨e, he, hisDir, hdir.symm⟩, b, hb, hfile, hname⟩, hpre, hread⟩
  · rintro ⟨⟨hvalid, ⟨e, he, hisDir, hdir⟩, b, hb, hfile, hname⟩, hpre, hread⟩
    rw [← hdir] at hb hpre hread
    exact ⟨e, he, mem_hashesIn.mpr ⟨⟨hisDir, hpre, hread⟩, b, hb, hfile, hname, hvalid⟩⟩

/-- The hashes of files with different names are different. -/
theorem map_filterMap_hash_sublist (l : List StoreEntry) :
    ((l.filterMap StoreEntry.hash).map (· ++ gbSuffix)).Sublist (l.map StoreEntry.name) := by
  induction l with
  | nil => exact .slnil
  | cons b l ih =>
    cases hb : b.hash with
    | none =>
      rw [filterMap_cons_none hb]
      exact ih.cons _
    | some h =>
      rw [filterMap_cons_some hb, map_cons, map_cons,
        (StoreEntry.hash_eq_some.mp hb).2.1]
      exact ih.cons_cons _

/-- No hash is listed twice. -/
theorem nodup_list {l : List Bytes} (hl : t.list f pre = .ok l) : l.Nodup := by
  rw [list_eq] at hl
  split at hl
  · cases hl
  cases hl
  refine nodup_flatMap.mpr ⟨fun e _ => ?_, ?_⟩
  · unfold BlobTree.hashesIn
    split
    · exact .of_map _ ((t.nodup_shard e.name).sublist (map_filterMap_hash_sublist _))
    · exact nodup_nil
  · refine (pairwise_map.mp t.nodup_top).imp fun hne h hleft hright => hne ?_
    rw [← blobDir_of_mem_hashesIn hleft, blobDir_of_mem_hashesIn hright]

theorem list_of_listWithModTime {infos : List BlobInfo}
    (h : t.listWithModTime f pre = .ok infos) : t.list f pre = .ok (infos.map BlobInfo.hash) := by
  unfold BlobTree.listWithModTime at h
  unfold BlobTree.list
  cases hfound : t.listShards f pre with
  | error e =>
    rw [hfound] at h
    cases h
  | ok found =>
    rw [hfound] at h
    cases h
    exact congrArg Except.ok (by simp [Function.comp_def])

end

/-- **When a listing misses no blob.** The prefix must not be longer than the name of a
subdirectory, and the directories must be readable. What is listed has the prefix, whatever
its length, and is listed once. -/
theorem list_complete_iff (t : BlobTree) (f : ReadFaults) (pre : Bytes) :
    (((∃ l, t.list f pre = .ok l ∧ ∀ h, t.Stored h → pre <+: h → h ∈ l) ∧
        ∃ infos, t.listWithModTime f pre = .ok infos ∧
          ∀ h, t.Stored h → pre <+: h → h ∈ infos.map BlobInfo.hash) ↔
      f.top = false ∧
        ∀ h, t.Stored h → pre <+: h → pre.length ≤ 2 ∧ f.shard (blobDir h) = false) ∧
    (∀ l, t.list f pre = .ok l → l.Nodup ∧ ∀ h ∈ l, t.Stored h ∧ pre <+: h) ∧
    ∀ infos, t.listWithModTime f pre = .ok infos →
      t.list f pre = .ok (infos.map BlobInfo.hash) := by
  have hshort : ∀ h : Bytes, pre <+: blobDir h ↔ pre <+: h ∧ pre.length ≤ 2 :=
    fun h => prefix_take_iff
  refine ⟨⟨?_, ?_⟩, fun l hl => ⟨nodup_list hl, fun h hh => ?_⟩, fun _ => list_of_listWithModTime⟩
  · rintro ⟨⟨l, hl, hall⟩, -⟩
    constructor
    · rw [list_eq] at hl
      split at hl
      · cases hl
      · next htop => exact Bool.eq_false_iff.mpr htop
    · intro h hstored hpre
      obtain ⟨-, hdir, hread⟩ := (mem_list hl).mp (hall h hstored hpre)
      exact ⟨((hshort h).mp hdir).2, hread⟩
  · rintro ⟨htop, hall⟩
    obtain ⟨found, hfound⟩ : ∃ found, t.listShards f pre = .ok found := by
      unfold BlobTree.listShards
      rw [htop]
      exact ⟨_, rfl⟩
    have hinfos : ∃ infos, t.listWithModTime f pre = .ok infos := by
      unfold BlobTree.listWithModTime
      rw [hfound]
      exact ⟨_, rfl⟩
    obtain ⟨infos, hinfos⟩ := hinfos
    have hl := list_of_listWithModTime hinfos
    have hmem : ∀ h, t.Stored h → pre <+: h → h ∈ infos.map BlobInfo.hash := by
      intro h hstored hpre
      obtain ⟨hlen, hread⟩ := hall h hstored hpre
      exact (mem_list hl).mpr ⟨hstored, (hshort h).mpr ⟨hpre, hlen⟩, hread⟩
    exact ⟨⟨_, hl, hmem⟩, infos, hinfos, hmem⟩
  · obtain ⟨hstored, hdir, -⟩ := (mem_list hl).mp hh
    exact ⟨hstored, ((hshort h).mp hdir).1⟩

/-- A store with the blob of a hash of zeros. -/
def zerosTree : BlobTree where
  top := some [⟨[0x30, 0x30], true, none⟩]
  shard d := if d = [0x30, 0x30] then [⟨replicate 64 0x30 ++ gbSuffix, false, some (0, 1)⟩] else []
  nodup_top := by decide
  nodup_shard d := by split <;> simp
  sharded d b hb h _ hname _ := by
    split at hb
    · next hd =>
      rw [mem_singleton.mp hb] at hname
      rw [← append_cancel_right hname, hd]
      rfl
    · cases hb

/-- The prefix `000` finds nothing. -/
theorem list_misses_blob :
    zerosTree.Stored (replicate 64 0x30) ∧
      [0x30, 0x30, 0x30] <+: replicate 64 (0x30 : UInt8) ∧
      zerosTree.list ⟨false, fun _ => false⟩ [0x30, 0x30, 0x30] = .ok [] :=
  ⟨⟨by decide, ⟨_, mem_singleton_self _, rfl, rfl⟩, _, mem_singleton_self _, rfl, rfl⟩,
    by decide, by decide⟩

/-! ## Where a blob is -/

/-- `BlobPath` -/
def blobPath (baseDir hash : Bytes) : Bytes :=
  if validateHash hash then pathJoin [baseDir, ascii "gb", blobDir hash, hash ++ gbSuffix] else []

/-- A blob is in a subdirectory of `gb`. -/
theorem blobPath_placed (baseDir : Bytes) (hvalid : validateHash h = true) :
    Inside baseDir (blobPath baseDir h) ∧ pathBase (blobPath baseDir h) = h ++ gbSuffix := by
  have hhex : ∀ c ∈ h, c ≠ slash ∧ c ≠ dot := by
    intro c hc
    have hdigit := all_eq_true.mp (Bool.and_eq_true_iff.mp hvalid).2 c hc
    constructor <;> rintro rfl <;> exact absurd hdigit (by decide)
  obtain ⟨c, rest, rfl⟩ : ∃ c rest, h = c :: rest := by
    cases h with
    | nil => cases hvalid
    | cons c rest => exact ⟨c, rest, rfl⟩
  have hdot := (hhex c mem_cons_self).2
  have hdir : PathNames (ascii "gb" ++ slash :: blobDir (c :: rest)) := by
    refine PathName.sub ⟨nofun, rfl⟩ (by decide) (names_of_notMem ?_ fun hin => ?_)
    · exact pathName_of_mem mem_cons_self hdot
    · exact (hhex _ (mem_of_mem_take hin)).1 rfl
  have hslash : slash ∉ c :: rest ++ gbSuffix := fun hin =>
    (mem_append.mp hin).elim (fun hin => (hhex _ hin).1 rfl) (by decide)
  have hname : PathName (c :: rest ++ gbSuffix) := pathName_of_mem mem_cons_self hdot
  have hpath : blobPath baseDir (c :: rest) = pathJoin
      [pathJoin [baseDir, ascii "gb" ++ slash :: blobDir (c :: rest)], c :: rest ++ gbSuffix] := by
    rw [(cleanDir_pathJoin baseDir hdir).join (names_of_notMem hname hslash),
      ← pathJoin_append baseDir hdir (names_of_notMem hname hslash), blobPath, if_pos hvalid]
    cases baseDir <;> rfl
  rw [hpath]
  exact ⟨((Inside.refl baseDir).join hdir).join (names_of_notMem hname hslash),
    pathBase_pathJoin _ hname hslash⟩

/-- **A blob has a file of its own inside the store**, which no other hash, valid or not, is
kept in. -/
theorem blobPath_faithful (baseDir : Bytes) {hash : Bytes} (hvalid : validateHash hash = true) :
    Inside baseDir (blobPath baseDir hash) ∧
      ∀ hash', blobPath baseDir hash' = blobPath baseDir hash → hash' = hash := by
  obtain ⟨hinside, hbase⟩ := blobPath_placed baseDir hvalid
  refine ⟨hinside, fun hash' heq => ?_⟩
  rw [← heq] at hbase
  by_cases hvalid' : validateHash hash' = true
  · exact append_cancel_right ((blobPath_placed baseDir hvalid').2.symm.trans hbase)
  · rw [blobPath, if_neg hvalid'] at hbase
    have hlength : 1 = (hash ++ gbSuffix).length := congrArg length hbase
    rw [length_append, show gbSuffix.length = 3 from rfl] at hlength
    omega

theorem blobPath_faithful_zeros :
    Inside (ascii "../b") (blobPath (ascii "../b") (replicate 64 0x30)) :=
  (blobPath_faithful _ (by decide)).1

end GbfCore
