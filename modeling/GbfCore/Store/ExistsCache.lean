import GbfCore.Store.LocalStore

/-!
# Coherence of the exists cache

`existsSet` is meant to hold only blobs that are there: a `Put` of a hash that it
holds returns at once. A call that adds to it has seen the file in an earlier step
(`Pc.observed`), and `Delete` removes the file and the entry in two steps, without
the lock that serialises the `Put`s of a hash. So a `Delete` that runs between the
look and the entry leaves a stale entry behind.

`next_effect` says once what a step can do to the files and to the cache. From it:

* `existsSet_subset_files`: in a run in which no file is removed while a call has
  seen it and not yet recorded it, the cache is coherent whenever no call is in
  flight;
* `existsSet_stale`: in general it is not.
-/

namespace GbfCore

open Function Threads Finset

variable {s s' : LocalStore} {t t' : Pc} {e : Event} {h : Bytes} {i : Nat}

/-! ## What a step can do -/

/-- The blobs the call has seen and will record. -/
def Pc.observed : Pc → Finset Bytes
  | .put h .syncParent => {h}
  | .put h .record => {h}
  | .query h .record => {h}
  | .existsBatch (.stat _ _ found) => found
  | .existsBatch (.record _ found) => found
  | .warm (.dir _ newEntries) => newEntries
  | .warm (.record newEntries) => newEntries
  | _ => ∅

theorem observed_start (op : Op) : op.start.observed = ∅ := by
  cases op with
  | put h => rw [Op.start]; split <;> rfl
  | query h => rw [Op.start]; split <;> rfl
  | existsBatch hs => rfl
  | warmExistsCache => rfl
  | delete h => rw [Op.start]; split <;> rfl

theorem observed_batchRest (missing : List Bytes) (result found : Finset Bytes) :
    (LocalStore.batchRest missing result found).observed = found := by
  unfold LocalStore.batchRest
  split
  · rfl
  · split
    · rename_i hfound
      exact hfound.symm
    · rfl

theorem observed_warmRest (dirs : List Bytes) (newEntries : Finset Bytes) :
    (Pc.warm (LocalStore.warmRest dirs newEntries)).observed = newEntries := by
  unfold LocalStore.warmRest
  split <;> rfl

/-- The effect of a step on the files and on the cache. -/
inductive Effect (s : LocalStore) (t : Pc) (e : Event) (s' : LocalStore) (t' : Pc) : Prop
  /-- neither changes, and the call has seen only files that are there -/
  | look (hfiles : s'.files = s.files) (hset : s'.existsSet = s.existsSet)
      (hseen : t'.observed ⊆ t.observed ∪ s.files) (ht : ∀ h, t ≠ .delete h .record)
  /-- a blob file comes into being -/
  | create (h : Bytes) (hfiles : s'.files = insert h s.files) (hset : s'.existsSet = s.existsSet)
      (hseen : t'.observed = {h}) (ht : ∀ h, t ≠ .delete h .record)
  /-- what was seen is recorded -/
  | record (hfiles : s'.files = s.files) (hset : s'.existsSet = s.existsSet ∪ t.observed)
      (hseen : t'.observed = ∅) (ht : ∀ h, t ≠ .delete h .record)
  /-- `Delete` removes the file -/
  | remove (h : Bytes) (hfiles : s'.files = s.files.erase h) (hset : s'.existsSet = s.existsSet)
      (ht : t = .delete h .remove) (he : e = .ok) (ht' : t' = .delete h .record)
  /-- `Delete` removes the entry -/
  | forget (h : Bytes) (hfiles : s'.files = s.files) (hset : s'.existsSet = s.existsSet.erase h)
      (ht : t = .delete h .record) (hseen : t'.observed = ∅)

/-- A step that only moves the call on and has seen nothing new. -/
theorem Effect.move (hseen : t'.observed ⊆ t.observed) (ht : ∀ h, t ≠ .delete h .record) :
    Effect s t e s t' :=
  .look rfl rfl (hseen.trans subset_union_left) ht

/-- A step that looks at one file and records it later if it is there. -/
theorem Effect.stat {found missing : Pc} (hfound : found.observed ⊆ insert h t.observed)
    (hmissing : missing.observed ⊆ t.observed) (ht : ∀ h, t ≠ .delete h .record) :
    Effect s t e s (if h ∈ s.files then found else missing) := by
  by_cases hfile : h ∈ s.files
  · rw [if_pos hfile]
    refine .look rfl rfl (fun x hx => ?_) ht
    rcases mem_insert.mp (hfound hx) with rfl | hx
    · exact mem_union_right _ hfile
    · exact mem_union_left _ hx
  · rw [if_neg hfile]
    exact .move hmissing ht

theorem putNext_effect {pc : PutPc} (hnext : s.putNext h pc e = some (s', t')) :
    Effect s (.put h pc) e s' t' := by
  have ht : ∀ x, Pc.put h pc ≠ .delete x .record := nofun
  have hnil (x : Finset Bytes) : ∅ ⊆ x := empty_subset x
  have hone (x : Finset Bytes) : {h} ⊆ insert h x := by simp
  cases pc with
  | lock =>
    cases e <;> simp only [LocalStore.putNext] at hnext <;> try cases hnext
    split at hnext <;> cases hnext
    exact .look rfl rfl (hnil _) ht
  | stat =>
    cases e <;> cases hnext
    · rw [apply_ite (Pc.put h)]
      exact .stat (hone _) (hnil _) ht
    · exact .move (hnil _) ht
  | restat =>
    cases e <;> cases hnext
    · rw [apply_ite (Pc.put h)]
      exact .stat (hone _) (hnil _) ht
    · exact .move (hnil _) ht
  | rename =>
    cases e <;> cases hnext
    · exact .create h rfl rfl rfl ht
    · exact .move (hnil _) ht
  | syncParent =>
    cases e <;> cases hnext
    · exact .move (Finset.Subset.refl _) ht
    · exact .move (hnil _) ht
  | record =>
    cases e <;> cases hnext
    refine .record rfl ?_ rfl ht
    rw [union_comm]
    rfl
  | stage st =>
    cases e <;> cases hnext <;> cases st <;> exact .move (hnil _) ht
  -- the rest neither touches the files and the cache nor sees a file
  | _ =>
    cases e <;> cases hnext <;> refine .look rfl rfl ?_ ht <;>
      first | exact hnil _ | (split <;> exact hnil _)

theorem existsNext_effect {pc : ExistsPc} (hnext : s.existsNext h pc e = some (s', t')) :
    Effect s (.query h pc) e s' t' := by
  have ht : ∀ x, Pc.query h pc ≠ .delete x .record := nofun
  have hnil (x : Finset Bytes) : ∅ ⊆ x := empty_subset x
  cases pc with
  | lookup =>
    cases e <;> cases hnext
    split <;> exact .move (hnil _) ht
  | stat =>
    cases e <;> cases hnext
    · exact .stat (by simp [Pc.observed]) (hnil _) ht
    · exact .move (hnil _) ht
  | record =>
    cases e <;> cases hnext
    refine .record rfl ?_ rfl ht
    rw [union_comm]
    rfl

theorem batchNext_effect {pc : BatchPc} (hnext : s.batchNext pc e = some (s', t')) :
    Effect s (.existsBatch pc) e s' t' := by
  have ht : ∀ x, Pc.existsBatch pc ≠ .delete x .record := nofun
  have hnil (x : Finset Bytes) : ∅ ⊆ x := empty_subset x
  cases pc with
  | lookup hs =>
    cases e <;> simp only [LocalStore.batchNext] at hnext <;> try cases hnext
    split at hnext <;> cases hnext
    · exact .move (observed_batchRest .. ▸ hnil _) ht
    · exact .move (hnil _) ht
  | stat missing result found =>
    cases e with
    | call op => cases missing <;> cases hnext
    | fail =>
      cases missing <;> cases hnext <;> exact .move (hnil _) ht
    | ok =>
      cases missing with
      | nil => cases hnext
      | cons h rest =>
        cases hnext
        refine .stat ?_ ?_ ht
        · rw [observed_batchRest]
          exact Finset.Subset.refl _
        · rw [observed_batchRest]
          exact Finset.Subset.refl _
  | record result found =>
    cases e <;> cases hnext
    exact .record rfl rfl rfl ht

theorem warmNext_effect {pc : WarmPc} (hnext : s.warmNext pc e = some (s', t')) :
    Effect s (.warm pc) e s' t' := by
  have ht : ∀ x, Pc.warm pc ≠ .delete x .record := nofun
  have hnil (x : Finset Bytes) : ∅ ⊆ x := empty_subset x
  cases pc with
  | top =>
    cases e <;> cases hnext
    · exact .move (observed_warmRest .. ▸ hnil _) ht
    · exact .move (hnil _) ht
  | dir dirs newEntries =>
    cases dirs with
    | nil => cases e <;> cases hnext
    | cons d dirs =>
      cases e <;> cases hnext
      · refine .look rfl rfl ?_ ht
        rw [observed_warmRest]
        exact union_subset_union_right (filter_subset _ _)
      · exact .move (observed_warmRest .. ▸ Finset.Subset.refl _) ht
  | record newEntries =>
    cases e <;> cases hnext
    exact .record rfl rfl rfl ht

/-- **What a step can do**, for every call and every outcome. -/
theorem next_effect (hnext : s.next t e = some (s', t')) : Effect s t e s' t' := by
  cases t with
  | returned a =>
    cases e <;> cases hnext
    refine .move ?_ nofun
    rw [observed_start]
    exact empty_subset _
  | put h pc => exact putNext_effect hnext
  | query h pc => exact existsNext_effect hnext
  | existsBatch pc => exact batchNext_effect hnext
  | warm pc => exact warmNext_effect hnext
  | delete h pc =>
    cases pc with
    | remove =>
      cases e <;> cases hnext
      · exact .remove h rfl rfl rfl rfl rfl
      · exact .move (empty_subset _) nofun
    | record =>
      cases e <;> cases hnext
      exact .forget h rfl rfl rfl rfl

/-! ## The invariant -/

/-- The callers of one store. -/
abbrev Callers := Config LocalStore Pc

/-- No call is in flight. -/
def Quiescent (c : Callers) : Prop := ∀ i, ∃ a, c.thread i = .returned a

/-- A new `LocalBlobStore` over any directory. -/
structure Fresh (c : Callers) : Prop where
  quiescent : Quiescent c
  existsSet_eq : c.shared.existsSet = ∅
  dirCache_eq : c.shared.dirCache = []
  putMu_eq : c.shared.putMu = ∅

/-- The step does not remove a file that a call has seen and not yet recorded. -/
def RemovesUnseen (c : Callers) (i : Nat) (e : Event) : Prop :=
  ∀ h, c.thread i = .delete h .remove → e = .ok → ∀ j, h ∉ (c.thread j).observed

/-- What a call has seen is there, and what is cached is there unless a `Delete` is
about to take it out of the cache. -/
structure Coherent (c : Callers) : Prop where
  seen : ∀ i, (c.thread i).observed ⊆ c.shared.files
  cached : ∀ h ∈ c.shared.existsSet, h ∈ c.shared.files ∨ ∃ i, c.thread i = .delete h .record

theorem coherent_of_fresh {c : Callers} (h : Fresh c) : Coherent c := by
  constructor
  · intro i
    obtain ⟨a, ha⟩ := h.quiescent i
    rw [ha]
    exact empty_subset _
  · intro x hx
    rw [h.existsSet_eq] at hx
    exact absurd hx (notMem_empty x)

/-- A `Delete` that is about to forget a hash stays there while another call, or a
call at another point, takes a step. -/
theorem deleting_update {f : Nat → Pc} (hi : f i ≠ .delete h .record)
    (hdel : ∃ j, f j = .delete h .record) :
    ∃ j, update f i t' j = .delete h .record := by
  obtain ⟨j, hj⟩ := hdel
  have hne : j ≠ i := by
    rintro rfl
    exact hi hj
  exact ⟨j, by rw [update_of_ne hne, hj]⟩

theorem coherent_step {c : Callers} (hc : Coherent c) (hallowed : RemovesUnseen c i e)
    (hnext : c.shared.next (c.thread i) e = some (s', t')) :
    Coherent ⟨s', update c.thread i t'⟩ := by
  -- the other calls keep what they have seen as long as no file they saw goes
  have hseen {files : Finset Bytes} (hmine : t'.observed ⊆ files)
      (hothers : ∀ j, (c.thread j).observed ⊆ files) :
      ∀ j, (update c.thread i t' j).observed ⊆ files :=
    (forall_update_iff c.thread fun _ t => t.observed ⊆ files).mpr
      ⟨hmine, fun j _ => hothers j⟩
  cases next_effect hnext with
  | look hfiles hset hnew ht =>
    constructor
    · show ∀ j, _ ⊆ s'.files
      rw [hfiles]
      exact hseen (hnew.trans (union_subset (hc.seen i) (Finset.Subset.refl _))) hc.seen
    · show ∀ h ∈ s'.existsSet, h ∈ s'.files ∨ _
      rw [hfiles, hset]
      exact fun h hh => (hc.cached h hh).imp_right (deleting_update (ht h))
  | create h hfiles hset hnew ht =>
    constructor
    · show ∀ j, _ ⊆ s'.files
      rw [hfiles]
      refine hseen ?_ fun j => (hc.seen j).trans (subset_insert h _)
      rw [hnew]
      exact singleton_subset_iff.mpr (mem_insert_self h _)
    · show ∀ h ∈ s'.existsSet, h ∈ s'.files ∨ _
      rw [hfiles, hset]
      intro x hx
      exact (hc.cached x hx).imp mem_insert_of_mem (deleting_update (ht x))
  | record hfiles hset hnew ht =>
    constructor
    · show ∀ j, _ ⊆ s'.files
      rw [hfiles]
      exact hseen (hnew ▸ empty_subset _) hc.seen
    · show ∀ h ∈ s'.existsSet, h ∈ s'.files ∨ _
      rw [hfiles, hset]
      intro x hx
      rcases mem_union.mp hx with hx | hx
      · exact (hc.cached x hx).imp_right (deleting_update (ht x))
      · exact .inl (hc.seen i hx)
  | remove h hfiles hset ht he ht' =>
    constructor
    · show ∀ j, _ ⊆ s'.files
      rw [hfiles]
      refine hseen (ht' ▸ empty_subset _) fun j x hx => ?_
      refine mem_erase.mpr ⟨?_, hc.seen j hx⟩
      rintro rfl
      exact hallowed x ht he j hx
    · show ∀ h ∈ s'.existsSet, h ∈ s'.files ∨ _
      rw [hfiles, hset]
      intro x hx
      by_cases hxh : x = h
      · rw [hxh]
        exact .inr ⟨i, (update_self i t' c.thread).trans ht'⟩
      · refine (hc.cached x hx).imp (fun hx => mem_erase.mpr ⟨hxh, hx⟩) ?_
        exact deleting_update (by rw [ht]; nofun)
  | forget h hfiles hset ht hnew =>
    constructor
    · show ∀ j, _ ⊆ s'.files
      rw [hfiles]
      exact hseen (hnew ▸ empty_subset _) hc.seen
    · show ∀ h ∈ s'.existsSet, h ∈ s'.files ∨ _
      rw [hfiles, hset]
      intro x hx
      obtain ⟨hxh, hx⟩ := mem_erase.mp hx
      refine (hc.cached x hx).imp_right (deleting_update ?_)
      rw [ht]
      rintro heq
      exact hxh (Pc.delete.inj heq).1.symm

/-- **Coherence of the exists cache.** In a run in which no blob file is removed
while a call has seen it and not yet recorded it, whenever no call is in flight every
cached hash has its file, so a `Put` of a missing blob is not skipped. -/
theorem existsSet_subset_files {c : Callers}
    (hreach : Reach LocalStore.next RemovesUnseen Fresh c) (hquiet : Quiescent c) :
    (∀ h ∈ c.shared.existsSet, h ∈ c.shared.files) ∧
      ∀ h ∉ c.shared.files,
        c.shared.putNext h .lookup .ok = some (c.shared, .put h .stat) := by
  have hc : Coherent c := hreach.invariant Coherent (fun _ => coherent_of_fresh) coherent_step
  have hcached : ∀ h ∈ c.shared.existsSet, h ∈ c.shared.files := by
    intro h hh
    refine (hc.cached h hh).resolve_right ?_
    rintro ⟨i, hi⟩
    obtain ⟨a, ha⟩ := hquiet i
    rw [ha] at hi
    cases hi
  refine ⟨hcached, fun h hmissing => ?_⟩
  rw [LocalStore.putNext, if_neg (fun hh => hmissing (hcached h hh))]

/-- Sixty-four zeros. -/
def sampleHash : Bytes := List.replicate 64 48

/-- A new store over a directory with one blob. -/
def oneBlob : Callers where
  shared := ⟨{sampleHash}, [blobDir sampleHash], ∅, [], ∅⟩
  thread _ := .returned .done

theorem oneBlob_fresh : Fresh oneBlob :=
  ⟨fun _ => ⟨_, rfl⟩, rfl, rfl, rfl⟩

/-- After an `Exists` the blob is cached, and it is there. -/
theorem existsSet_subset_files_exists :
    ∃ c : Callers, sampleHash ∈ c.shared.existsSet ∧
      ∀ h ∈ c.shared.existsSet, h ∈ c.shared.files := by
  have h1 : Reach LocalStore.next RemovesUnseen Fresh _ :=
    .next (.start oneBlob_fresh) (i := 0) (e := .call (.query sampleHash)) nofun rfl
  have h2 := h1.next (i := 0) (e := .ok) nofun rfl
  have h3 := h2.next (i := 0) (e := .ok) nofun rfl
  have h4 := h3.next (i := 0) (e := .ok) nofun rfl
  refine ⟨_, ?_, (existsSet_subset_files h4 ?_).1⟩
  · decide
  · rintro (_ | i) <;> exact ⟨_, rfl⟩

/-- A `Delete` between the look and the entry of an `Exists` leaves an entry for a
blob that is gone. -/
theorem existsSet_stale :
    ∃ c : Callers, Reach LocalStore.next (fun _ _ _ => True) Fresh c ∧ Quiescent c ∧
      sampleHash ∈ c.shared.existsSet ∧ sampleHash ∉ c.shared.files := by
  have hrun : run LocalStore.next oneBlob
      [(0, .call (.query sampleHash)), (0, .ok), (0, .ok), (1, .call (.delete sampleHash)),
        (1, .ok), (1, .ok), (0, .ok)] = some _ := rfl
  refine ⟨_, run_reach (.start oneBlob_fresh) hrun, ?_, ?_, ?_⟩
  · rintro (_ | _ | i) <;> exact ⟨_, rfl⟩
  · decide
  · decide

end GbfCore
