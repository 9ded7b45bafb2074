import GbfCore.Lib.Bytes
import GbfCore.Lib.Threads

/-!
# The local blob store (local_store.go)

`LocalBlobStore` keeps a blob in one file and remembers in `existsSet` which blobs
it has seen. Calls run concurrently. A step of a call is one critical section or
one file-system call, so every point at which another call can come in between is
a `Pc`. The surroundings choose the outcome of a file-system call (`Event`); all
changes to the blob directory are made by these calls.

A blob file is known by its hash: `BlobPath` is injective on valid hashes. The
content of the blob and the staging file are not part of the state; the calls that
write and clean up the staging file are steps.
-/

namespace GbfCore

/-- `validateHash`: 64 lower-case hex digits. -/
def validateHash (hash : Bytes) : Bool :=
  decide (hash.length = 64) &&
    hash.all fun c => decide (48 ≤ c ∧ c ≤ 57) || decide (97 ≤ c ∧ c ≤ 102)

/-- The subdirectory of `gb` a blob is in. -/
def blobDir (hash : Bytes) : Bytes := hash.take 2

/-- The directory and what the calls of one `LocalBlobStore` share. -/
structure LocalStore where
  /-- The hashes whose blob file exists. -/
  files : Finset Bytes
  /-- The subdirectories of `gb`. -/
  dirs : List Bytes
  existsSet : Finset Bytes
  dirCache : List Bytes
  /-- The hashes whose `putMu` is locked. -/
  putMu : Finset Bytes
deriving DecidableEq

/-- The exported calls that touch the exists cache. -/
inductive Op where
  /-- `Put` and `PutStream` -/
  | put (hash : Bytes)
  /-- `Exists` -/
  | query (hash : Bytes)
  | existsBatch (hashes : List Bytes)
  | warmExistsCache
  | delete (hash : Bytes)
deriving DecidableEq

/-- What a call returns. -/
inductive Answer where
  /-- a nil error -/
  | done
  /-- the answer of `Exists` -/
  | found (present : Bool)
  /-- the hashes `ExistsBatch` reports as present -/
  | batch (present : Finset Bytes)
  /-- `ErrInvalidHash` -/
  | invalidHash
  /-- any other error -/
  | failed
deriving DecidableEq

/-- The calls `putBlob` makes on its staging file before the rename. -/
inductive Staging where
  | create
  | write
  | sync
  | close
deriving DecidableEq

/-- Where a `putBlob` stands: the step it takes next. -/
inductive PutPc where
  | lock
  | lookup
  | stat
  | dirLookup
  | mkdir
  | dirRecord
  | stage (st : Staging)
  /-- `os.Remove(tmp)` after a failed staging step -/
  | cleanup
  | rename
  /-- `os.Remove(tmp)` after a failed rename -/
  | renameCleanup
  | restat
  | syncParent
  | record
  /-- the deferred unlock -/
  | unlock (a : Answer)
deriving DecidableEq

/-- Where an `Exists` stands. -/
inductive ExistsPc where
  | lookup
  | stat
  | record
deriving DecidableEq

/-- Where an `ExistsBatch` stands. -/
inductive BatchPc where
  | lookup (hashes : List Bytes)
  | stat (missing : List Bytes) (result found : Finset Bytes)
  | record (result found : Finset Bytes)
deriving DecidableEq

/-- Where a `WarmExistsCache` stands. -/
inductive WarmPc where
  | top
  | dir (dirs : List Bytes) (newEntries : Finset Bytes)
  | record (newEntries : Finset Bytes)
deriving DecidableEq

/-- Where a `Delete` stands. -/
inductive DeletePc where
  | remove
  | record
deriving DecidableEq

/-- Where a caller stands. -/
inductive Pc where
  /-- no call in flight; the last one returned this -/
  | returned (a : Answer)
  | put (hash : Bytes) (pc : PutPc)
  | query (hash : Bytes) (pc : ExistsPc)
  | existsBatch (pc : BatchPc)
  | warm (pc : WarmPc)
  | delete (hash : Bytes) (pc : DeletePc)
deriving DecidableEq

/-- What the surroundings decide for a step. -/
inductive Event where
  | call (op : Op)
  /-- a critical section, or a system call that succeeds -/
  | ok
  /-- a system call that fails, other than by not finding the file -/
  | fail
deriving DecidableEq

/-- The first step of a call; a malformed hash is refused before it. -/
def Op.start : Op → Pc
  | .put h => if validateHash h then .put h .lock else .returned .invalidHash
  | .query h => if validateHash h then .query h .lookup else .returned .invalidHash
  | .existsBatch hs => .existsBatch (.lookup hs)
  | .warmExistsCache => .warm .top
  | .delete h => if validateHash h then .delete h .remove else .returned .invalidHash

namespace LocalStore

variable (s : LocalStore)

/-- The step after a successful staging step. -/
def stageNext : Staging → PutPc
  | .create => .stage .write
  | .write => .stage .sync
  | .sync => .stage .close
  | .close => .rename

/-- A step of `putBlob`: the shared state after it and where the call then stands.
`none` if the step is not possible. -/
def putNext (h : Bytes) : PutPc → Event → Option (LocalStore × Pc)
  | .lock, .ok =>
    if h ∈ s.putMu then none else some ({ s with putMu := insert h s.putMu }, .put h .lookup)
  | .lookup, .ok => some (s, .put h (if h ∈ s.existsSet then .unlock .done else .stat))
  | .stat, .ok => some (s, .put h (if h ∈ s.files then .record else .dirLookup))
  -- any error of the first `os.Stat` is taken for absence
  | .stat, .fail => some (s, .put h .dirLookup)
  | .dirLookup, .ok =>
    some (s, .put h (if blobDir h ∈ s.dirCache then .stage .create else .mkdir))
  | .mkdir, .ok => some ({ s with dirs := s.dirs.insert (blobDir h) }, .put h .dirRecord)
  | .mkdir, .fail => some (s, .put h (.unlock .failed))
  | .dirRecord, .ok =>
    some ({ s with dirCache := s.dirCache.insert (blobDir h) }, .put h (.stage .create))
  | .stage st, .ok => some (s, .put h (stageNext st))
  | .stage st, .fail => some (s, .put h (if st = .create then .unlock .failed else .cleanup))
  | .cleanup, .ok => some (s, .put h (.unlock .failed))
  | .cleanup, .fail => some (s, .put h (.unlock .failed))
  | .rename, .ok => some ({ s with files := insert h s.files }, .put h .syncParent)
  | .rename, .fail => some (s, .put h .renameCleanup)
  | .renameCleanup, .ok => some (s, .put h .restat)
  | .renameCleanup, .fail => some (s, .put h .restat)
  | .restat, .ok => some (s, .put h (if h ∈ s.files then .record else .unlock .failed))
  | .restat, .fail => some (s, .put h (.unlock .failed))
  | .syncParent, .ok => some (s, .put h .record)
  | .syncParent, .fail => some (s, .put h (.unlock .failed))
  | .record, .ok =>
    some ({ s with existsSet := insert h s.existsSet }, .put h (.unlock .done))
  | .unlock a, .ok => some ({ s with putMu := s.putMu.erase h }, .returned a)
  | _, _ => none

/-- A step of `Exists`. -/
def existsNext (h : Bytes) : ExistsPc → Event → Option (LocalStore × Pc)
  | .lookup, .ok =>
    some (s, if h ∈ s.existsSet then .returned (.found true) else .query h .stat)
  | .stat, .ok =>
    some (s, if h ∈ s.files then .query h .record else .returned (.found false))
  | .stat, .fail => some (s, .returned .failed)
  | .record, .ok =>
    some ({ s with existsSet := insert h s.existsSet }, .returned (.found true))
  | _, _ => none

/-- `ExistsBatch` with these hashes still to look at. -/
def batchRest (missing : List Bytes) (result found : Finset Bytes) : Pc :=
  if missing ≠ [] then .existsBatch (.stat missing result found)
  else if found = ∅ then .returned (.batch result)
  else .existsBatch (.record result found)

/-- A step of `ExistsBatch`. -/
def batchNext : BatchPc → Event → Option (LocalStore × Pc)
  | .lookup hs, .ok =>
    if hs.all validateHash then
      some (s, batchRest (hs.filter (· ∉ s.existsSet)) (s.existsSet.filter (· ∈ hs)) ∅)
    else some (s, .returned .invalidHash)
  | .stat (h :: missing) result found, .ok =>
    some (s, if h ∈ s.files then batchRest missing (insert h result) (insert h found)
      else batchRest missing result found)
  -- the context is cancelled, or `os.Stat` fails
  | .stat _ _ _, .fail => some (s, .returned .failed)
  | .record result found, .ok =>
    some ({ s with existsSet := s.existsSet ∪ found }, .returned (.batch result))
  | _, _ => none

/-- `WarmExistsCache` with these subdirectories still to read. -/
def warmRest (dirs : List Bytes) (newEntries : Finset Bytes) : WarmPc :=
  if dirs ≠ [] then .dir dirs newEntries else .record newEntries

/-- A step of `WarmExistsCache`. A missing `gb` has no subdirectories. -/
def warmNext : WarmPc → Event → Option (LocalStore × Pc)
  | .top, .ok => some (s, .warm (warmRest s.dirs ∅))
  | .top, .fail => some (s, .returned .failed)
  | .dir (d :: dirs) newEntries, .ok =>
    let blobs := s.files.filter fun h => blobDir h = d ∧ validateHash h
    some (s, .warm (warmRest dirs (newEntries ∪ blobs)))
  | .dir (_ :: dirs) newEntries, .fail => some (s, .warm (warmRest dirs newEntries))
  | .record newEntries, .ok =>
    some ({ s with existsSet := s.existsSet ∪ newEntries }, .returned .done)
  | _, _ => none

/-- A step of `Delete`. A file that is not there counts as removed. -/
def deleteNext (h : Bytes) : DeletePc → Event → Option (LocalStore × Pc)
  | .remove, .ok => some ({ s with files := s.files.erase h }, .delete h .record)
  | .remove, .fail => some (s, .returned .failed)
  | .record, .ok => some ({ s with existsSet := s.existsSet.erase h }, .returned .done)
  | _, _ => none

/-- A step of a caller. -/
def next : Pc → Event → Option (LocalStore × Pc)
  | .returned _, .call op => some (s, op.start)
  | .returned _, _ => none
  | .put h pc, e => s.putNext h pc e
  | .query h pc, e => s.existsNext h pc e
  | .existsBatch pc, e => s.batchNext pc e
  | .warm pc, e => s.warmNext pc e
  | .delete h pc, e => s.deleteNext h pc e

end LocalStore

end GbfCore
