import GbfCore.Lib.Bytes

/-!
# The entries of a manifest (manifest.go)

Strings are byte strings, as in the source: a file name is whatever bytes the
file system returned. Sizes are signed 64-bit numbers there; no arithmetic that
could overflow is done on them here, and they are integers.
-/

namespace GbfCore

/-- `ChunkRef`. -/
structure ChunkRef where
  hash : Bytes
  size : Int
deriving DecidableEq, Repr

/-- `FileEntry`. The modification time is a `FlexTime`, which is a string. -/
structure FileEntry where
  name : Bytes
  contentHash : Bytes
  size : Int
  mtime : Bytes
  mode : Nat
  status : Bytes
  chunks : List ChunkRef
deriving DecidableEq, Repr

/-- The blobs a restore of the entry fetches: its chunks, or the one blob of its
content. -/
def FileEntry.blobRefs (f : FileEntry) : List Bytes :=
  if f.chunks = [] then [f.contentHash] else f.chunks.map ChunkRef.hash

theorem FileEntry.blobRefs_single {f : FileEntry} (h : f.chunks = []) :
    f.blobRefs = [f.contentHash] :=
  if_pos h

theorem FileEntry.blobRefs_chunked {f : FileEntry} (h : f.chunks ≠ []) :
    f.blobRefs = f.chunks.map ChunkRef.hash :=
  if_neg h

theorem FileEntry.blobRefs_ne_nil (f : FileEntry) : f.blobRefs ≠ [] := by
  by_cases h : f.chunks = []
  · rw [blobRefs_single h]
    exact List.cons_ne_nil _ _
  · rw [blobRefs_chunked h]
    exact fun hnil => h (List.map_eq_nil_iff.mp hnil)

/-! ## File status values (manifest_validate.go) -/

def fileStatusNew : Bytes := ascii "new"
def fileStatusChanged : Bytes := ascii "changed"
def fileStatusUnchanged : Bytes := ascii "unchanged"
def fileStatusLocked : Bytes := ascii "locked"
def fileStatusError : Bytes := ascii "error"

/-- `FileEntry.IsRestorable`. -/
def FileEntry.isRestorable (f : FileEntry) : Bool :=
  if f.status = fileStatusLocked ∨ f.status = fileStatusError then false
  else decide (f.contentHash ≠ [])

end GbfCore
