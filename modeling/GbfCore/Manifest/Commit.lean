import GbfCore.Lib.FileSystem
import GbfCore.Lib.Threads
import GbfCore.Manifest.Envelope
import GbfCore.Manifest.Names

/-!
# Committing a manifest (manifest.go, fileio.go, commit_noreplace_other.go)

Any number of saves, in any number of processes, write into one directory. A save
writes its envelope to a staging file of its own, links that file under the primary
name, or, if the name is taken, under one with a random suffix, and removes the
staging name. Its steps are the file-system calls; between any two of them any
other save can take steps, and at any of them the save may crash.

The mutex that serialises the saves of one process only removes interleavings and
is left out. A save that is refused before its first file-system call does nothing.
-/

namespace GbfCore

open Threads

/-- What a save has worked out before it touches the file system. -/
structure SaveJob where
  /-- The primary path without its suffix. -/
  stem : Bytes
  /-- The compressed and possibly encrypted manifest. -/
  payload : Bytes
  /-- The text of the staging UUID. -/
  uuid : Bytes
deriving DecidableEq

namespace SaveJob

variable (job : SaveJob)

/-- The primary path. -/
def path : Bytes := job.stem ++ jsonZst

/-- The staging file. -/
def staging : Bytes := job.path ++ ascii "." ++ job.uuid ++ ascii ".tmp"

/-- The name an attempt tries: the primary one first, then one with three random
bytes. -/
def candidate (attempt : Nat) (random : Bytes) : Bytes :=
  if attempt = 0 then job.path else job.stem ++ ascii "_" ++ hexEncode random ++ jsonZst

end SaveJob

/-- Where a save stands: the file-system call it makes next. The inode of its
staging file and the name it is linked under are kept as soon as there are such. -/
inductive SavePc where
  | mkdir
  | create
  /-- `n` bytes are written -/
  | write (x n : Nat)
  | sync (x : Nat)
  | close (x : Nat)
  | link (x attempt : Nat)
  | unlink (x : Nat) (target : Bytes)
  | syncParent (x : Nat) (target : Bytes)
  /-- `os.Remove(staging)` on the way to an error -/
  | cleanup (x : Nat) (target : Option Bytes)
  /-- the path was returned -/
  | returned (x : Nat) (target : Bytes)
  /-- an error was returned -/
  | failed (x : Option Nat) (target : Option Bytes)
  | crashed (x : Option Nat) (target : Option Bytes)
deriving DecidableEq

/-- The inode of the staging file. -/
def SavePc.inode : SavePc → Option Nat
  | .mkdir => none
  | .create => none
  | .write x _ => some x
  | .sync x => some x
  | .close x => some x
  | .link x _ => some x
  | .unlink x _ => some x
  | .syncParent x _ => some x
  | .cleanup x _ => some x
  | .returned x _ => some x
  | .failed x _ => x
  | .crashed x _ => x

/-- The name the manifest is committed under. -/
def SavePc.target : SavePc → Option Bytes
  | .unlink _ f => some f
  | .syncParent _ f => some f
  | .cleanup _ f => f
  | .returned _ f => some f
  | .failed _ f => f
  | .crashed _ f => f
  | _ => none

/-- A save. -/
structure Save where
  job : SaveJob
  pc : SavePc
deriving DecidableEq

/-- What the surroundings decide for a step of a save. -/
inductive SaveEvent where
  /-- the call succeeds -/
  | ok
  /-- the call fails, other than by an existing link target -/
  | fail
  /-- a write takes that many more bytes -/
  | wrote (k : Nat)
  /-- the link is tried, with these bytes if a suffix is needed -/
  | link (random : Bytes)
  | crash
deriving DecidableEq

/-- The save has ended. -/
def SavePc.ended : SavePc → Bool
  | .returned _ _ => true
  | .failed _ _ => true
  | .crashed _ _ => true
  | _ => false

section
variable (P : Primitives)

/-- The bytes a save commits. -/
def SaveJob.envelope (job : SaveJob) : Bytes := gbrEnvelope P job.payload

/-- A step of `SaveManifestWithKey` from its first file-system call on. -/
def SaveJob.next (job : SaveJob) (fs : FileSystem) :
    SavePc → SaveEvent → Option (FileSystem × SavePc)
  | .mkdir, .ok => some (fs, .create)
  | .mkdir, .fail => some (fs, .failed none none)
  -- WriteStagingFile
  | .create, .ok => some (fs.create job.staging, .write (fs.opened job.staging) 0)
  | .create, .fail => some (fs, .failed none none)
  | .write x n, .wrote k =>
    let written := (job.envelope P).take (n + k)
    some (fs.write x written,
      if written.length = (job.envelope P).length then .sync x else .write x (n + k))
  | .write x _, .fail => some (fs, .cleanup x none)
  | .sync x, .ok => some (fs, .close x)
  | .sync x, .fail => some (fs, .cleanup x none)
  | .close x, .ok => some (fs, .link x 0)
  | .close x, .fail => some (fs, .cleanup x none)
  -- CommitFileNoReplace and the loop around it
  | .link x attempt, .link random =>
    if 8 ≤ attempt then some (fs, .cleanup x none)
    else
      match fs.tryLink job.staging (job.candidate attempt random) with
      | .done fs' => some (fs', .unlink x (job.candidate attempt random))
      | .targetExists => some (fs, .link x (attempt + 1))
      | .noSource => some (fs, .cleanup x none)
  | .link x _, .fail => some (fs, .cleanup x none)
  | .unlink x f, .ok => some (fs.unlink job.staging, .syncParent x f)
  | .unlink x f, .fail => some (fs, .cleanup x (some f))
  | .syncParent x f, .ok => some (fs, .returned x f)
  | .syncParent x f, .fail => some (fs, .cleanup x (some f))
  | .cleanup x f, .ok => some (fs.unlink job.staging, .failed (some x) f)
  | .cleanup x f, .fail => some (fs, .failed (some x) f)
  | pc, .crash => if pc.ended then none else some (fs, .crashed pc.inode pc.target)
  | _, _ => none

/-- A step of a save. -/
def Save.next (fs : FileSystem) (t : Save) (e : SaveEvent) : Option (FileSystem × Save) :=
  (t.job.next P fs t.pc e).map fun r => (r.1, ⟨t.job, r.2⟩)

end

end GbfCore
