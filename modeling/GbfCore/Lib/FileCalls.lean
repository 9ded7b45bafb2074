import GbfCore.Lib.Calls
import GbfCore.Lib.CleanPath
import GbfCore.Lib.FileSystem

/-!
# File-system calls

The calls a Go program makes to the file system, each with the paths it is given and
the answers it can get (`FsCall`). `FsCall.Outcome` says what the calls do to a
`FileSystem` if any of them can fail at any time; only reading is predictable: it
fails where the file cannot be read at the moment, and succeeds elsewhere. With
`FsCall.Faulty` a read can fail at any time, too.
-/

namespace GbfCore

variable {fs fs' : FileSystem}

/-- The errors a program tells apart. -/
inductive FsError where
  | notExist
  | exist
  | crossDevice
  | other
deriving DecidableEq, Repr

/-- An entry of a directory. Its name is one element of a path. -/
structure DirEntry where
  name : Bytes
  isDir : Bool
  pathName : PathName name
  slash : slash ∉ name

/-- The calls. -/
inductive FsCall where
  | readDir (path : Bytes)
  | readFile (path : Bytes)
  /-- `os.Stat` and `DirEntry.Info`, for the time of the last change -/
  | stat (path : Bytes)
  | mkdirAll (path : Bytes)
  /-- open with `O_CREATE | O_TRUNC` -/
  | create (path : Bytes)
  /-- write to the file opened there -/
  | write (path data : Bytes)
  | sync (path : Bytes)
  | close (path : Bytes)
  /-- open for reading -/
  | openFile (path : Bytes)
  /-- `io.Copy` between two open files -/
  | copy (source target : Bytes)
  | rename (source target : Bytes)
  | link (source target : Bytes)
  | remove (path : Bytes)

namespace FsCall

/-- What a call answers. -/
abbrev Answer : FsCall → Type
  | readDir _ => Except FsError (List DirEntry)
  | readFile _ => Except FsError Bytes
  | stat _ => Except FsError Int
  | _ => Except FsError Unit

/-- The paths a call is given. -/
def paths : FsCall → List Bytes
  | readDir path => [path]
  | readFile path => [path]
  | stat path => [path]
  | mkdirAll path => [path]
  | create path => [path]
  | write path _ => [path]
  | sync path => [path]
  | close path => [path]
  | openFile path => [path]
  | copy source target => [source, target]
  | rename source target => [source, target]
  | link source target => [source, target]
  | remove path => [path]

/-- What a call can answer and leave behind. Directories are not part of the state. -/
def Outcome (unreadable : Bytes → Prop) (fs : FileSystem) :
    (c : FsCall) → c.Answer → FileSystem → Prop
  | readFile path, r, fs' =>
    fs' = fs ∧
      (unreadable path ∧ r = .error .other ∨
        ¬ unreadable path ∧
          match fs.read path with
          | some data => r = .ok data
          | none => r = .error .notExist)
  | create path, r, fs' =>
    match r with
    | .ok () => fs' = fs.create path
    | .error _ => fs' = fs
  | write path data, r, fs' =>
    ∃ x, fs.inode path = some x ∧
      match r with
      | .ok () => fs' = fs.write x data
      | .error _ => ∃ n, fs' = fs.write x (data.take n)
  | copy source target, r, fs' =>
    ∃ data x, fs.read source = some data ∧ fs.inode target = some x ∧
      match r with
      | .ok () => fs' = fs.write x data
      | .error _ => ∃ n, fs' = fs.write x (data.take n)
  | rename source target, r, fs' =>
    match r with
    | .ok () => ∃ x, ∃ h : fs.inode source = some x,
        fs' = fs.rename x (fs.inode_lt h) source target
    | .error _ => fs' = fs
  | link source target, r, fs' =>
    match r with
    | .ok () => fs.tryLink source target = .done fs'
    | .error _ => fs' = fs
  | remove path, r, fs' =>
    match r with
    | .ok () => fs' = fs.unlink path
    | .error _ => fs' = fs
  | readDir _, _, fs' => fs' = fs
  | stat _, _, fs' => fs' = fs
  | mkdirAll _, _, fs' => fs' = fs
  | sync _, _, fs' => fs' = fs
  | close _, _, fs' => fs' = fs
  | openFile _, _, fs' => fs' = fs

/-- What a call can answer and leave behind where which files can be read changes, too. -/
def Faulty (fs : FileSystem) (c : FsCall) (r : c.Answer) (fs' : FileSystem) : Prop :=
  ∃ unreadable, c.Outcome unreadable fs r fs'

/-- A call that reads a file. -/
def ReadsFile : FsCall → Prop
  | readFile _ => True
  | _ => False

/-- The two differ in what is read. -/
theorem Faulty.outcome {c : FsCall} {r : c.Answer} (hc : ¬ c.ReadsFile)
    (h : Faulty fs c r fs') (unreadable : Bytes → Prop) : c.Outcome unreadable fs r fs' := by
  obtain ⟨_, hout⟩ := h
  cases c with
  | readFile path => exact absurd trivial hc
  | _ => exact hout

/-- A read gives what there is or an error, and changes nothing. -/
theorem Faulty.readFile {path : Bytes} {r : Except FsError Bytes}
    (h : Faulty fs (.readFile path) r fs') :
    fs' = fs ∧ ∀ data, r = .ok data → fs.read path = some data := by
  obtain ⟨unreadable, rfl, ⟨-, rfl⟩ | ⟨-, hr⟩⟩ := h
  · exact ⟨rfl, nofun⟩
  · cases hread : fs'.read path with
    | none =>
      rw [hread] at hr
      subst hr
      exact ⟨rfl, nofun⟩
    | some data =>
      rw [hread] at hr
      subst hr
      exact ⟨rfl, fun _ hdata => congrArg some (Except.ok.inj hdata)⟩

end FsCall

/-- A program over the file system. -/
abbrev FsProg := Prog FsCall FsCall.Answer

namespace Fs

open Prog

abbrev readDir (path : Bytes) : FsProg (Except FsError (List DirEntry)) := ask (FsCall.readDir path)
abbrev readFile (path : Bytes) : FsProg (Except FsError Bytes) := ask (FsCall.readFile path)
abbrev stat (path : Bytes) : FsProg (Except FsError Int) := ask (FsCall.stat path)
abbrev mkdirAll (path : Bytes) : FsProg (Except FsError Unit) := ask (FsCall.mkdirAll path)
abbrev create (path : Bytes) : FsProg (Except FsError Unit) := ask (FsCall.create path)
abbrev write (path data : Bytes) : FsProg (Except FsError Unit) := ask (FsCall.write path data)
abbrev sync (path : Bytes) : FsProg (Except FsError Unit) := ask (FsCall.sync path)
abbrev close (path : Bytes) : FsProg (Except FsError Unit) := ask (FsCall.close path)
abbrev openFile (path : Bytes) : FsProg (Except FsError Unit) := ask (FsCall.openFile path)
abbrev copy (source target : Bytes) : FsProg (Except FsError Unit) :=
  ask (FsCall.copy source target)
abbrev rename (source target : Bytes) : FsProg (Except FsError Unit) :=
  ask (FsCall.rename source target)
abbrev link (source target : Bytes) : FsProg (Except FsError Unit) :=
  ask (FsCall.link source target)
abbrev remove (path : Bytes) : FsProg (Except FsError Unit) := ask (FsCall.remove path)

/-- A run where which files can be read does not change. -/
theorem logged_faulty {α : Type} {p : FsProg α} {unreadable : Bytes → Prop}
    {log : List (Sigma FsCall.Answer)} {a : α}
    (h : p.Record (FsCall.Outcome unreadable) fs log a fs') :
    Logged FsCall.Faulty p fs log (pure a) fs' :=
  logged_map id (fun hout => ⟨unreadable, hout⟩) (logged_of_record h)

/-- What comes after the read of a file that can be read. -/
theorem runs_readFile {β : Type} {path data : Bytes}
    {f : Except FsError Bytes → FsProg β} {R : β → FileSystem → Prop}
    (hread : fs.read path = some data)
    (h : (f (.ok data)).Runs (FsCall.Outcome fun _ => False) fs R) :
    (readFile path >>= f).Runs (FsCall.Outcome fun _ => False) fs R := by
  have hout : ∀ r fs', (FsCall.readFile path).Outcome (fun _ => False) fs r fs' ↔
      fs' = fs ∧ r = .ok data := by
    intro r fs'
    simp only [FsCall.Outcome, hread, not_false_eq_true, false_and, true_and, false_or]
  refine runs_ask ⟨.ok data, fs, (hout _ _).mpr ⟨rfl, rfl⟩⟩ ?_
  intro r fs' hr
  obtain ⟨rfl, rfl⟩ := (hout r fs').mp hr
  exact h

end Fs

end GbfCore
