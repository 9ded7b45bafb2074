import GbfCore.Lib.Bytes

/-!
# POSIX file names

The functions of `path/filepath` and `strings` that the engine applies to names,
on the bytes of a name. The separator is a slash.
-/

namespace GbfCore

/-- The path separator. -/
def slash : UInt8 := 0x2f

/-- A full stop. -/
def dot : UInt8 := 0x2e

/-- `filepath.Ext`: the last element from its last full stop on, or nothing. -/
def pathExt (path : Bytes) : Bytes :=
  let last := (path.reverse.takeWhile (· != slash)).reverse
  let tail := (last.reverse.takeWhile (· != dot)).reverse
  if tail.length < last.length then dot :: tail else []

/-- `filepath.Base`: the last element, without trailing slashes. -/
def pathBase (path : Bytes) : Bytes :=
  if path = [] then [dot]
  else
    let base := ((path.reverse.dropWhile (· == slash)).takeWhile (· != slash)).reverse
    if base = [] then [slash] else base

/-- `strings.Split(path, "/")` -/
def splitSlash (path : Bytes) : List Bytes := path.splitOn slash

/-- `strings.Join(parts, "/")` -/
def joinSlash (parts : List Bytes) : Bytes := [slash].intercalate parts

/-- `.` or `..` -/
def isDotName (name : Bytes) : Bool := decide (name = [dot]) || decide (name = [dot, dot])

theorem isDotName_iff {name : Bytes} :
    isDotName name = true ↔ name = [dot] ∨ name = [dot, dot] := by
  rw [isDotName, Bool.or_eq_true, decide_eq_true_eq, decide_eq_true_eq]

/-- The elements of a path that `filepath.Clean` keeps; `kept` are those so far, the
last one first. -/
def cleanSegs (rooted : Bool) : List Bytes → (kept : List Bytes) → List Bytes
  | [], kept => kept.reverse
  | seg :: rest, kept =>
    if seg = [] ∨ seg = [dot] then cleanSegs rooted rest kept
    else if seg = [dot, dot] then
      match kept with
      | [] => cleanSegs rooted rest (if rooted then [] else [seg])
      | top :: below =>
        -- a leading `..` stays
        if top = [dot, dot] then cleanSegs rooted rest (seg :: kept)
        else cleanSegs rooted rest below
    else cleanSegs rooted rest (seg :: kept)

/-- `filepath.Clean`. -/
def pathClean (path : Bytes) : Bytes :=
  let rooted := decide (path.head? = some slash)
  let segs := cleanSegs rooted (splitSlash path) []
  if rooted then slash :: joinSlash segs else if segs = [] then [dot] else joinSlash segs

/-- `filepath.Join`. -/
def pathJoin (elems : List Bytes) : Bytes :=
  match elems.dropWhile (· == []) with
  | [] => []
  | elems => pathClean (joinSlash elems)

/-- `filepath.Dir`: everything up to the last slash, cleaned. -/
def pathDir (path : Bytes) : Bytes := pathClean (path.reverse.dropWhile (· != slash)).reverse

/-- `strings.ToLower` as far as ASCII goes: besides the capital letters, U+0130
becomes an i and U+212A a k. Every other letter outside ASCII stays outside it,
and stands for itself. -/
def toLower : Bytes → Bytes
  | 0xc4 :: 0xb0 :: rest => 0x69 :: toLower rest
  | 0xe2 :: 0x84 :: 0xaa :: rest => 0x6b :: toLower rest
  | b :: rest => (if 0x41 ≤ b ∧ b ≤ 0x5a then b + 0x20 else b) :: toLower rest
  | [] => []

example : pathExt (ascii "a.b/photo.tar.JPG") = ascii ".JPG" := by decide

example : pathExt (ascii "a.b/photo") = [] := by decide

example : pathJoin [ascii "/r/", [], ascii "../x/./y//z"] = ascii "/x/y/z" := by decide

end GbfCore
