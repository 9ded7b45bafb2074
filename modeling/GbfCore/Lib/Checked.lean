import Mathlib

/-!
# Operations that can panic

Slicing, indexing, following a pointer and writing into a map stop a Go program if they go
wrong. A function that is written with these operations returns `Checked`: either it panics,
or it has a result, and an error value is a result like any other. That a function does not
panic is then an equation `Checked.f x = .ok (f x)` with a function that knows no panics.
-/

namespace GbfCore

open List

variable {s : List α}

/-- What stops a program. -/
inductive Panic where
  /-- slice bounds out of range -/
  | sliceBounds
  /-- index out of range -/
  | indexRange
  /-- invalid memory address or nil pointer dereference -/
  | nilPointer
  /-- assignment to entry in nil map -/
  | nilMap
  /-- makeslice: cap out of range -/
  | makeSize
deriving DecidableEq, Repr

/-- A computation that may panic. -/
abbrev Checked := Except Panic

namespace Checked

variable {α β : Type}

/-- `s[i:j]` -/
def slice (s : List α) (i j : Nat) : Checked (List α) :=
  if i ≤ j ∧ j ≤ s.length then .ok ((s.take j).drop i) else .error .sliceBounds

/-- `s[i:]` -/
def sliceFrom (s : List α) (i : Nat) : Checked (List α) := slice s i s.length

/-- `s[:j]` -/
def sliceTo (s : List α) (j : Nat) : Checked (List α) := slice s 0 j

/-- `s[i]` -/
def index (s : List α) (i : Nat) : Checked α :=
  match s[i]? with
  | some a => .ok a
  | none => .error .indexRange

/-- `*p` -/
def deref : Option α → Checked α
  | some a => .ok a
  | none => .error .nilPointer

/-- `make([]T, 0, n)` -/
def makeSlice (n : Int) : Checked Unit :=
  if n < 0 then .error .makeSize else .ok ()

theorem slice_ok {i j : Nat} (hij : i ≤ j) (hj : j ≤ s.length) :
    slice s i j = .ok ((s.take j).drop i) :=
  if_pos ⟨hij, hj⟩

theorem sliceFrom_ok {i : Nat} (h : i ≤ s.length) : sliceFrom s i = .ok (s.drop i) := by
  rw [sliceFrom, slice_ok h (Nat.le_refl _), take_length]

theorem sliceTo_ok {j : Nat} (h : j ≤ s.length) : sliceTo s j = .ok (s.take j) :=
  slice_ok (Nat.zero_le j) h

theorem index_ok {i : Nat} (h : i < s.length) : index s i = .ok s[i] := by
  rw [index, getElem?_eq_getElem h]

/-- What comes after a computation that does not panic. -/
theorem ok_bind {x : Checked α} {a : α} (h : x = .ok a) (f : α → Checked β) :
    (x >>= f) = f a := by
  rw [h]
  rfl

/-- A loop whose body does not panic in the states it meets. -/
theorem foldlM_ok {σ : Type} (Inv : σ → Prop) {f : σ → α → Checked σ} {g : σ → α → σ}
    (hf : ∀ s a, Inv s → f s a = .ok (g s a)) (hg : ∀ s a, Inv s → Inv (g s a)) :
    ∀ (l : List α) (s : σ), Inv s → l.foldlM f s = .ok (l.foldl g s) ∧ Inv (l.foldl g s)
  | [], s, hs => ⟨rfl, hs⟩
  | a :: l, s, hs => by
    rw [foldlM_cons, ok_bind (hf s a hs), foldl_cons]
    exact foldlM_ok Inv hf hg l (g s a) (hg s a hs)

/-- A loop whose body does not panic on the elements it is given. -/
theorem foldlM_ok_of_mem {σ : Type} {f : σ → α → Checked σ} {g : σ → α → σ} {l : List α}
    (hf : ∀ a ∈ l, ∀ s, f s a = .ok (g s a)) (s : σ) : l.foldlM f s = .ok (l.foldl g s) := by
  induction l generalizing s with
  | nil => rfl
  | cons a l ih =>
    obtain ⟨ha, hl⟩ := forall_mem_cons.mp hf
    rw [foldlM_cons, ok_bind (ha s), foldl_cons]
    exact ih hl (g s a)

end Checked

end GbfCore
