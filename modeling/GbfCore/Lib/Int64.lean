import Mathlib

/-!
# Sixty-four bit integers

An `int64` is an integer in a range; its arithmetic is that of the integers, brought back
into the range by `wrap64`.
-/

namespace GbfCore

open Int

variable {α : Type}

/-- An `int64`. -/
structure IsInt64 (i : Int) : Prop where
  lower : -2 ^ 63 ≤ i
  upper : i < 2 ^ 63

instance (i : Int) : Decidable (IsInt64 i) :=
  decidable_of_iff (-2 ^ 63 ≤ i ∧ i < 2 ^ 63) ⟨fun ⟨a, b⟩ => ⟨a, b⟩, fun ⟨a, b⟩ => ⟨a, b⟩⟩

/-- The value of a sum of `int64` numbers. -/
def wrap64 (i : Int) : Int := i.bmod (2 ^ 64)

theorem isInt64_wrap64 (i : Int) : IsInt64 (wrap64 i) := by
  have hlow := le_bmod (x := i) (m := 2 ^ 64) (by decide)
  have hhigh := bmod_lt (x := i) (m := 2 ^ 64) (by decide)
  unfold wrap64
  constructor <;> omega

theorem wrap64_of_lt {i : Int} (h : 0 ≤ i) (hlt : i < 2 ^ 63) : wrap64 i = i := by
  rw [wrap64, bmod_eq_of_le] <;> omega

theorem wrap64_eq_self_iff {i : Int} (h : 0 ≤ i) : wrap64 i = i ↔ i < 2 ^ 63 := by
  constructor
  · intro heq
    rw [← heq]
    exact (isInt64_wrap64 i).upper
  · exact wrap64_of_lt h

/-- One turn too far. -/
theorem wrap64_of_ge {i : Int} (h : 2 ^ 63 ≤ i) (hlt : i < 2 ^ 63 + 2 ^ 64) :
    wrap64 i = i - 2 ^ 64 := by
  have hturn : i = i - 2 ^ 64 + (2 ^ 64 : Nat) := by omega
  rw [wrap64, hturn, add_bmod_right, bmod_eq_of_le] <;> omega

/-! ## Sums -/

theorem sum_map_nonneg {size : α → Int} {l : List α} (h : ∀ x ∈ l, 0 ≤ size x) :
    0 ≤ (l.map size).sum := by
  induction l with
  | nil => exact le_refl 0
  | cons x l ih =>
    obtain ⟨hx, hl⟩ := List.forall_mem_cons.mp h
    rw [List.map_cons, List.sum_cons]
    exact add_nonneg hx (ih hl)

/-- A sum that wraps around at every step wraps around as a whole. -/
theorem foldl_wrap64 (size : α → Int) (l : List α) : ∀ s : Int,
    wrap64 (l.foldl (fun s x => wrap64 (s + size x)) s) = wrap64 (s + (l.map size).sum) := by
  induction l with
  | nil => intro s; simp
  | cons x l ih =>
    intro s
    rw [List.foldl_cons, ih, List.map_cons, List.sum_cons, wrap64, wrap64, wrap64,
      bmod_add_bmod, add_assoc]

theorem foldl_wrap64_self (size : α → Int) (l : List α) : ∀ {s : Int}, wrap64 s = s →
    wrap64 (l.foldl (fun s x => wrap64 (s + size x)) s) =
      l.foldl (fun s x => wrap64 (s + size x)) s := by
  induction l with
  | nil => exact fun h => h
  | cons x l ih => exact fun _ => ih bmod_bmod

theorem foldl_wrap64_eq (size : α → Int) (l : List α) :
    l.foldl (fun s x => wrap64 (s + size x)) 0 = wrap64 (l.map size).sum := by
  rw [← foldl_wrap64_self size l (by rfl), foldl_wrap64, zero_add]

end GbfCore
