import Mathlib

/-!
# The values of a partial function

What a directory holds is a partial function from names to contents, what it holds of each
content is a multiset: `values`. Adding a name adds its content, and taking a name away takes
its content away.
-/

namespace GbfCore

open Function

variable {α β : Type} {f : α → Option β}

/-- The values of a partial function with finitely many of them, with multiplicities. -/
noncomputable def values (f : α → Option β) : Multiset β := ∑ᶠ a, (f a).elim 0 fun b => {b}

theorem values_none : values (fun _ : α => (none : Option β)) = 0 := finsum_zero

variable [DecidableEq α]

/-- A name is added. -/
theorem values_add (hfinite : {a | f a ≠ none}.Finite) {a : α} (ha : f a = none) (b : β) :
    values (update f a (some b)) = {b} + values f := by
  have hsupport : (Function.support fun c => (f c).elim (0 : Multiset β) fun b => {b}).Finite := by
    refine hfinite.subset fun c hc hnone => hc ?_
    simp only [hnone, Option.elim_none]
  have hsplit : (fun c => (update f a (some b) c).elim (0 : Multiset β) fun b => {b}) =
      fun c => (Pi.single a {b} : α → Multiset β) c + (f c).elim 0 fun b => {b} := by
    funext c
    by_cases hc : c = a
    · subst hc
      rw [update_self, Pi.single_eq_same, ha]
      rfl
    · rw [update_of_ne hc, Pi.single_eq_of_ne hc, zero_add]
  have hsingle : (Function.support (Pi.single a {b} : α → Multiset β)).Finite :=
    (Set.finite_singleton a).subset Pi.support_single_subset
  unfold values
  rw [hsplit, finsum_add_distrib hsingle hsupport]
  refine congrArg (· + _) ((finsum_eq_single _ a fun c hc => Pi.single_eq_of_ne hc _).trans ?_)
  exact Pi.single_eq_same _ _

/-- A name is taken away. -/
theorem values_erase (hfinite : {a | f a ≠ none}.Finite) {a : α} {b : β} (ha : f a = some b) :
    {b} + values (update f a none) = values f := by
  have hfinite' : {c | update f a none c ≠ none}.Finite := by
    refine hfinite.subset fun c hc hnone => hc ?_
    by_cases hca : c = a
    · rw [hca, update_self]
    · rw [update_of_ne hca, hnone]
  rw [← values_add hfinite' (update_self a none f), update_idem, ← ha,
    update_eq_self]

end GbfCore
