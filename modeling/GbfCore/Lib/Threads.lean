import Mathlib

/-!
# Threads over a shared state

A system of any number of threads: each has a local state, all share one, and a
thread step is a partial function of the shared state, its local state and an
event that the surroundings choose (a call, the outcome of a system call). Every
interleaving of such steps is a run. A run may be held to a condition on its steps,
which sees the whole configuration the step is taken in.

* `Reach.invariant`: what holds at the start and is kept by each step holds in
  every configuration of every run;
* `run_reach_allowed`: replaying a list of steps gives a run;
* `TotalOver.update`: a total over the threads changes by what the one that moved contributes.
-/

namespace GbfCore.Threads

open Function Option Finset

variable {σ τ ε : Type}

/-- The shared state and the local state of each thread. -/
structure Config (σ τ : Type) where
  shared : σ
  thread : Nat → τ

/-- One step of a thread. -/
def step (next : σ → τ → ε → Option (σ × τ)) (c : Config σ τ) (i : Nat) (e : ε) :
    Option (Config σ τ) :=
  (next c.shared (c.thread i) e).map fun r => ⟨r.1, update c.thread i r.2⟩

/-- A step of the system is a step of one thread; the other threads stand still. -/
theorem step_eq_some {next : σ → τ → ε → Option (σ × τ)} {c c' : Config σ τ} {i : Nat} {e : ε} :
    step next c i e = some c' ↔
      ∃ s' t', next c.shared (c.thread i) e = some (s', t') ∧
        c' = ⟨s', update c.thread i t'⟩ := by
  unfold step
  rw [map_eq_some_iff]
  constructor
  · rintro ⟨⟨s', t'⟩, hnext, rfl⟩
    exact ⟨s', t', hnext, rfl⟩
  · rintro ⟨s', t', hnext, rfl⟩
    exact ⟨(s', t'), hnext, rfl⟩

/-- The configurations of the runs whose steps meet the condition. -/
inductive Reach (next : σ → τ → ε → Option (σ × τ)) (allowed : Config σ τ → Nat → ε → Prop)
    (init : Config σ τ → Prop) : Config σ τ → Prop
  | start {c : Config σ τ} (hinit : init c) : Reach next allowed init c
  | next {c c' : Config σ τ} {i : Nat} {e : ε} (hreach : Reach next allowed init c)
      (hallowed : allowed c i e) (hstep : step next c i e = some c') : Reach next allowed init c'

section
variable {next : σ → τ → ε → Option (σ × τ)} {allowed : Config σ τ → Nat → ε → Prop}
  {init : Config σ τ → Prop} {c c' : Config σ τ} {steps : List (Nat × ε)}

/-- **The invariant rule.** -/
theorem Reach.invariant (Inv : Config σ τ → Prop) (hinit : ∀ c, init c → Inv c)
    (hstep : ∀ {c i e s' t'}, Inv c → allowed c i e →
      next c.shared (c.thread i) e = some (s', t') →
      Inv ⟨s', update c.thread i t'⟩)
    (h : Reach next allowed init c) : Inv c := by
  induction h with
  | start h => exact hinit _ h
  | next _ hallowed hst ih =>
    obtain ⟨s', t', hnext, rfl⟩ := step_eq_some.mp hst
    exact hstep ih hallowed hnext

/-- Replay a list of steps. -/
def run (next : σ → τ → ε → Option (σ × τ)) : Config σ τ → List (Nat × ε) → Option (Config σ τ)
  | c, [] => some c
  | c, (i, e) :: rest => (step next c i e).bind fun c' => run next c' rest

theorem run_reach_allowed (hreach : Reach next allowed init c)
    (hallowed : ∀ p ∈ steps, ∀ c, allowed c p.1 p.2) (hrun : run next c steps = some c') :
    Reach next allowed init c' := by
  induction steps generalizing c with
  | nil =>
    cases hrun
    exact hreach
  | cons head rest ih =>
    obtain ⟨i, e⟩ := head
    obtain ⟨hhead, hrest⟩ := List.forall_mem_cons.mp hallowed
    obtain ⟨c₁, hstep, hrun⟩ := bind_eq_some_iff.mp hrun
    exact ih (hreach.next (hhead c) hstep) hrest hrun

/-- A thread that takes no step stands still. -/
theorem thread_run {i : Nat} (h : ∀ p ∈ steps, p.1 ≠ i) (hrun : run next c steps = some c') :
    c'.thread i = c.thread i := by
  induction steps generalizing c with
  | nil =>
    cases hrun
    rfl
  | cons head rest ih =>
    obtain ⟨hhead, hrest⟩ := List.forall_mem_cons.mp h
    obtain ⟨c₁, hstep, hrun⟩ := bind_eq_some_iff.mp hrun
    obtain ⟨s', t', -, rfl⟩ := step_eq_some.mp hstep
    exact (ih hrest hrun).trans (update_of_ne hhead.symm ..)

theorem run_reach (hreach : Reach next (fun _ _ _ => True) init c)
    (hrun : run next c steps = some c') :
    Reach next (fun _ _ _ => True) init c' :=
  run_reach_allowed hreach (fun _ _ _ => trivial) hrun

end

/-! ## TotalOver -/

/-- The total of what the threads contribute; all but finitely many contribute nothing. -/
def TotalOver (f : τ → Int) (thread : Nat → τ) (x : Int) : Prop :=
  ∃ s : Finset Nat, (∀ i ∉ s, f (thread i) = 0) ∧ ∑ i ∈ s, f (thread i) = x

section
variable {f : τ → Int} {thread : Nat → τ} {x : Int}

theorem totalOver_zero (h : ∀ i, f (thread i) = 0) : TotalOver f thread 0 :=
  ⟨∅, fun i _ => h i, rfl⟩

theorem TotalOver.nonneg (h : TotalOver f thread x) (hf : ∀ i, 0 ≤ f (thread i)) : 0 ≤ x := by
  obtain ⟨s, -, rfl⟩ := h
  exact sum_nonneg fun i _ => hf i

/-- Where no thread contributes anything. -/
theorem TotalOver.eq_zero (h : TotalOver f thread x) (hf : ∀ i, f (thread i) = 0) : x = 0 := by
  obtain ⟨s, -, rfl⟩ := h
  exact sum_eq_zero fun i _ => hf i

theorem TotalOver.update (h : TotalOver f thread x) (i : Nat) (t : τ) :
    TotalOver f (update thread i t) (x + f t - f (thread i)) := by
  obtain ⟨s, hrest, rfl⟩ := h
  refine ⟨insert i s, fun j hj => ?_, ?_⟩
  · obtain ⟨hji, hjs⟩ := not_or.mp fun hor => hj (mem_insert.mpr hor)
    rw [update_of_ne hji]
    exact hrest j hjs
  · -- both sums range over the same threads but `i`
    have hall : ∑ j ∈ insert i s, f (thread j) = ∑ j ∈ s, f (thread j) := by
      by_cases hi : i ∈ s
      · rw [insert_eq_of_mem hi]
      · rw [sum_insert hi, hrest i hi, zero_add]
    have hi := mem_insert_self i s
    rw [← hall, ← add_sum_erase _ _ hi, ← add_sum_erase _ _ hi, update_self,
      sum_congr rfl fun j hj => by rw [update_of_ne (ne_of_mem_erase hj)]]
    omega

end

end GbfCore.Threads
