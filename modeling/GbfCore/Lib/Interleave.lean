import GbfCore.Lib.Calls

/-!
# Programs that take turns

Any number of programs run over one state, one call of one of them at a time. A run has a log
of the calls with their answers, and may be held to a condition on the call to be made next,
which sees the log.

`Interleaved.guard` is the rule for invariants: each program follows its own protocol, and a
relation between the ghost states of all of them and the shared state is kept by every call
that a protocol allows. `replay` computes the run of a list of turns.
-/

namespace GbfCore.Prog

open Function

variable {ι C : Type} {Ans : C → Type} {α σ : Type} [DecidableEq ι]

/-- What is left of the programs and the state, behind the calls of the log. The latest call is
in front. -/
inductive Interleaved (out : σ → (c : C) → Ans c → σ → Prop)
    (allowed : List (ι × Sigma Ans) → ι → C → Prop) (p₀ : ι → Prog C Ans α) (s₀ : σ) :
    List (ι × Sigma Ans) → (ι → Prog C Ans α) → σ → Prop
  | start : Interleaved out allowed p₀ s₀ [] p₀ s₀
  | step {log : List (ι × Sigma Ans)} {p : ι → Prog C Ans α} {s s' : σ} {i : ι} {c : C}
      {next : Ans c → Prog C Ans α} {r : Ans c} (h : Interleaved out allowed p₀ s₀ log p s)
      (hcall : p i = call c next) (hallowed : allowed log i c) (hout : out s c r s') :
      Interleaved out allowed p₀ s₀ ((i, ⟨c, r⟩) :: log) (update p i (next r)) s'

section
variable {out : σ → (c : C) → Ans c → σ → Prop} {allowed : List (ι × Sigma Ans) → ι → C → Prop}
  {p₀ p : ι → Prog C Ans α} {s₀ s : σ} {log : List (ι × Sigma Ans)}

/-- **The ghost states follow the run.** -/
theorem Interleaved.guard {γ : Type} {T : ι → Protocol C Ans γ} {g₀ : ι → γ}
    {Q : ι → α → γ → Prop} (Rel : List (ι × Sigma Ans) → (ι → γ) → σ → Prop)
    (hp : ∀ i, (p₀ i).Guard (T i) (g₀ i) (Q i)) (hs : Rel [] g₀ s₀)
    (hkeep : ∀ {log g s i c r s'}, (T i).pre (g i) c → Rel log g s → allowed log i c →
      out s c r s' → (T i).admits (g i) c r ∧
        Rel ((i, ⟨c, r⟩) :: log) (update g i ((T i).next (g i) c r)) s')
    (h : Interleaved out allowed p₀ s₀ log p s) :
    ∃ g, Rel log g s ∧ ∀ i, (p i).Guard (T i) (g i) (Q i) := by
  induction h with
  | start => exact ⟨g₀, hs, hp⟩
  | step _ hcall hallowed hout ih =>
    rename_i log p s s' i c next r _
    obtain ⟨g, hrel, hguard⟩ := ih
    have hi := hguard i
    rw [hcall] at hi
    obtain ⟨hadmits, hrel'⟩ := hkeep hi.1 hrel hallowed hout
    refine ⟨_, hrel', fun j => ?_⟩
    by_cases hj : j = i
    · subst hj
      rw [update_self, update_self]
      exact hi.2 r hadmits
    · rw [update_of_ne hj, update_of_ne hj]
      exact hguard j

/-- Let the programs take turns as the list says; `allowed` checks each call. -/
def replay (step : σ → (c : C) → Option (Ans c × σ))
    (allowed : List (ι × Sigma Ans) → ι → C → Bool) :
    List ι → List (ι × Sigma Ans) → (ι → Prog C Ans α) → σ →
      Option (List (ι × Sigma Ans) × (ι → Prog C Ans α) × σ)
  | [], log, p, s => some (log, p, s)
  | i :: rest, log, p, s =>
    match p i with
    | ret _ => none
    | call c next =>
      if allowed log i c then
        match step s c with
        | some (r, s') =>
          replay step allowed rest ((i, ⟨c, r⟩) :: log) (update p i (next r)) s'
        | none => none
      else none

/-- What is replayed is a run. -/
theorem interleaved_replay {τ : Type} {step : τ → (c : C) → Option (Ans c × τ)}
    {check : List (ι × Sigma Ans) → ι → C → Bool} (f : τ → σ)
    (hstep : ∀ t c r t', step t c = some (r, t') → out (f t) c r (f t'))
    (hcheck : ∀ log i c, check log i c = true → allowed log i c) {turns : List ι}
    {log' : List (ι × Sigma Ans)} {p' : ι → Prog C Ans α} {t t' : τ}
    (h : Interleaved out allowed p₀ s₀ log p (f t))
    (hreplay : replay step check turns log p t = some (log', p', t')) :
    Interleaved out allowed p₀ s₀ log' p' (f t') := by
  induction turns generalizing log p t with
  | nil =>
    cases hreplay
    exact h
  | cons i rest ih =>
    unfold replay at hreplay
    split at hreplay
    · cases hreplay
    · rename_i c next hcall
      split at hreplay
      · rename_i hallowed
        split at hreplay
        · rename_i r t₁ hr
          exact ih (h.step hcall (hcheck _ _ _ hallowed) (hstep _ _ _ _ hr)) hreplay
        · cases hreplay
      · cases hreplay

end

end GbfCore.Prog
