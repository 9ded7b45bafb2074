import Mathlib

/-!
# Programs that call their surroundings

A program is a tree: it has ended with a result, or it makes a call and goes on with
the answer, whatever that is. Such a tree is read in six ways.

- `Prog.Sat P Q`: whatever the answers are, every call satisfies `P` and the result
  satisfies `Q`. Nothing is said about the surroundings.
- `Prog.Trace`: the calls of one run, and its result.
- `Prog.Exec out`: the surroundings have a state, and `out` says which answers a call
  can get and what it does to the state. `Prog.Runs out` says that there is such a run and
  what all of them end in.
- `Prog.Logged out`: the calls of one run up to some point, where it may be cut off.
- `Prog.Safe out Ok`: every call is in order in the state in which it is made, and what every
  run ends in.
- `Prog.Guard`: as `Sat`, but what a call may be and what it may answer depends on a
  ghost state that the answers drive, given by a `Protocol`.

`trace_of_sat` and `exec_of_sat` connect them: an invariant that all calls with `P` keep
holds at the end. `Guard.reaches` does so for protocols, at every point of a run: what the
run has left behind if it is cut off there is the state of that point.
-/

namespace GbfCore

/-- A program that makes calls in `C`, with answers in `Ans`. -/
inductive Prog (C : Type) (Ans : C → Type) (α : Type) where
  | ret (a : α)
  | call (c : C) (next : Ans c → Prog C Ans α)

namespace Prog

variable {C : Type} {Ans : C → Type} {α β : Type} {P : C → Prop} {p p' : Prog C Ans α}
variable {f : α → Prog C Ans β} {log : List (Sigma Ans)} {c : C} {a : α} {b : β}
variable {σ τ : Type} (out : σ → (c : C) → Ans c → σ → Prop) {s s' : σ}
  {out' : τ → (c : C) → Ans c → τ → Prop} {k : Ans c → Prog C Ans β}

/-- One program after another. -/
def bind : Prog C Ans α → (α → Prog C Ans β) → Prog C Ans β
  | ret a, f => f a
  | call c next, f => call c fun r => (next r).bind f

instance : Monad (Prog C Ans) where
  pure := ret
  bind := bind

/-- A call, with its answer as the result. -/
def ask (c : C) : Prog C Ans (Ans c) := call c ret

/-! ## Whatever the answers are -/

/-- Every call satisfies `P`, and the result `Q`. -/
def Sat (P : C → Prop) (Q : α → Prop) : Prog C Ans α → Prop
  | ret a => Q a
  | call c next => P c ∧ ∀ r, (next r).Sat P Q

/-- Every call satisfies `P`. -/
abbrev Calls (P : C → Prop) (p : Prog C Ans α) : Prop := p.Sat P fun _ => True

section
variable {Q : α → Prop} {R : β → Prop}

theorem sat_ret (h : Q a) : Sat P Q (pure a : Prog C Ans α) := h

theorem sat_ask (h : P c) : Calls P (ask c : Prog C Ans (Ans c)) :=
  ⟨h, fun _ => trivial⟩

theorem sat_true (p : Prog C Ans α) : p.Calls fun _ => True := by
  induction p with
  | ret a => exact trivial
  | call c next ih => exact ⟨trivial, ih⟩

theorem sat_bind (hp : p.Sat P Q) (hf : ∀ a, Q a → (f a).Sat P R) : (p >>= f).Sat P R := by
  induction p with
  | ret a => exact hf a hp
  | call c next ih => exact ⟨hp.1, fun r => ih r (hp.2 r)⟩

/-- Where nothing need be known of the first result. -/
theorem calls_bind (hp : p.Calls P) (hf : ∀ a, (f a).Sat P R) : (p >>= f).Sat P R :=
  sat_bind hp fun a _ => hf a

/-- A call that may fail; most programs then return the error. -/
theorem calls_ok {ε : Type} {p : Prog C Ans (Except ε α)} {f : Except ε α → Prog C Ans β}
    (hp : p.Calls P) (herr : ∀ e, (f (.error e)).Sat P R) (hok : ∀ a, (f (.ok a)).Sat P R) :
    (p >>= f).Sat P R := by
  refine calls_bind hp fun r => ?_
  cases r with
  | error e => exact herr e
  | ok a => exact hok a

theorem calls_mono {P' : C → Prop} (h : p.Calls P) (hP : ∀ c, P c → P' c) :
    p.Calls P' := by
  induction p with
  | ret a => exact trivial
  | call c next ih => exact ⟨hP c h.1, fun r => ih r (h.2 r)⟩

end

/-! ## The calls of a run -/

/-- The program can make these calls, in this order, and end with this result. -/
def Trace : Prog C Ans α → List C → α → Prop
  | ret a, cs, b => cs = [] ∧ b = a
  | call c next, cs, b => ∃ r cs', cs = c :: cs' ∧ (next r).Trace cs' b

theorem trace_of_sat {Q : α → Prop} {cs : List C} (hp : p.Sat P Q) (h : p.Trace cs a) :
    (∀ c ∈ cs, P c) ∧ Q a := by
  induction p generalizing cs with
  | ret b =>
    obtain ⟨rfl, rfl⟩ := h
    exact ⟨nofun, hp⟩
  | call c next ih =>
    obtain ⟨r, cs', rfl, hrest⟩ := h
    obtain ⟨hcs, ha⟩ := ih r (hp.2 r) hrest
    exact ⟨List.forall_mem_cons.mpr ⟨hp.1, hcs⟩, ha⟩

theorem trace_ask (r : Ans c) {cs : List C} (h : (k r).Trace cs b) :
    (ask c >>= k).Trace (c :: cs) b :=
  ⟨r, cs, rfl, h⟩

theorem trace_bind {cs cs' : List C} (hp : p.Trace cs a) (hf : (f a).Trace cs' b) :
    (p >>= f).Trace (cs ++ cs') b := by
  induction p generalizing cs with
  | ret a' =>
    obtain ⟨rfl, rfl⟩ := hp
    exact hf
  | call c next ih =>
    obtain ⟨r, cs₁, rfl, hrest⟩ := hp
    exact ⟨r, cs₁ ++ cs', rfl, ih r hrest⟩

/-! ## In surroundings with a state -/

section

/-- The program can run from one state to another with this result. -/
def Exec : Prog C Ans α → σ → α → σ → Prop
  | ret a, s, b, s' => b = a ∧ s' = s
  | call c next, s, b, s' => ∃ r s₁, out s c r s₁ ∧ (next r).Exec s₁ b s'

variable {out}

theorem exec_ask {r : Ans c} :
    (ask c : Prog C Ans (Ans c)).Exec out s r s' ↔ out s c r s' := by
  constructor
  · rintro ⟨r', s₁, h, rfl, rfl⟩
    exact h
  · exact fun h => ⟨r, s', h, rfl, rfl⟩

theorem exec_bind :
    (p >>= f).Exec out s b s' ↔ ∃ a s₁, p.Exec out s a s₁ ∧ (f a).Exec out s₁ b s' := by
  induction p generalizing s with
  | ret a =>
    constructor
    · exact fun h => ⟨a, s, ⟨rfl, rfl⟩, h⟩
    · rintro ⟨a', s₁, ⟨rfl, rfl⟩, h⟩
      exact h
  | call c next ih =>
    constructor
    · rintro ⟨r, s₁, hout, h⟩
      obtain ⟨a, s₂, hp, hf⟩ := (ih r).mp h
      exact ⟨a, s₂, ⟨r, s₁, hout, hp⟩, hf⟩
    · rintro ⟨a, s₂, ⟨r, s₁, hout, hp⟩, hf⟩
      exact ⟨r, s₁, hout, (ih r).mpr ⟨a, s₂, hp, hf⟩⟩

theorem exec_call (h : (ask c >>= k).Exec out s b s') :
    ∃ r s₁, out s c r s₁ ∧ (k r).Exec out s₁ b s' :=
  h

/-- **What the calls keep, the program keeps.** -/
theorem exec_of_sat {Q : α → Prop} (Inv : σ → Prop) (hp : p.Sat P Q)
    (hkeep : ∀ c s r s', P c → out s c r s' → Inv s → Inv s') (hexec : p.Exec out s a s')
    (hs : Inv s) : Inv s' ∧ Q a := by
  induction p generalizing s with
  | ret b =>
    obtain ⟨rfl, rfl⟩ := hexec
    exact ⟨hs, hp⟩
  | call c next ih =>
    obtain ⟨r, s₁, hout, hrest⟩ := hexec
    exact ih r (hp.2 r) hrest (hkeep c s r s₁ hp.1 hout hs)

/-- What holds of the result whatever the answers are. -/
theorem exec_result {Q : α → Prop} (hp : p.Sat (fun _ => True) Q) (hexec : p.Exec out s a s') :
    Q a :=
  (exec_of_sat (fun _ => True) hp (fun _ _ _ _ _ _ _ => trivial) hexec trivial).2

/-- If the calls have one outcome, so has the program. -/
theorem exec_unique
    (hone : ∀ {s c r s₁ r' s₂}, P c → out s c r s₁ → out s c r' s₂ → r = r' ∧ s₁ = s₂)
    (hp : p.Calls P) {s₁ s₂ : σ} {a' : α} (h : p.Exec out s a s₁) (h' : p.Exec out s a' s₂) :
    a = a' ∧ s₁ = s₂ := by
  induction p generalizing s with
  | ret b =>
    obtain ⟨rfl, rfl⟩ := h
    obtain ⟨rfl, rfl⟩ := h'
    exact ⟨rfl, rfl⟩
  | call c next ih =>
    obtain ⟨r, t, hout, hrest⟩ := h
    obtain ⟨r', t', hout', hrest'⟩ := h'
    obtain ⟨rfl, rfl⟩ := hone hp.1 hout hout'
    exact ih r (hp.2 r) hrest hrest'

/-- If the calls have an outcome, so has the program. -/
theorem exists_exec (hsome : ∀ s c, P c → ∃ r s', out s c r s') (hp : p.Calls P) (s : σ) :
    ∃ a s', p.Exec out s a s' := by
  induction p generalizing s with
  | ret a => exact ⟨a, s, rfl, rfl⟩
  | call c next ih =>
    obtain ⟨r, s₁, hout⟩ := hsome s c hp.1
    obtain ⟨a, s', hrest⟩ := ih r (hp.2 r) s₁
    exact ⟨a, s', r, s₁, hout, hrest⟩

/-- A run in one kind of surroundings is one in another that the first refines. -/
theorem exec_map (f : σ → τ)
    (hout : ∀ {s c r s'}, out s c r s' → out' (f s) c r (f s')) (h : p.Exec out s a s') :
    p.Exec out' (f s) a (f s') := by
  induction p generalizing s with
  | ret b =>
    obtain ⟨rfl, rfl⟩ := h
    exact ⟨rfl, rfl⟩
  | call c next ih =>
    obtain ⟨r, s₁, hcall, hrest⟩ := h
    exact ⟨r, f s₁, hout hcall, ih r hrest⟩

end

/-! ## Recorded runs -/

section

/-- The program can run from one state to another with this result, and these are its calls
with their answers. -/
def Record : Prog C Ans α → σ → List (Sigma Ans) → α → σ → Prop
  | ret a, s, log, b, s' => log = [] ∧ b = a ∧ s' = s
  | call c next, s, log, b, s' =>
    ∃ r s₁ rest, out s c r s₁ ∧ log = ⟨c, r⟩ :: rest ∧ (next r).Record s₁ rest b s'

variable {out}

theorem exec_of_record (h : p.Record out s log a s') : p.Exec out s a s' := by
  induction p generalizing s log with
  | ret b => exact h.2
  | call c next ih =>
    obtain ⟨r, s₁, rest, hout, -, hrest⟩ := h
    exact ⟨r, s₁, hout, ih r hrest⟩

theorem exists_record (h : p.Exec out s a s') :
    ∃ log, p.Record out s log a s' := by
  induction p generalizing s with
  | ret b => exact ⟨[], rfl, h⟩
  | call c next ih =>
    obtain ⟨r, s₁, hout, hrest⟩ := h
    obtain ⟨log, hlog⟩ := ih r hrest
    exact ⟨_, r, s₁, log, hout, rfl, hlog⟩

theorem record_ask (h : (ask c >>= k).Record out s log b s') :
    ∃ r s₁ rest, out s c r s₁ ∧ log = ⟨c, r⟩ :: rest ∧ (k r).Record out s₁ rest b s' :=
  h

theorem record_bind (h : (p >>= f).Record out s log b s') :
    ∃ a s₁ log₁ log₂, log = log₁ ++ log₂ ∧ p.Record out s log₁ a s₁ ∧
      (f a).Record out s₁ log₂ b s' := by
  induction p generalizing s log with
  | ret a => exact ⟨a, s, [], log, rfl, ⟨rfl, rfl, rfl⟩, h⟩
  | call c next ih =>
    obtain ⟨r, s₁, rest, hout, rfl, hrest⟩ := h
    obtain ⟨a, s₂, log₁, log₂, rfl, hp, hf⟩ := ih r hrest
    exact ⟨a, s₂, ⟨c, r⟩ :: log₁, log₂, rfl, ⟨r, s₁, log₁, hout, rfl, hp⟩, hf⟩

theorem record_bind_mpr {s₁ : σ} {log₁ log₂ : List (Sigma Ans)} (hp : p.Record out s log₁ a s₁)
    (hf : (f a).Record out s₁ log₂ b s') : (p >>= f).Record out s (log₁ ++ log₂) b s' := by
  induction p generalizing s log₁ with
  | ret a' =>
    obtain ⟨rfl, rfl, rfl⟩ := hp
    exact hf
  | call c next ih =>
    obtain ⟨r, s₂, rest, hout, rfl, hrest⟩ := hp
    exact ⟨r, s₂, rest ++ log₂, hout, rfl, ih r hrest⟩

theorem record_map (f : σ → τ)
    (hout : ∀ {s c r s'}, out s c r s' → out' (f s) c r (f s')) (h : p.Record out s log a s') :
    p.Record out' (f s) log a (f s') := by
  induction p generalizing s log with
  | ret b =>
    obtain ⟨rfl, rfl, rfl⟩ := h
    exact ⟨rfl, rfl, rfl⟩
  | call c next ih =>
    obtain ⟨r, s₁, rest, hcall, rfl, hrest⟩ := h
    exact ⟨r, f s₁, rest, hout hcall, rfl, ih r hrest⟩

/-- What every answer satisfies, the log does. -/
theorem record_forall {E : Sigma Ans → Prop} (hout : ∀ {s c r s'}, out s c r s' → E ⟨c, r⟩)
    (h : p.Record out s log a s') : ∀ ev ∈ log, E ev := by
  induction p generalizing s log with
  | ret b =>
    obtain ⟨rfl, -⟩ := h
    exact nofun
  | call c next ih =>
    obtain ⟨r, s₁, rest, hcall, rfl, hrest⟩ := h
    exact List.forall_mem_cons.mpr ⟨hout hcall, ih r hrest⟩

/-- What is seen to hold of every event of a run may be asked of every outcome. -/
theorem exec_of_record_forall {E : Sigma Ans → Prop} (h : p.Record out s log a s')
    (hlog : ∀ ev ∈ log, E ev) :
    p.Exec (fun s c r s' => out s c r s' ∧ E ⟨c, r⟩) s a s' := by
  induction p generalizing s log with
  | ret b => exact h.2
  | call c next ih =>
    obtain ⟨r, s₁, rest, hcall, rfl, hrest⟩ := h
    obtain ⟨hev, hlog⟩ := List.forall_mem_cons.mp hlog
    exact ⟨r, s₁, ⟨hcall, hev⟩, ih r hrest hlog⟩

theorem record_calls (hp : p.Calls P) (h : p.Record out s log a s') : ∀ ev ∈ log, P ev.1 := by
  induction p generalizing s log with
  | ret b =>
    obtain ⟨rfl, -⟩ := h
    exact nofun
  | call c next ih =>
    obtain ⟨r, s₁, rest, -, rfl, hrest⟩ := h
    exact List.forall_mem_cons.mpr ⟨hp.1, ih r (hp.2 r) hrest⟩

end

/-! ## Total runs -/

section

/-- The program can run, and every run of it ends in `Q`. -/
def Runs (p : Prog C Ans α) (s : σ) (Q : α → σ → Prop) : Prop :=
  (∃ a s', p.Exec out s a s') ∧ ∀ a s', p.Exec out s a s' → Q a s'

variable {out} {Q : α → σ → Prop}

theorem runs_ret (h : Q a s) :
    Runs out (pure a : Prog C Ans α) s Q := by
  refine ⟨⟨a, s, rfl, rfl⟩, ?_⟩
  rintro b s' ⟨rfl, rfl⟩
  exact h

theorem runs_bind {R : β → σ → Prop} (hp : Runs out p s Q)
    (hf : ∀ a s', Q a s' → Runs out (f a) s' R) :
    Runs out (p >>= f) s R := by
  constructor
  · obtain ⟨a, s₁, hexec⟩ := hp.1
    obtain ⟨b, s₂, hrest⟩ := (hf a s₁ (hp.2 a s₁ hexec)).1
    exact ⟨b, s₂, exec_bind.mpr ⟨a, s₁, hexec, hrest⟩⟩
  · intro b s₂ hexec
    obtain ⟨a, s₁, hfirst, hrest⟩ := exec_bind.mp hexec
    exact (hf a s₁ (hp.2 a s₁ hfirst)).2 b s₂ hrest

/-- A call that gets an answer, and what comes after it. -/
theorem runs_ask {R : β → σ → Prop} (hsome : ∃ r s', out s c r s')
    (hf : ∀ r s', out s c r s' → Runs out (k r) s' R) :
    Runs out (ask c >>= k) s R := by
  refine runs_bind (Q := fun r s' => out s c r s') ⟨?_, fun r s' h => exec_ask.mp h⟩ hf
  obtain ⟨r, s', h⟩ := hsome
  exact ⟨r, s', exec_ask.mpr h⟩

/-- What all runs end in, one of them does. -/
theorem Runs.exists {R : α → σ → Prop} (h : Runs out p s Q) (h' : Runs out p s R) :
    ∃ a s', Q a s' ∧ R a s' := by
  obtain ⟨a, s', hexec⟩ := h.1
  exact ⟨a, s', h.2 a s' hexec, h'.2 a s' hexec⟩

theorem Runs.mono {R : α → σ → Prop} (h : Runs out p s Q) (hQ : ∀ a s', Q a s' → R a s') :
    Runs out p s R :=
  ⟨h.1, fun a s' hexec => hQ a s' (h.2 a s' hexec)⟩

end

/-! ## Partial runs -/

section

/-- The program can get from one state to another, with this part of it left. -/
inductive Reaches : Prog C Ans α → σ → Prog C Ans α → σ → Prop
  | refl (p : Prog C Ans α) (s : σ) : Reaches p s p s
  | step {c : C} {next : Ans c → Prog C Ans α} {r : Ans c} {s s₁ s' : σ} {p' : Prog C Ans α}
      (hout : out s c r s₁) (hrest : Reaches (next r) s₁ p' s') :
      Reaches (call c next) s p' s'

end

/-! ## Recorded partial runs -/

section

/-- The program can get from one state to another with these calls and answers, and with this
part of it left. -/
inductive Logged : Prog C Ans α → σ → List (Sigma Ans) → Prog C Ans α → σ → Prop
  | refl (p : Prog C Ans α) (s : σ) : Logged p s [] p s
  | step {c : C} {next : Ans c → Prog C Ans α} {r : Ans c} {s s₁ s' : σ} {p' : Prog C Ans α}
      {log : List (Sigma Ans)} (hout : out s c r s₁) (hrest : Logged (next r) s₁ log p' s') :
      Logged (call c next) s (⟨c, r⟩ :: log) p' s'

variable {out}

theorem logged_ret (h : Logged out (pure a) s log p' s') : log = [] ∧ p' = pure a ∧ s' = s := by
  cases h
  exact ⟨rfl, rfl, rfl⟩

/-- A partial run with nothing left is a whole one. -/
theorem record_of_logged (h : Logged out p s log (ret a) s') : p.Record out s log a s' := by
  induction p generalizing s log with
  | ret b =>
    cases h
    exact ⟨rfl, rfl, rfl⟩
  | call c next ih =>
    cases h with
    | step hout hrest => exact ⟨_, _, _, hout, rfl, ih _ hrest⟩

theorem logged_of_record (h : p.Record out s log a s') : Logged out p s log (ret a) s' := by
  induction p generalizing s log with
  | ret b =>
    obtain ⟨rfl, rfl, rfl⟩ := h
    exact .refl _ _
  | call c next ih =>
    obtain ⟨r, s₁, rest, hout, rfl, hrest⟩ := h
    exact .step hout (ih r hrest)

/-- A call is still to be made, or it was made. -/
theorem logged_ask {p' : Prog C Ans β}
    (h : Logged out (ask c >>= k) s log p' s') :
    (log = [] ∧ p' = ask c >>= k ∧ s' = s) ∨
      ∃ r s₁ rest, out s c r s₁ ∧ log = ⟨c, r⟩ :: rest ∧ Logged out (k r) s₁ rest p' s' := by
  cases h with
  | refl => exact .inl ⟨rfl, rfl, rfl⟩
  | step hout hrest => exact .inr ⟨_, _, _, hout, rfl, hrest⟩

/-- The first part is waiting for an answer, or it has ended and the second is on the way. -/
theorem logged_bind {q : Prog C Ans β} (h : Logged out (p >>= f) s log q s') :
    (∃ c next, Logged out p s log (call c next) s' ∧ q = call c fun r => next r >>= f) ∨
      ∃ a s₁ log₁ log₂, log = log₁ ++ log₂ ∧ p.Record out s log₁ a s₁ ∧
        Logged out (f a) s₁ log₂ q s' := by
  induction p generalizing s log with
  | ret a => exact .inr ⟨a, s, [], log, rfl, ⟨rfl, rfl, rfl⟩, h⟩
  | call c next ih =>
    cases h with
    | refl => exact .inl ⟨c, next, .refl _ _, rfl⟩
    | step hout hrest =>
      rcases ih _ hrest with ⟨c', next', hp, rfl⟩ | ⟨a, s₁, log₁, log₂, rfl, hp, hf⟩
      · exact .inl ⟨c', next', .step hout hp, rfl⟩
      · exact .inr ⟨a, s₁, _ :: log₁, log₂, rfl, ⟨_, _, _, hout, rfl, hp⟩, hf⟩

/-- Where the second part makes no calls. -/
theorem logged_result {f : α → β} {q : Prog C Ans β}
    (h : Logged out (p >>= fun a => pure (f a)) s log q s') :
    ∃ q', Logged out p s log q' s' ∧ ∀ b, q = pure b → ∃ a, q' = pure a ∧ b = f a := by
  rcases logged_bind h with ⟨c, next, hp, rfl⟩ | ⟨a, s₁, log₁, log₂, rfl, hp, hf⟩
  · exact ⟨call c next, hp, nofun⟩
  · obtain ⟨rfl, rfl, rfl⟩ := logged_ret hf
    rw [List.append_nil]
    exact ⟨pure a, logged_of_record hp, fun b hb => ⟨a, rfl, (Prog.ret.inj hb).symm⟩⟩

/-- **What the calls keep holds at every point**, and the log has no other calls. -/
theorem logged_of_calls (Inv : σ → Prop) (hp : p.Calls P)
    (hkeep : ∀ c s r s', P c → out s c r s' → Inv s → Inv s') (h : Logged out p s log p' s')
    (hs : Inv s) : Inv s' ∧ ∀ ev ∈ log, P ev.1 := by
  induction h with
  | refl p s => exact ⟨hs, nofun⟩
  | step hout _ ih =>
    obtain ⟨hinv, hlog⟩ := ih (hp.2 _) (hkeep _ _ _ _ hp.1 hout hs)
    exact ⟨hinv, List.forall_mem_cons.mpr ⟨hp.1, hlog⟩⟩

theorem logged_map (f : σ → τ)
    (hout : ∀ {s c r s'}, out s c r s' → out' (f s) c r (f s')) (h : Logged out p s log p' s') :
    Logged out' p (f s) log p' (f s') := by
  induction h with
  | refl p s => exact .refl _ _
  | step hcall _ ih => exact .step (hout hcall) ih

/-- Where only the calls that are made can behave as in the other surroundings. -/
theorem logged_mono {out' : σ → (c : C) → Ans c → σ → Prop} (hp : p.Calls P)
    (hout : ∀ {s c r s'}, P c → out s c r s' → out' s c r s') (h : Logged out p s log p' s') :
    Logged out' p s log p' s' := by
  induction h with
  | refl p s => exact .refl _ _
  | step hcall _ ih => exact .step (hout hp.1 hcall) (ih (hp.2 _))

end

/-! ## Calls in their states -/

section
variable (Ok : σ → C → Prop)

/-- Every call is `Ok` in the state in which it is made, and every run ends in `Q`. -/
def Safe : Prog C Ans α → σ → (α → σ → Prop) → Prop
  | ret a, s, Q => Q a s
  | call c next, s, Q => Ok s c ∧ ∀ r s', out s c r s' → (next r).Safe s' Q

variable {out Ok} {Q : α → σ → Prop}

theorem safe_ask {Q : β → σ → Prop} (hok : Ok s c)
    (hrest : ∀ r s', out s c r s' → (k r).Safe out Ok s' Q) : (ask c >>= k).Safe out Ok s Q :=
  ⟨hok, hrest⟩

theorem Safe.mono {R : α → σ → Prop} (h : p.Safe out Ok s Q) (hQ : ∀ a s', Q a s' → R a s') :
    p.Safe out Ok s R := by
  induction p generalizing s with
  | ret a => exact hQ a s h
  | call c next ih => exact ⟨h.1, fun r s' hout => ih r (h.2 r s' hout)⟩

theorem safe_bind {R : β → σ → Prop} (hp : p.Safe out Ok s Q)
    (hf : ∀ a s', Q a s' → (f a).Safe out Ok s' R) : (p >>= f).Safe out Ok s R := by
  induction p generalizing s with
  | ret a => exact hf a s hp
  | call c next ih => exact ⟨hp.1, fun r s' hout => ih r (hp.2 r s' hout)⟩

/-- Calls of one kind that keep an invariant. -/
theorem safe_of_calls {Inv : σ → Prop} (hp : p.Calls P) (hok : ∀ {s c}, Inv s → P c → Ok s c)
    (hkeep : ∀ {s c r s'}, Inv s → P c → out s c r s' → Inv s') (h : Inv s) :
    p.Safe out Ok s fun _ => Inv := by
  induction p generalizing s with
  | ret a => exact h
  | call c next ih =>
    exact ⟨hok h hp.1, fun r s' hout => ih r (hp.2 r) (hkeep h hp.1 hout)⟩

/-- **The call that a run has come to is `Ok`.** -/
theorem Safe.reaches {next : Ans c → Prog C Ans α} (h : p.Safe out Ok s Q)
    (hrun : Reaches out p s (call c next) s') : Ok s' c := by
  generalize hp' : call c next = p' at hrun
  induction hrun with
  | refl p s =>
    subst hp'
    exact h.1
  | step hout hrest ih => exact ih (h.2 _ _ hout) hp'

end

/-! ## With a ghost state -/

/-- What may be called, what may be answered, and what is known afterwards. -/
structure Protocol (C : Type) (Ans : C → Type) (γ : Type) where
  pre : γ → C → Prop
  admits : γ → (c : C) → Ans c → Prop
  next : γ → (c : C) → Ans c → γ

section
variable {γ : Type} (T : Protocol C Ans γ)

/-- Whatever admitted answers there are, every call is one the protocol allows, and the result
and the last ghost state satisfy `Q`. -/
def Guard : Prog C Ans α → γ → (α → γ → Prop) → Prop
  | ret a, g, Q => Q a g
  | call c k, g, Q => T.pre g c ∧ ∀ r, T.admits g c r → (k r).Guard (T.next g c r) Q

variable {out T} {g : γ} {Q : α → γ → Prop}

theorem guard_ret (h : Q a g) : (pure a : Prog C Ans α).Guard T g Q := h

/-- A call, and what comes after it. -/
theorem guard_ask {Q : β → γ → Prop} (hpre : T.pre g c)
    (hf : ∀ r, T.admits g c r → (k r).Guard T (T.next g c r) Q) : (ask c >>= k).Guard T g Q :=
  ⟨hpre, hf⟩

theorem Guard.mono {R : α → γ → Prop} (h : p.Guard T g Q) (hQ : ∀ a g', Q a g' → R a g') :
    p.Guard T g R := by
  induction p generalizing g with
  | ret a => exact hQ a g h
  | call c k ih => exact ⟨h.1, fun r hr => ih r (h.2 r hr)⟩

theorem guard_bind {R : β → γ → Prop} (hp : p.Guard T g Q)
    (hf : ∀ a g', Q a g' → (f a).Guard T g' R) :
    (p >>= f).Guard T g R := by
  induction p generalizing g with
  | ret a => exact hf a g hp
  | call c k ih => exact ⟨hp.1, fun r hr => ih r (hp.2 r hr)⟩

/-- **At every point of a run the ghost state is that of the state**, if every call that the
protocol allows gets an admitted answer and keeps the two together. -/
theorem Guard.reaches (Rel : γ → σ → Prop) (hp : p.Guard T g Q) (h : Reaches out p s p' s')
    (hs : Rel g s) (hkeep : ∀ g s c r s', T.pre g c → Rel g s → out s c r s' →
      T.admits g c r ∧ Rel (T.next g c r) s') : ∃ g', Rel g' s' ∧ p'.Guard T g' Q := by
  induction h generalizing g with
  | refl p s => exact ⟨g, hs, hp⟩
  | step hout _ ih =>
    obtain ⟨hadmits, hrel⟩ := hkeep _ _ _ _ _ hp.1 hs hout
    exact ih (hp.2 _ hadmits) hrel

end

end Prog

end GbfCore
