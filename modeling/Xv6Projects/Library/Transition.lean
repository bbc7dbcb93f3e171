import Mathlib.Logic.Relation

/-!
# Labelled transition systems and their invariants

A system is given by its initial states and its labelled steps.  The induction
over the runs of a system is done once, here: an invariant is established on the
initial states, preserved by one step, and then holds in every reachable state.
-/

namespace Xv6Projects.Library

variable {σ ι : Type*}

/-- The states reached from an initial state by finitely many steps. -/
inductive Reachable (init : σ → Prop) (step : σ → ι → σ → Prop) : σ → Prop
  | start {s : σ} : init s → Reachable init step s
  | next {s s' : σ} {i : ι} : Reachable init step s → step s i s' → Reachable init step s'

/-- The steps of a system whose label meets a condition on the state before the step. -/
def Guarded (step : σ → ι → σ → Prop) (C : σ → ι → Prop) : σ → ι → σ → Prop :=
  fun s i s' => step s i s' ∧ C s i

variable {init : σ → Prop} {step : σ → ι → σ → Prop}

/-- An inductive invariant holds in every reachable state. -/
theorem Reachable.invariant {I : σ → Prop} (hinit : ∀ s, init s → I s)
    (hstep : ∀ s i s', I s → step s i s' → I s') {s : σ} (h : Reachable init step s) : I s := by
  induction h with
  | start h₀ => exact hinit _ h₀
  | next _ hs ih => exact hstep _ _ _ ih hs

/-- A system with more steps reaches more states. -/
theorem Reachable.mono {step' : σ → ι → σ → Prop} (hstep : ∀ s i s', step s i s' → step' s i s')
    {s : σ} (h : Reachable init step s) : Reachable init step' s := by
  induction h with
  | start h₀ => exact .start h₀
  | next _ hs ih => exact ih.next (hstep _ _ _ hs)

/-- A relation to a second system, which answers each step by a step of its own or by none,
relates every reachable state to a reachable one. -/
theorem Reachable.simulation {τ κ : Type*} {init' : τ → Prop} {step' : τ → κ → τ → Prop}
    {R : σ → τ → Prop} (hinit : ∀ s, init s → ∃ t, init' t ∧ R s t)
    (hstep : ∀ s t i s', Reachable init' step' t → R s t → step s i s' →
      ∃ t', (t' = t ∨ ∃ j, step' t j t') ∧ R s' t') {s : σ} (h : Reachable init step s) :
    ∃ t, Reachable init' step' t ∧ R s t := by
  induction h with
  | start h₀ =>
    obtain ⟨t, ht, hr⟩ := hinit _ h₀
    exact ⟨t, .start ht, hr⟩
  | next _ hs ih =>
    obtain ⟨t, ht, hr⟩ := ih
    obtain ⟨t', hanswer, hr'⟩ := hstep _ _ _ _ ht hr hs
    rcases hanswer with rfl | ⟨j, hj⟩
    · exact ⟨_, ht, hr'⟩
    · exact ⟨t', ht.next hj, hr'⟩

/-- The state after a list of operations of a deterministic system. -/
def run (next : σ → ι → Option σ) (s : σ) : List ι → Option σ
  | [] => some s
  | i :: is => (next s i).bind fun s' => run next s' is

/-- A run with one operation more. -/
theorem run_concat (next : σ → ι → Option σ) (s : σ) (is : List ι) (i : ι) :
    run next s (is ++ [i]) = (run next s is).bind fun s' => next s' i := by
  induction is generalizing s with
  | nil => exact Option.bind_fun_some _
  | cons j is ih =>
    rw [List.cons_append, run, run, Option.bind_assoc]
    exact Option.bind_congr fun s' _ => ih s'

/-- A run of steps from a reachable state ends in a reachable state. -/
theorem Reachable.run {next : σ → ι → Option σ}
    (hnext : ∀ s i s', next s i = some s' → step s i s') {is : List ι} :
    ∀ {s s' : σ}, Reachable init step s → Library.run next s is = some s' →
      Reachable init step s' := by
  induction is with
  | nil =>
    intro s s' hs h
    obtain rfl := Option.some.inj h
    exact hs
  | cons i is ih =>
    intro s s' hs h
    obtain ⟨s₁, h₁, h₂⟩ := Option.bind_eq_some_iff.mp h
    exact ih (hs.next (hnext s i s₁ h₁)) h₂

/-- One step of a deterministic system, under a condition. -/
def guardedNext (next : σ → ι → Option σ) (C : σ → ι → Prop) [∀ s i, Decidable (C s i)]
    (s : σ) (i : ι) : Option σ :=
  if C s i then next s i else none

theorem guardedNext_eq_some {next : σ → ι → Option σ} {C : σ → ι → Prop}
    [∀ s i, Decidable (C s i)] {s s' : σ} {i : ι} :
    guardedNext next C s i = some s' ↔ next s i = some s' ∧ C s i := by
  by_cases h : C s i
  · simp [guardedNext, h]
  · simp [guardedNext, h]

end Xv6Projects.Library
