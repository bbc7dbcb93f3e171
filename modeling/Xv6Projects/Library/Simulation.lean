import Xv6Projects.Library.Wp

/-!
# Simulation by a deterministic machine

A system performs operations as programs with state and failure; an abstract machine
performs the same operations as functions.  When each operation is simulated, so is each
list of operations, and the replies are the same.
-/

namespace Xv6Projects.Library

variable {σ τ ε ι ρ : Type}

/-- Perform the operations one after the other, and collect the replies. -/
def performAll (perform : ι → Prog σ ε ρ) : List ι → Prog σ ε (List ρ)
  | [] => pure []
  | i :: is => do
      let r ← perform i
      return r :: (← performAll perform is)

/-- The replies of an abstract machine. -/
def replies (next : τ → ι → ρ × τ) (t : τ) : List ι → List ρ
  | [] => []
  | i :: is => (next t i).1 :: replies next (next t i).2 is

/-- Each operation is allowed in the state of the abstract machine in which it comes. -/
def AllowsAll (next : τ → ι → ρ × τ) (allows : τ → ι → Prop) (t : τ) : List ι → Prop
  | [] => True
  | i :: is => allows t i ∧ AllowsAll next allows (next t i).2 is

/-- The state of an abstract machine after a list of operations. -/
def finish (next : τ → ι → ρ × τ) (t : τ) : List ι → τ
  | [] => t
  | i :: is => finish next (next t i).2 is

/-- Simulation, with the state in which the machine ends. -/
theorem wp_performAll_finish {perform : ι → Prog σ ε ρ} {next : τ → ι → ρ × τ}
    {allows : τ → ι → Prop} {R : σ → τ → Prop} {E : ι → ε → Prop}
    (hstep : ∀ s t i, R s t → allows t i →
      Wp (perform i) (E i) (fun r s' => r = (next t i).1 ∧ R s' (next t i).2) s) (is : List ι) :
    ∀ s t, R s t → AllowsAll next allows t is →
      Wp (performAll perform is) (fun e => ∃ i ∈ is, E i e)
        (fun rs s' => rs = replies next t is ∧ R s' (finish next t is)) s := by
  induction is with
  | nil => exact fun s t hR _ => wp_pure ⟨rfl, hR⟩
  | cons i is ih =>
    intro s t hR hall
    have hfirst := (hstep s t i hR hall.1).mono (fun _ _ h => h)
      fun e he => (⟨i, List.mem_cons_self, he⟩ : ∃ j ∈ i :: is, E j e)
    refine hfirst.bind fun r s' hr => ?_
    obtain ⟨rfl, hR'⟩ := hr
    have hrest := (ih s' _ hR' hall.2).mono (fun _ _ h => h) fun e ⟨j, hj, he⟩ =>
      (⟨j, List.mem_cons_of_mem i hj, he⟩ : ∃ j ∈ i :: is, E j e)
    refine hrest.bind fun rs s'' hrs => wp_pure ?_
    obtain ⟨rfl, hR''⟩ := hrs
    exact ⟨rfl, hR''⟩

/-- **Simulation**: when every allowed operation of the system has the reply of the machine and
keeps the relation to it, or fails with an error that `E` allows for the operation, then so does
every list of allowed operations. -/
theorem wp_performAll {perform : ι → Prog σ ε ρ} {next : τ → ι → ρ × τ} {allows : τ → ι → Prop}
    {R : σ → τ → Prop} {E : ι → ε → Prop}
    (hstep : ∀ s t i, R s t → allows t i →
      Wp (perform i) (E i) (fun r s' => r = (next t i).1 ∧ R s' (next t i).2) s) (is : List ι) :
    ∀ s t, R s t → AllowsAll next allows t is →
      Wp (performAll perform is) (fun e => ∃ i ∈ is, E i e)
        (fun rs _ => rs = replies next t is) s :=
  fun s t hR hall => (wp_performAll_finish hstep is s t hR hall).post fun _ _ h => h.1

end Xv6Projects.Library
