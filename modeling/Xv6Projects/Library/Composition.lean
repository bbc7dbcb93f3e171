import Xv6Projects.Library.Transition

/-!
# A client and the device that it uses

A client and a device take steps of their own, and steps together on an action of the device.
When the device is simulated by its specification, the client cannot tell them apart: whatever is
reached by the client with the device is reached by the client with the specification.
-/

namespace Xv6Projects.Library

variable {κ δ ε α : Type*}

/-- The steps of a client with a device.  A step without an action is a step of one of them. -/
inductive Composed (cstep : κ → Option α → κ → Prop) (dstep : δ → Option α → δ → Prop) :
    κ × δ → Option α → κ × δ → Prop
  | client {c c' : κ} {d : δ} : cstep c none c' → Composed cstep dstep (c, d) none (c', d)
  | device {c : κ} {d d' : δ} : dstep d none d' → Composed cstep dstep (c, d) none (c, d')
  | both {c c' : κ} {d d' : δ} {a : α} : cstep c (some a) c' → dstep d (some a) d' →
      Composed cstep dstep (c, d) (some a) (c', d')

/-- `R` relates a device to its specification: an action of the device is an action of the
specification, which does not move when the device takes a step of its own. -/
structure Simulates (dstep : δ → Option α → δ → Prop) (estep : ε → α → ε → Prop)
    (R : δ → ε → Prop) : Prop where
  silent {d d' : δ} {e : ε} : R d e → dstep d none d' → R d' e
  action {d d' : δ} {e : ε} {a : α} : R d e → dstep d (some a) d' → ∃ e', estep e a e' ∧ R d' e'

/-- The steps of a specification, which takes none of its own. -/
def Observed (estep : ε → α → ε → Prop) : ε → Option α → ε → Prop
  | e, some a, e' => estep e a e'
  | _, none, _ => False

/-- A run of a device, with the actions of the run. -/
inductive Trace (dstep : δ → Option α → δ → Prop) : δ → List α → δ → Prop
  | nil (d : δ) : Trace dstep d [] d
  | silent {d d' d'' : δ} {as : List α} : dstep d none d' → Trace dstep d' as d'' →
      Trace dstep d as d''
  | action {d d' d'' : δ} {a : α} {as : List α} : dstep d (some a) d' → Trace dstep d' as d'' →
      Trace dstep d (a :: as) d''

/-- A run is cut at one of its actions. -/
theorem Trace.split {dstep : δ → Option α → δ → Prop} {d d' : δ} {as bs : List α}
    (h : Trace dstep d (as ++ bs) d') : ∃ d₁, Trace dstep d as d₁ ∧ Trace dstep d₁ bs d' := by
  generalize has : as ++ bs = acts at h
  induction h generalizing as with
  | nil d =>
    obtain ⟨rfl, rfl⟩ := List.append_eq_nil_iff.mp has
    exact ⟨d, .nil d, .nil d⟩
  | silent hstep _ ih =>
    obtain ⟨d₁, h₁, h₂⟩ := ih has
    exact ⟨d₁, .silent hstep h₁, h₂⟩
  | @action d d' d'' a acts hstep hrun ih =>
    cases as with
    | nil =>
      rw [List.nil_append] at has
      exact ⟨d, .nil d, has ▸ .action hstep hrun⟩
    | cons b as =>
      obtain ⟨rfl, htail⟩ := List.cons.inj has
      obtain ⟨d₁, h₁, h₂⟩ := ih htail
      exact ⟨d₁, .action hstep h₁, h₂⟩

variable {cstep : κ → Option α → κ → Prop} {dstep : δ → Option α → δ → Prop}
  {estep : ε → α → ε → Prop} {R : δ → ε → Prop}

/-- The actions of each run of a device are those of a run of its specification. -/
theorem Simulates.trace (h : Simulates dstep estep R) {d d' : δ} {as : List α}
    (hd : Trace dstep d as d') :
    ∀ {e : ε}, R d e → ∃ e', Trace (Observed estep) e as e' ∧ R d' e' := by
  induction hd with
  | nil d => exact fun {e} hR => ⟨e, .nil e, hR⟩
  | silent hstep _ ih => exact fun hR => ih (h.silent hR hstep)
  | action hstep _ ih =>
    intro e hR
    obtain ⟨e₁, he₁, hR₁⟩ := h.action hR hstep
    obtain ⟨e', hrun, hR'⟩ := ih hR₁
    exact ⟨e', .action he₁ hrun, hR'⟩

/-- **Replacing a device by its specification**: what a client reaches with the device, it reaches
with the specification. -/
theorem Simulates.composed (h : Simulates dstep estep R) {init : κ × δ → Prop}
    {init' : κ × ε → Prop} (hinit : ∀ c d, init (c, d) → ∃ e, R d e ∧ init' (c, e)) {s : κ × δ}
    (hs : Reachable init (Composed cstep dstep) s) :
    ∃ e, R s.2 e ∧ Reachable init' (Composed cstep (Observed estep)) (s.1, e) := by
  induction hs with
  | @start s h₀ =>
    obtain ⟨e, hR, he⟩ := hinit s.1 s.2 h₀
    exact ⟨e, hR, .start he⟩
  | next _ hstep ih =>
    obtain ⟨e, hR, he⟩ := ih
    cases hstep with
    | client hc => exact ⟨e, hR, he.next (.client hc)⟩
    | device hd => exact ⟨e, h.silent hR hd, he⟩
    | both hc hd =>
      obtain ⟨e', hact, hR'⟩ := h.action hR hd
      exact ⟨e', hR', he.next (.both hc hact)⟩

end Xv6Projects.Library
