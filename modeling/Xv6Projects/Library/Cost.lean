import Mathlib.Data.Nat.Basic
import Xv6Projects.Library.Wp

/-!
# Exact costs

The state has an amount of a resource, and a program takes units of it until it returns or the
resource runs out, which is one of its errors.  `Takes n` says that the program takes `n` units
when it returns, and runs out only with fewer; `Exactly n` says that it runs out if and only if
there are fewer than `n`.  The second follows from the first where no other error is possible, and
also allows other errors once the `n` units are taken.
-/

namespace Xv6Projects.Library

variable {σ ε α β : Type} {avail : σ → ℕ} {out : ε → Prop} {s : σ} {n n' : ℕ}

/-- A program that returns has taken `n` units, and one that runs out found fewer. -/
def Takes (avail : σ → ℕ) (out : ε → Prop) (x : Prog σ ε α) (n : ℕ) (Q : α → σ → Prop) (s : σ) :
    Prop :=
  Wp x (fun e => out e → avail s < n) (fun a s' => avail s' + n = avail s ∧ Q a s') s

/-- The program runs out if and only if there are fewer than `n` units. -/
def Exactly (avail : σ → ℕ) (out : ε → Prop) (x : Prog σ ε α) (n : ℕ) (Q : α → σ → Prop) (s : σ) :
    Prop :=
  Wp x (fun e => out e ↔ avail s < n) (fun a s' => n ≤ avail s ∧ Q a s') s

lemma takes_pure {Q : α → σ → Prop} {a : α} (h : Q a s) :
    Takes avail out (pure a) 0 Q s :=
  wp_pure ⟨rfl, h⟩

lemma Takes.post {x : Prog σ ε α} {Q Q' : α → σ → Prop} (h : Takes avail out x n Q s)
    (hQ : ∀ a s', Q a s' → Q' a s') : Takes avail out x n Q' s :=
  Wp.post h fun a s' h' => ⟨h'.1, hQ a s' h'.2⟩

/-- What is known of the result besides the cost. -/
lemma Takes.known {E : ε → Prop} {x : Prog σ ε α} {Q Q' : α → σ → Prop}
    (h : Takes avail out x n Q s) (hx : Wp x E Q' s) :
    Takes avail out x n (fun a s' => Q a s' ∧ Q' a s') s :=
  (Wp.and h hx).mono (fun _ _ h' => ⟨h'.1.1, h'.1.2, h'.2⟩) fun _ he => he.1

/-- The costs of two programs add up. -/
lemma Takes.bind {x : Prog σ ε α} {f : α → Prog σ ε β} {P : α → σ → Prop} {Q : β → σ → Prop}
    (h : Takes avail out x n P s) (hf : ∀ a s', P a s' → Takes avail out (f a) n' Q s') :
    Takes avail out (x >>= f) (n + n') Q s := by
  have hx : Wp x (fun e => out e → avail s < n + n')
      (fun a s' => avail s' + n = avail s ∧ P a s') s :=
    h.mono (fun _ _ h' => h') fun e he ho => Nat.lt_add_right n' (he ho)
  refine hx.bind fun a s' h' => (hf a s' h'.2).mono (fun b s'' h'' => ⟨?_, h''.2⟩) fun e he ho => ?_
  · have h₁ := h'.1
    have h₂ := h''.1
    omega
  · have h₁ := h'.1
    have h₂ := he ho
    omega

/-- The cost of the second program is the rest of the cost of both. -/
lemma Takes.bind_sub {x : Prog σ ε α} {f : α → Prog σ ε β} {P : α → σ → Prop} {Q : β → σ → Prop}
    (hle : n ≤ n') (h : Takes avail out x n P s)
    (hf : ∀ a s', P a s' → Takes avail out (f a) (n' - n) Q s') :
    Takes avail out (x >>= f) n' Q s := by
  have hsum := h.bind hf
  rwa [Nat.add_sub_cancel' hle] at hsum

/-- A step that takes nothing, in front. -/
lemma takes_bind_free {x : Prog σ ε α} {f : α → Prog σ ε β} {Q : β → σ → Prop}
    (h : Wp x (fun e => ¬out e) (fun a s' => avail s' = avail s ∧ Takes avail out (f a) n Q s') s) :
    Takes avail out (x >>= f) n Q s := by
  have hx : Wp x (fun e => out e → avail s < n)
      (fun a s' => avail s' = avail s ∧ Takes avail out (f a) n Q s') s :=
    h.mono (fun _ _ h' => h') fun e he ho => absurd ho he
  refine hx.bind fun a s' h' => ?_
  obtain ⟨heq, h'⟩ := h'
  unfold Takes at h'
  rwa [heq] at h'

lemma exactly_pure {Q : α → σ → Prop} {a : α} (h : Q a s) :
    Exactly avail out (pure a) 0 Q s :=
  wp_pure ⟨Nat.zero_le _, h⟩

lemma Exactly.post {x : Prog σ ε α} {Q Q' : α → σ → Prop} (h : Exactly avail out x n Q s)
    (hQ : ∀ a s', Q a s' → Q' a s') : Exactly avail out x n Q' s :=
  Wp.post h fun a s' h' => ⟨h'.1, hQ a s' h'.2⟩

/-- Where running out is the only error, the cost is exact. -/
lemma Takes.exactly {x : Prog σ ε α} {Q Q' : α → σ → Prop} (h : Takes avail out x n Q s)
    (hx : Wp x out Q' s) : Exactly avail out x n (fun a s' => Q a s' ∧ Q' a s') s := by
  refine (h.and hx).mono (fun a s' h' => ⟨?_, h'.1.2, h'.2⟩) fun e he => ?_
  · have heq := h'.1.1
    omega
  · exact iff_of_true he.2 (he.1 he.2)

/-- The exact cost of a program whose first part runs out or returns. -/
lemma Takes.bind_exactly {x : Prog σ ε α} {f : α → Prog σ ε β} {P P' : α → σ → Prop}
    {Q : β → σ → Prop} (h : Takes avail out x n P s) (hx : Wp x out P' s)
    (hf : ∀ a s', P a s' → P' a s' → Exactly avail out (f a) n' Q s') :
    Exactly avail out (x >>= f) (n + n') Q s := by
  have hboth : Wp x (fun e => out e ↔ avail s < n + n')
      (fun a s' => avail s' + n = avail s ∧ P a s' ∧ P' a s') s := by
    refine (h.and hx).mono (fun a s' h' => ⟨h'.1.1, h'.1.2, h'.2⟩) fun e he => ?_
    exact iff_of_true he.2 (Nat.lt_add_right n' (he.1 he.2))
  refine hboth.bind fun a s' h' => (hf a s' h'.2.1 h'.2.2).mono (fun b s'' h'' => ⟨?_, h''.2⟩)
    fun e he => he.trans ?_
  · have h₁ := h'.1
    have h₂ := h''.1
    omega
  · have h₁ := h'.1
    omega

/-- A rest that cannot run out. -/
lemma Exactly.bind_free {x : Prog σ ε α} {f : α → Prog σ ε β} {P : α → σ → Prop} {Q : β → σ → Prop}
    (h : Exactly avail out x n P s) (hf : ∀ a s', P a s' → Wp (f a) (fun e => ¬out e) Q s') :
    Exactly avail out (x >>= f) n Q s := by
  refine Wp.bind h fun a s' h' => (hf a s' h'.2).mono (fun b s'' h'' => ⟨h'.1, h''⟩) fun e he => ?_
  exact iff_of_false he (not_lt.mpr h'.1)

/-- A step that takes nothing, in front. -/
lemma exactly_bind_free {x : Prog σ ε α} {f : α → Prog σ ε β} {Q : β → σ → Prop}
    (h : Wp x (fun _ => False) (fun a s' => avail s' = avail s ∧ Exactly avail out (f a) n Q s') s) :
    Exactly avail out (x >>= f) n Q s := by
  have hx : Wp x (fun e => out e ↔ avail s < n)
      (fun a s' => avail s' = avail s ∧ Exactly avail out (f a) n Q s') s :=
    h.mono (fun _ _ h' => h') fun e he => he.elim
  refine hx.bind fun a s' h' => ?_
  obtain ⟨heq, h'⟩ := h'
  unfold Exactly at h'
  rwa [heq] at h'

/-- A program runs out if and only if there are too few units. -/
theorem Exactly.iff {x : Prog σ ε α} {Q : α → σ → Prop} (h : Exactly avail out x n Q s) :
    (∃ e, x s = .error e ∧ out e) ↔ avail s < n := by
  constructor
  · rintro ⟨e, hx, ho⟩
    exact (Wp.error h hx).mp ho
  · intro hlt
    cases hx : x s with
    | ok r =>
      obtain ⟨a, s'⟩ := r
      exact absurd hlt (not_lt.mpr (Wp.ok h hx).1)
    | error e => exact ⟨e, rfl, (Wp.error h hx).mpr hlt⟩

/-- The cost over a part of the state. -/
lemma takes_zoom {τ : Type} {get : σ → τ} {put : σ → τ → σ} {avail : τ → ℕ} {x : Prog τ ε α}
    {Q : α → σ → Prop} (hput : ∀ s t, get (put s t) = t)
    (h : Takes avail out x n (fun a t => Q a (put s t)) (get s)) :
    Takes (fun s => avail (get s)) out (zoom get put x) n Q s := by
  refine wp_zoom (Wp.post h fun a t h' => ⟨?_, h'.2⟩)
  show avail (get (put s t)) + n = avail (get s)
  rw [hput]
  exact h'.1

lemma exactly_zoom {τ : Type} {get : σ → τ} {put : σ → τ → σ} {avail : τ → ℕ} {x : Prog τ ε α}
    {Q : α → σ → Prop} (h : Exactly avail out x n (fun a t => Q a (put s t)) (get s)) :
    Exactly (fun s => avail (get s)) out (zoom get put x) n Q s :=
  wp_zoom h

end Xv6Projects.Library
