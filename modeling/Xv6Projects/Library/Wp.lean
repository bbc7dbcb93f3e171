import Mathlib.Logic.Basic

/-!
# Weakest preconditions of programs with state and failure

A program reads and writes a state and may fail.  `Wp x E Q s` says that `x`, run from
`s`, ends in a result and a state that satisfy `Q`, or fails with an error that
satisfies `E`.  There is one rule for each way to build a program.
-/

namespace Xv6Projects.Library

/-- Programs over the state `σ` that fail with `ε`. -/
abbrev Prog (σ ε α : Type) := StateT σ (Except ε) α

variable {σ τ ε α β : Type} {E E' : ε → Prop} {s : σ}

/-- The weakest precondition of `x` for `Q`, with the errors `E` allowed. -/
def Wp (x : Prog σ ε α) (E : ε → Prop) (Q : α → σ → Prop) (s : σ) : Prop :=
  match x s with
  | .ok (a, s') => Q a s'
  | .error e => E e

lemma Wp.ok {x : Prog σ ε α} {Q : α → σ → Prop} (h : Wp x E Q s) {a : α} {s' : σ}
    (hx : x s = .ok (a, s')) : Q a s' := by
  rwa [Wp, hx] at h

lemma Wp.error {x : Prog σ ε α} {Q : α → σ → Prop} (h : Wp x E Q s) {e : ε}
    (hx : x s = .error e) : E e := by
  rwa [Wp, hx] at h

/-- Without an error there is a result. -/
lemma Wp.exists_ok {x : Prog σ ε α} {Q : α → σ → Prop} (h : Wp x E Q s) (hE : ∀ e, ¬E e) :
    ∃ a s', x s = .ok (a, s') ∧ Q a s' := by
  unfold Wp at h
  cases hx : x s with
  | ok r => rw [hx] at h; exact ⟨r.1, r.2, rfl, h⟩
  | error e => rw [hx] at h; exact absurd h (hE e)

/-- Weaken the postcondition and the errors. -/
lemma Wp.mono {x : Prog σ ε α} {Q Q' : α → σ → Prop} (h : Wp x E Q s)
    (hQ : ∀ a s', Q a s' → Q' a s') (hE : ∀ e, E e → E' e) : Wp x E' Q' s := by
  unfold Wp at h ⊢
  cases hx : x s with
  | ok r => rw [hx] at h; exact hQ r.1 r.2 h
  | error e => rw [hx] at h; exact hE e h

/-- Weaken the postcondition. -/
lemma Wp.post {x : Prog σ ε α} {Q Q' : α → σ → Prop} (h : Wp x E Q s)
    (hQ : ∀ a s', Q a s' → Q' a s') : Wp x E Q' s :=
  h.mono hQ fun _ he => he

/-- Two facts about one program. -/
lemma Wp.and {x : Prog σ ε α} {Q Q' : α → σ → Prop} (h : Wp x E Q s) (h' : Wp x E' Q' s) :
    Wp x (fun e => E e ∧ E' e) (fun a s' => Q a s' ∧ Q' a s') s := by
  unfold Wp at h h' ⊢
  cases hx : x s with
  | ok r => rw [hx] at h h'; exact ⟨h, h'⟩
  | error e => rw [hx] at h h'; exact ⟨h, h'⟩

lemma wp_pure {Q : α → σ → Prop} {a : α} (h : Q a s) : Wp (pure a) E Q s := h

lemma wp_throw {Q : α → σ → Prop} {e : ε} (h : E e) : Wp (throw e : Prog σ ε α) E Q s := h

lemma wp_get {Q : σ → σ → Prop} (h : Q s s) : Wp (get : Prog σ ε σ) E Q s := h

lemma wp_modify {Q : PUnit → σ → Prop} {f : σ → σ} (h : Q ⟨⟩ (f s)) :
    Wp (modify f : Prog σ ε PUnit) E Q s := h

/-- The second program runs from the state the first one leaves. -/
lemma wp_bind {x : Prog σ ε α} {f : α → Prog σ ε β} {Q : β → σ → Prop}
    (h : Wp x E (fun a s' => Wp (f a) E Q s') s) : Wp (x >>= f) E Q s := by
  unfold Wp at h ⊢
  change match (x s).bind fun r => f r.1 r.2 with
    | .ok (a, s') => Q a s'
    | .error e => E e
  cases hx : x s with
  | ok r => rw [hx] at h; exact h
  | error e => rw [hx] at h; exact h

/-- A program with a known specification, followed by another. -/
lemma Wp.bind {x : Prog σ ε α} {f : α → Prog σ ε β} {P : α → σ → Prop} {Q : β → σ → Prop}
    (h : Wp x E P s) (hf : ∀ a s', P a s' → Wp (f a) E Q s') : Wp (x >>= f) E Q s :=
  wp_bind (h.post hf)

/-- The first program has fewer errors than the second. -/
lemma Wp.bind_errors {x : Prog σ ε α} {f : α → Prog σ ε β} {P : α → σ → Prop} {Q : β → σ → Prop}
    (h : Wp x E P s) (hE : ∀ e, E e → E' e) (hf : ∀ a s', P a s' → Wp (f a) E' Q s') :
    Wp (x >>= f) E' Q s :=
  wp_bind (h.mono hf hE)

lemma wp_ite {c : Prop} [Decidable c] {x y : Prog σ ε α} {Q : α → σ → Prop}
    (hx : c → Wp x E Q s) (hy : ¬c → Wp y E Q s) : Wp (if c then x else y) E Q s := by
  by_cases h : c
  · rw [if_pos h]
    exact hx h
  · rw [if_neg h]
    exact hy h

/-- A loop over a list, with an invariant on the elements that are left. -/
lemma wp_forM {f : α → Prog σ ε PUnit} {I : List α → σ → Prop}
    (hstep : ∀ a l s, I (a :: l) s → Wp (f a) E (fun _ s' => I l s') s) (l : List α) :
    ∀ s, I l s → Wp (l.forM f) E (fun _ s' => I [] s') s := by
  induction l with
  | nil => exact fun s h => wp_pure h
  | cons a l ih =>
    intro s h
    have hcons : (a :: l).forM f = f a >>= fun _ => l.forM f := rfl
    rw [hcons]
    exact (hstep a l s h).bind fun _ s' h' => ih s' h'

/-- The first program fails, and so does the whole. -/
lemma bind_error {x : Prog σ ε α} {f : α → Prog σ ε β} {e : ε} (h : x s = .error e) :
    (x >>= f) s = .error e := by
  show (x s).bind _ = _
  rw [h]
  rfl

/-- The first program returns. -/
lemma bind_ok {x : Prog σ ε α} {f : α → Prog σ ε β} {a : α} {s' : σ} (h : x s = .ok (a, s')) :
    (x >>= f) s = f a s' := by
  show (x s).bind _ = _
  rw [h]
  rfl

/-- A program over a part of the state. -/
def zoom (get : σ → τ) (put : σ → τ → σ) (x : Prog τ ε α) : Prog σ ε α := fun s =>
  (x (get s)).map fun r => (r.1, put s r.2)

lemma wp_zoom {get : σ → τ} {put : σ → τ → σ} {x : Prog τ ε α} {Q : α → σ → Prop}
    (h : Wp x E (fun a t => Q a (put s t)) (get s)) : Wp (zoom get put x) E Q s := by
  unfold Wp zoom at *
  cases hx : x (get s) with
  | ok r => rw [hx] at h; exact h
  | error e => rw [hx] at h; exact h

lemma zoom_error {get : σ → τ} {put : σ → τ → σ} {x : Prog τ ε α} {e : ε}
    (h : x (get s) = .error e) : zoom get put x s = .error e := by
  rw [zoom, h]
  rfl

lemma zoom_ok {get : σ → τ} {put : σ → τ → σ} {x : Prog τ ε α} {a : α} {t : τ}
    (h : x (get s) = .ok (a, t)) : zoom get put x s = .ok (a, put s t) := by
  rw [zoom, h]
  rfl

-- from here on programs are reasoned about with the rules above
attribute [irreducible] Wp

end Xv6Projects.Library
