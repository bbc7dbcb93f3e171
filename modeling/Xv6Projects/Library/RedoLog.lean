import Mathlib.Data.Finset.Basic
import Mathlib.Logic.Function.Basic
import Xv6Projects.Library.Transition

/-!
# Redo logs and transactional stores

A redo log holds new values for some of the locations of a store.  Writing the values again does
no harm, so the log may be replayed any number of times.  What a redo log is for is a store whose
contents survive a crash: several users write to it, and a commit, when none of them is in the
middle of its writes, makes all that was written last.
-/

namespace Xv6Projects.Library

section Replay

variable {α β : Type*} [DecidableEq α]

/-- Write the values of a log to a store, the first one first. -/
def replay (l : List (α × β)) (f : α → β) : α → β :=
  l.foldl (fun g e => Function.update g e.1 e.2) f

@[simp] lemma replay_nil (f : α → β) : replay [] f = f := rfl

@[simp] lemma replay_cons (e : α × β) (l : List (α × β)) (f : α → β) :
    replay (e :: l) f = replay l (Function.update f e.1 e.2) := rfl

/-- A location that is not in the log keeps its value. -/
lemma replay_of_notMem {l : List (α × β)} {a : α} (h : a ∉ l.map Prod.fst) (f : α → β) :
    replay l f a = f a := by
  induction l generalizing f with
  | nil => rfl
  | cons e l ih =>
    rw [List.map_cons, List.mem_cons, not_or] at h
    rw [replay_cons, ih h.2, Function.update_of_ne h.1]

/-- The new value of a location in the log does not depend on the store. -/
lemma replay_of_mem {l : List (α × β)} {a : α} (h : a ∈ l.map Prod.fst) (f g : α → β) :
    replay l f a = replay l g a := by
  induction l generalizing f g with
  | nil => exact absurd h (List.not_mem_nil)
  | cons e l ih =>
    rw [replay_cons, replay_cons]
    by_cases hl : a ∈ l.map Prod.fst
    · exact ih hl _ _
    · obtain rfl : a = e.1 := (List.mem_cons.mp h).resolve_right hl
      rw [replay_of_notMem hl, replay_of_notMem hl, Function.update_self, Function.update_self]

/-- When no location is twice in the log, its new value is the one in the log. -/
lemma replay_of_nodup {l : List (α × β)} (hl : (l.map Prod.fst).Nodup) {a : α} {b : β}
    (h : (a, b) ∈ l) (f : α → β) : replay l f a = b := by
  induction l generalizing f with
  | nil => exact absurd h (List.not_mem_nil)
  | cons e l ih =>
    rw [List.map_cons, List.nodup_cons] at hl
    rw [replay_cons]
    rcases List.mem_cons.mp h with rfl | h
    · rw [replay_of_notMem hl.1, Function.update_self]
    · exact ih hl.2 h _

/-- A write to a location in the log makes no difference after the log is replayed. -/
lemma replay_update {l : List (α × β)} {a : α} (h : a ∈ l.map Prod.fst) (b : β) (f : α → β) :
    replay l (Function.update f a b) = replay l f := by
  ext x
  by_cases hx : x ∈ l.map Prod.fst
  · exact replay_of_mem hx _ _
  · rw [replay_of_notMem hx, replay_of_notMem hx, Function.update_of_ne]
    rintro rfl
    exact hx h

end Replay

/-! ### The transactional store -/

/-- What happens to a transactional store. -/
inductive TxnEvent (τ α β : Type*)
  | enter (t : τ)
  | write (t : τ) (a : α) (b : β)
  | leave (t : τ)
  | commit
  | crash

/-- A transactional store: the contents that survive a crash, the contents that its users see, and
the users that are in the middle of their writes. -/
structure TxnStore (τ α β : Type*) where
  durable : α → β
  current : α → β
  inside : Finset τ

namespace TxnStore

variable {τ α β : Type*} [DecidableEq τ] [DecidableEq α]

/-- One event.  A commit waits until nobody is in the middle of its writes; a crash loses what is
written since the last commit. -/
def next (x : TxnStore τ α β) : TxnEvent τ α β → Option (TxnStore τ α β)
  | .enter t => if t ∈ x.inside then none else some { x with inside := insert t x.inside }
  | .write t a b =>
      if t ∈ x.inside then some { x with current := Function.update x.current a b } else none
  | .leave t => if t ∈ x.inside then some { x with inside := x.inside.erase t } else none
  | .commit => if x.inside = ∅ then some { x with durable := x.current } else none
  | .crash => some { x with current := x.durable, inside := ∅ }

/-- The store with the same contents for its users and after a crash, and nobody inside. -/
def fresh (f : α → β) : TxnStore τ α β := ⟨f, f, ∅⟩

end TxnStore

end Xv6Projects.Library
