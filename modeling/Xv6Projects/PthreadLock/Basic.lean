import Mathlib.Data.Fintype.Card
import Xv6Projects.Library.Transition

/-!
# The lock of `project03/pthread_lock_linux.c`

`NUM_THREADS` threads share the arrays `flag` and `turn`.  A thread climbs the
`NUM_THREADS - 1` levels of the outer loop of `lock`; at each level it announces
itself in `flag`, writes `turn` and then looks at the other threads one after
another.  Every read or write of an array element is one atomic step of the model,
and so is each test of a loop counter, which touches no shared data.
-/

namespace Xv6Projects.PthreadLock

open Library

/-- The place in the code where a thread is, with its local variables. -/
inductive Pc
  /-- Outside `lock` and `unlock`. -/
  | outside
  /-- At the test `i < NUM_THREADS - 1` of the outer loop. -/
  | level (i : ℕ)
  /-- Before `turn[i] = tid`. -/
  | writeTurn (i : ℕ)
  /-- At the test `other < NUM_THREADS` of the inner loop. -/
  | scan (i other : ℕ)
  /-- At the start of the spin test for `other`. -/
  | spin (i other : ℕ)
  /-- Inside the spin test, with the value of `flag[other]` already read. -/
  | gotOther (i other v : ℕ)
  /-- Inside the spin test, with the value of `flag[tid]` already read. -/
  | gotOwn (i other w : ℕ)
  /-- Inside the spin test, before the read of `turn[i]`. -/
  | readTurn (i other : ℕ)
  /-- Between the return of `lock` and the write of `unlock`. -/
  | critical
deriving DecidableEq, Repr

/-- The shared arrays and the place of every thread.  The arrays are indexed by thread
identifiers and by levels; `turn` holds thread identifiers as numbers. -/
structure State (N : ℕ) where
  flag : ℕ → ℕ
  turn : ℕ → ℕ
  pc : Fin N → Pc

variable {N : ℕ}

namespace State

/-- The global arrays are zero before the threads start. -/
def init (N : ℕ) : State N where
  flag := fun _ => 0
  turn := fun _ => 0
  pc := fun _ => .outside

/-- A step that touches no shared data. -/
def goto (s : State N) (t : Fin N) (p : Pc) : State N :=
  { s with pc := Function.update s.pc t p }

/-- The write `flag[tid] = v`. -/
def setFlag (s : State N) (t : Fin N) (v : ℕ) : State N :=
  { s with flag := Function.update s.flag t v }

/-- The write `turn[i] = tid`. -/
def setTurn (s : State N) (t : Fin N) (i : ℕ) : State N :=
  { s with turn := Function.update s.turn i t }

@[simp] lemma goto_flag (s : State N) (t : Fin N) (p : Pc) : (s.goto t p).flag = s.flag := rfl
@[simp] lemma goto_turn (s : State N) (t : Fin N) (p : Pc) : (s.goto t p).turn = s.turn := rfl
@[simp] lemma goto_pc (s : State N) (t : Fin N) (p : Pc) :
    (s.goto t p).pc = Function.update s.pc t p := rfl
@[simp] lemma setFlag_flag (s : State N) (t : Fin N) (v : ℕ) :
    (s.setFlag t v).flag = Function.update s.flag t v := rfl
@[simp] lemma setFlag_turn (s : State N) (t : Fin N) (v : ℕ) : (s.setFlag t v).turn = s.turn := rfl
@[simp] lemma setFlag_pc (s : State N) (t : Fin N) (v : ℕ) : (s.setFlag t v).pc = s.pc := rfl
@[simp] lemma setTurn_flag (s : State N) (t : Fin N) (i : ℕ) : (s.setTurn t i).flag = s.flag := rfl
@[simp] lemma setTurn_turn (s : State N) (t : Fin N) (i : ℕ) :
    (s.setTurn t i).turn = Function.update s.turn i t := rfl
@[simp] lemma setTurn_pc (s : State N) (t : Fin N) (i : ℕ) : (s.setTurn t i).pc = s.pc := rfl

end State

/-- One atomic step of thread `t`.  C leaves open which operand of
`flag[other] < flag[tid]` is read first; `ownFirst` makes that choice. -/
def step (s : State N) (t : Fin N) (ownFirst : Bool) : State N :=
  match s.pc t with
  | .outside => s.goto t (.level 0)
  | .level i =>
      if i < N - 1 then (s.setFlag t (i + 1)).goto t (.writeTurn i) else s.goto t .critical
  | .writeTurn i => (s.setTurn t i).goto t (.scan i 0)
  | .scan i other =>
      if other < N then
        if other = t then s.goto t (.scan i (other + 1)) else s.goto t (.spin i other)
      else s.goto t (.level (i + 1))
  | .spin i other =>
      if ownFirst then s.goto t (.gotOwn i other (s.flag t))
      else s.goto t (.gotOther i other (s.flag other))
  | .gotOther i other v =>
      if v < s.flag t then s.goto t (.scan i (other + 1)) else s.goto t (.readTurn i other)
  | .gotOwn i other w =>
      if s.flag other < w then s.goto t (.scan i (other + 1)) else s.goto t (.readTurn i other)
  | .readTurn i other =>
      if s.turn i ≠ t then s.goto t (.scan i (other + 1)) else s.goto t (.spin i other)
  -- `unlock`
  | .critical => (s.setFlag t 0).goto t .outside

/-- The states of all interleavings of calls of `lock` and `unlock` by `N` threads. -/
def Reach (N : ℕ) : State N → Prop :=
  Reachable (· = State.init N) (fun s (l : Fin N × Bool) s' => s' = step s l.1 l.2)

/-- The number of iterations of the outer loop a thread has finished since it entered
`lock`, until it executes `unlock`. -/
def Pc.finished (N : ℕ) : Pc → ℕ
  | .outside => 0
  | .level i | .writeTurn i | .scan i _ | .spin i _ | .gotOther i _ _ | .gotOwn i _ _
  | .readTurn i _ => i
  | .critical => N - 1

end Xv6Projects.PthreadLock
