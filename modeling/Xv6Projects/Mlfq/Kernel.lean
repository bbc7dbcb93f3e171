import Mathlib.Data.Fintype.Card
import Mathlib.Data.Finset.Card
import Mathlib.Data.List.FinRange
import Mathlib.Tactic

/-!
# The process table of the multilevel feedback queue scheduler (project02)

The part of `proc.c` that concerns scheduling: the process table, its ticket
counters, and the functions that change them.  A function that runs under
`ptable.lock` is one step of the model; it fails (`none`) when the lock is already
held, because `acquire` then panics.
-/

namespace Xv6Projects.Mlfq

/-- The number of process slots. -/
def NPROC : ℕ := 64

instance : NeZero NPROC := ⟨by decide⟩

/-- A slot of the process table. -/
abbrev Slot := Fin NPROC

/-- `enum procstate`. -/
inductive ProcState
  | unused | embryo | sleeping | runnable | running | zombie
deriving DecidableEq, Repr

/-! `enum procQueue`.  Its values are stored as 32-bit unsigned numbers, so the `-1` that
`exit` stores is the largest one. -/

def L0 : ℕ := 0
def L1 : ℕ := 1
def L2 : ℕ := 2
def L3 : ℕ := 3
def MoQ : ℕ := 4
def noQueue : ℕ := 4294967295

/-- An `int` after an arithmetic operation: the value modulo `2 ^ 32`, as a signed number. -/
def int32 (x : ℤ) : ℤ := (x + 2147483648) % 4294967296 - 2147483648

/-- An `int` converted to an unsigned number. -/
def toUint (x : ℤ) : ℕ := (x % 4294967296).toNat

/-- What a process can sleep on. -/
inductive Chan
  | null
  /-- `&ticks`. -/
  | ticks
  /-- The address of a process table entry, the channel of `wait`. -/
  | proc (p : Slot)
  /-- Any other kernel address. -/
  | addr (a : ℕ)
deriving DecidableEq, Repr

/-- The fields of `struct proc` that scheduling and process management use.  The slot `np`
of a `fork` in progress, a local variable on the kernel stack of the forking process, is
kept in `np`. -/
structure Proc where
  state : ProcState
  pid : ℤ
  parent : Option Slot
  chan : Chan
  killed : Bool
  qlev : ℕ
  seq : ℤ
  tick : ℤ
  priority : ℤ
  np : Option Slot
deriving DecidableEq, Repr

/-- A zeroed table entry. -/
def Proc.zero : Proc where
  state := .unused
  pid := 0
  parent := none
  chan := .null
  killed := false
  qlev := 0
  seq := 0
  tick := 0
  priority := 0
  np := none

/-- `ptable`, with the globals `nextpid`, `initproc` and `global_tick`. -/
structure Kernel where
  locked : Bool
  proc : Slot → Proc
  l0Cnt : ℤ
  l1Cnt : ℤ
  l2Cnt : ℤ
  l3Cnt : ℤ
  moqActive : ℤ
  moqSz : ℤ
  moqCnt : ℤ
  nextpid : ℤ
  initproc : Option Slot
  globalTick : ℕ

namespace Kernel

/-- Replace one table entry. -/
def setProc (k : Kernel) (i : Slot) (p : Proc) : Kernel :=
  { k with proc := Function.update k.proc i p }

/-- Change every table entry in the same way. -/
def mapProc (k : Kernel) (f : Proc → Proc) : Kernel :=
  { k with proc := fun i => f (k.proc i) }

@[simp] lemma setProc_proc (k : Kernel) (i : Slot) (p : Proc) :
    (k.setProc i p).proc = Function.update k.proc i p := rfl

section SetProc
variable (k : Kernel) (i : Slot) (p : Proc)

@[simp] lemma setProc_locked : (k.setProc i p).locked = k.locked := rfl
@[simp] lemma setProc_l0Cnt : (k.setProc i p).l0Cnt = k.l0Cnt := rfl
@[simp] lemma setProc_l1Cnt : (k.setProc i p).l1Cnt = k.l1Cnt := rfl
@[simp] lemma setProc_l2Cnt : (k.setProc i p).l2Cnt = k.l2Cnt := rfl
@[simp] lemma setProc_l3Cnt : (k.setProc i p).l3Cnt = k.l3Cnt := rfl
@[simp] lemma setProc_moqActive : (k.setProc i p).moqActive = k.moqActive := rfl
@[simp] lemma setProc_moqSz : (k.setProc i p).moqSz = k.moqSz := rfl
@[simp] lemma setProc_moqCnt : (k.setProc i p).moqCnt = k.moqCnt := rfl
@[simp] lemma setProc_nextpid : (k.setProc i p).nextpid = k.nextpid := rfl
@[simp] lemma setProc_initproc : (k.setProc i p).initproc = k.initproc := rfl
@[simp] lemma setProc_globalTick : (k.setProc i p).globalTick = k.globalTick := rfl

end SetProc

@[simp] lemma mapProc_proc (k : Kernel) (f : Proc → Proc) (i : Slot) :
    (k.mapProc f).proc i = f (k.proc i) := rfl

/-- The state after `pinit`. -/
def pinit : Kernel where
  locked := false
  proc := fun _ => Proc.zero
  l0Cnt := 0
  l1Cnt := 0
  l2Cnt := 0
  l3Cnt := 0
  moqActive := 0
  moqSz := 0
  moqCnt := 0
  nextpid := 1
  initproc := none
  globalTick := 0

/-- Write `global_tick`. -/
def setGlobalTick (k : Kernel) (n : ℕ) : Kernel := { k with globalTick := n }

@[simp] lemma setGlobalTick_globalTick (k : Kernel) (n : ℕ) :
    (k.setGlobalTick n).globalTick = n := rfl
@[simp] lemma setGlobalTick_proc (k : Kernel) (n : ℕ) : (k.setGlobalTick n).proc = k.proc := rfl
@[simp] lemma setGlobalTick_moqActive (k : Kernel) (n : ℕ) :
    (k.setGlobalTick n).moqActive = k.moqActive := rfl

/-- Write the lock word. -/
def setLocked (k : Kernel) (b : Bool) : Kernel := { k with locked := b }

section SetLocked
variable (k : Kernel) (b : Bool)

@[simp] lemma setLocked_locked : (k.setLocked b).locked = b := rfl
@[simp] lemma setLocked_proc : (k.setLocked b).proc = k.proc := rfl
@[simp] lemma setLocked_l0Cnt : (k.setLocked b).l0Cnt = k.l0Cnt := rfl
@[simp] lemma setLocked_l1Cnt : (k.setLocked b).l1Cnt = k.l1Cnt := rfl
@[simp] lemma setLocked_l2Cnt : (k.setLocked b).l2Cnt = k.l2Cnt := rfl
@[simp] lemma setLocked_l3Cnt : (k.setLocked b).l3Cnt = k.l3Cnt := rfl
@[simp] lemma setLocked_moqActive : (k.setLocked b).moqActive = k.moqActive := rfl
@[simp] lemma setLocked_moqSz : (k.setLocked b).moqSz = k.moqSz := rfl
@[simp] lemma setLocked_moqCnt : (k.setLocked b).moqCnt = k.moqCnt := rfl
@[simp] lemma setLocked_nextpid : (k.setLocked b).nextpid = k.nextpid := rfl
@[simp] lemma setLocked_initproc : (k.setLocked b).initproc = k.initproc := rfl
@[simp] lemma setLocked_globalTick : (k.setLocked b).globalTick = k.globalTick := rfl

end SetLocked

/-- `acquire(&ptable.lock)`, which panics when this CPU already holds the lock. -/
def acquire (k : Kernel) : Option Kernel :=
  if k.locked then none else some (k.setLocked true)

/-- `release(&ptable.lock)`. -/
def release (k : Kernel) : Kernel := k.setLocked false

/-- A function body that runs between `acquire` and `release`. -/
def withLock (k : Kernel) (f : Kernel → Kernel) : Option Kernel :=
  (acquire k).map fun k => release (f k)

lemma acquire_eq_some {k k' : Kernel} :
    acquire k = some k' ↔ k.locked = false ∧ k' = k.setLocked true := by
  cases h : k.locked <;> simp [acquire, h, eq_comm]

lemma withLock_eq_some {k k' : Kernel} {f : Kernel → Kernel} :
    withLock k f = some k' ↔ k.locked = false ∧ k' = (f (k.setLocked true)).setLocked false := by
  cases h : k.locked <;> simp [withLock, acquire, release, h, eq_comm]

/-- The slots in the order of the loops over the table. -/
def slots : List Slot := List.finRange NPROC

/-- Slot `i` becomes an embryo in `L0`. -/
def allocSlot (k : Kernel) (i : Slot) : Kernel :=
  { (k.setProc i { k.proc i with
        state := .embryo
        pid := k.nextpid
        qlev := L0
        seq := k.l0Cnt
        tick := 0
        priority := 0 }) with
    nextpid := int32 (k.nextpid + 1)
    l0Cnt := int32 (k.l0Cnt + 1) }

@[simp] lemma allocSlot_proc (k : Kernel) (i : Slot) : (allocSlot k i).proc =
    Function.update k.proc i { k.proc i with
      state := .embryo, pid := k.nextpid, qlev := L0, seq := k.l0Cnt, tick := 0,
      priority := 0 } := rfl

/-- The locked part of `allocproc`, which takes the first unused slot. -/
def allocproc (k : Kernel) : Option (Option Slot × Kernel) :=
  (acquire k).map fun k =>
    match slots.find? (fun i => (k.proc i).state = .unused) with
    | none => (none, release k)
    | some i => (some i, release (allocSlot k i))

/-- The failure path of `allocproc` and of `fork`, when no page is available: the slot is
given back. -/
def allocFail (k : Kernel) (i : Slot) : Kernel :=
  k.setProc i { k.proc i with state := .unused }

/-- Write `initproc`. -/
def setInitproc (k : Kernel) (i : Slot) : Kernel := { k with initproc := some i }

@[simp] lemma setInitproc_proc (k : Kernel) (i : Slot) : (k.setInitproc i).proc = k.proc := rfl

/-- `userinit`: the first process is created and made runnable. -/
def userinit (k : Kernel) : Option Kernel :=
  (allocproc k).bind fun
    | (none, _) => none
    | (some i, k) =>
        withLock (k.setInitproc i) fun k =>
          k.setProc i { k.proc i with state := .runnable }

/-- The end of `fork`: process `c` has copied itself into slot `i`. -/
def forkDone (k : Kernel) (c i : Slot) : Option Kernel :=
  withLock (k.setProc i { k.proc i with parent := some c }) fun k =>
    k.setProc i { k.proc i with state := .runnable }

/-- `wakeup1`. -/
def wakeup1 (k : Kernel) (chan : Chan) : Kernel :=
  k.mapProc fun p =>
    if p.state = .sleeping ∧ p.chan = chan then { p with state := .runnable } else p

/-- `wakeup`. -/
def wakeup (k : Kernel) (chan : Chan) : Option Kernel :=
  withLock k fun k => wakeup1 k chan

/-- The channel `curproc->parent`. -/
def parentChan : Option Slot → Chan
  | none => .null
  | some i => .proc i

/-- The children of `c` become children of `initproc`. -/
def adopt (k : Kernel) (c : Slot) : Kernel :=
  k.mapProc fun p => if p.parent = some c then { p with parent := k.initproc } else p

/-- Pass the children of `c` to `initproc`, and wake it up if one of them is a zombie. -/
def reparent (k : Kernel) (c : Slot) : Kernel :=
  if slots.any fun i => (k.proc i).parent = some c ∧ (k.proc i).state = .zombie then
    wakeup1 (adopt k c) (parentChan k.initproc)
  else adopt k c

/-- Process `c` becomes a zombie and leaves its queue. -/
def exitSlot (k : Kernel) (c : Slot) : Kernel :=
  { (k.setProc c { k.proc c with
        state := .zombie
        qlev := noQueue
        seq := -1
        tick := -1
        priority := -1 }) with
    moqSz := if (k.proc c).qlev = MoQ then int32 (k.moqSz - 1) else k.moqSz }

/-- The locked part of `exit` for process `c`. -/
def exit (k : Kernel) (c : Slot) : Option Kernel :=
  -- `init exiting`
  if k.initproc = some c then none
  else withLock k fun k =>
    exitSlot (reparent (wakeup1 k (parentChan (k.proc c).parent)) c) c

/-- The zombie in slot `i` is given back. -/
def reap (k : Kernel) (i : Slot) : Kernel :=
  k.setProc i { k.proc i with
    state := .unused
    pid := 0
    parent := none
    killed := false }

/-- `wait` for process `c`, up to its return or its sleep: the first zombie child is
reaped; without children, or when killed, it returns; otherwise it sleeps. -/
def wait (k : Kernel) (c : Slot) : Option Kernel :=
  withLock k fun k =>
    match slots.find? (fun i => (k.proc i).parent = some c ∧ (k.proc i).state = .zombie) with
    | some i => reap k i
    | none =>
        if (slots.any fun i => (k.proc i).parent = some c) ∧ (k.proc c).killed = false then
          k.setProc c { k.proc c with chan := .proc c, state := .sleeping }
        else k

/-- `sleep`, up to the switch to the scheduler. -/
def sleep (k : Kernel) (c : Slot) (chan : Chan) : Option Kernel :=
  withLock k fun k => k.setProc c { k.proc c with chan := chan, state := .sleeping }

/-- `yield`, up to the switch to the scheduler. -/
def yield (k : Kernel) (c : Slot) : Option Kernel :=
  withLock k fun k => k.setProc c { k.proc c with state := .runnable }

/-- `kill`: the first slot with this pid is marked, and woken up if it sleeps. -/
def kill (k : Kernel) (pid : ℤ) : Option Kernel :=
  withLock k fun k =>
    match slots.find? (fun i => (k.proc i).pid = pid) with
    | none => k
    | some i =>
        k.setProc i { k.proc i with
          killed := true
          state := if (k.proc i).state = .sleeping then .runnable else (k.proc i).state }

/-- The loop of `priority_boost`. -/
def boost (k : Kernel) : Kernel :=
  { (k.mapProc fun p => if p.qlev = MoQ then p else { p with qlev := L0, tick := 0 }) with
    l0Cnt := slots.foldl
      (fun n i => if (k.proc i).qlev = MoQ then n else int32 (n + 1)) k.l0Cnt }

/-- `priority_boost`. -/
def priorityBoost (k : Kernel) : Option Kernel :=
  withLock k boost

/-- The first part of `setpriority`, under the lock: the slot with the given pid. -/
def setpriorityFind (k : Kernel) (pid : ℤ) : Option (Option Slot) :=
  (acquire k).map fun k => slots.find? (fun i => (k.proc i).pid = pid)

/-- `setpriority`, with its return value. -/
def setpriority (k : Kernel) (pid priority : ℤ) : Option (ℤ × Kernel) :=
  if priority < 0 ∨ 10 < priority then some (-2, k)
  else (setpriorityFind k pid).map fun
    | none => (-1, k)
    | some i => (0, k.setProc i { k.proc i with priority := priority })

/-- Slot `i` moves to the MoQ. -/
def monopolySlot (k : Kernel) (i : Slot) : Kernel :=
  { (k.setProc i { k.proc i with qlev := MoQ, seq := k.moqCnt }) with
    moqCnt := int32 (k.moqCnt + 1)
    moqSz := int32 (k.moqSz + 1) }

/-- The loop of `setmonopoly` for the caller `c`: the new state, and the value of an early
return (which leaves the lock held) or whether a slot was found. -/
def setmonopolyLoop (c : Slot) (pid : ℤ) : List Slot → Bool → Kernel → (ℤ ⊕ Bool) × Kernel
  | [], found, k => (.inr found, k)
  | i :: is, found, k =>
      if (k.proc i).pid = pid then
        if (k.proc i).qlev = MoQ then (.inl (-3), k)
        else if (k.proc c).pid = (k.proc i).pid then (.inl (-4), k)
        else setmonopolyLoop c pid is true (monopolySlot k i)
      else setmonopolyLoop c pid is found k

/-- The password of `setmonopoly`. -/
def password : ℤ := 2021042842

/-- `setmonopoly` called by process `c`, with its return value. -/
def setmonopoly (k : Kernel) (c : Slot) (pid pw : ℤ) : Option (ℤ × Kernel) :=
  if pw ≠ password then some (-2, k)
  else (acquire k).map fun k =>
    match setmonopolyLoop c pid slots false k with
    | (.inl r, k) => (r, k)
    | (.inr found, k) => (if found then k.moqSz else -1, release k)

/-- `monopolize`. -/
def monopolize (k : Kernel) : Kernel := { k with moqActive := 1 }

/-- `unmonopolize`, with the `reset_global_tick` of `trap.c`. -/
def unmonopolize (k : Kernel) : Kernel := { k with moqActive := 0, globalTick := 0 }

/-- `inc_LevCnt`. -/
def incLevCnt (k : Kernel) (qlev : ℤ) : Kernel :=
  if qlev = 0 then { k with l0Cnt := int32 (k.l0Cnt + 1) }
  else if qlev = 1 then { k with l1Cnt := int32 (k.l1Cnt + 1) }
  else if qlev = 2 then { k with l2Cnt := int32 (k.l2Cnt + 1) }
  else if qlev = 3 then { k with l3Cnt := int32 (k.l3Cnt + 1) }
  else if qlev = 4 then { k with moqCnt := int32 (k.moqCnt + 1) }
  else k

/-- `get_LevCnt`. -/
def getLevCnt (k : Kernel) (qlev : ℤ) : ℤ :=
  if qlev = 0 then k.l0Cnt
  else if qlev = 1 then k.l1Cnt
  else if qlev = 2 then k.l2Cnt
  else if qlev = 3 then k.l3Cnt
  else if qlev = 4 then k.moqCnt
  else -1

/-! ### The scheduler -/

/-- The comparison of `scheduler` when monopoly mode is off: `p` replaces `best`. -/
def schedBefore (p best : Proc) : Bool :=
  if p.qlev < best.qlev then true
  else if best.qlev = p.qlev then
    if best.qlev = L3 then
      if best.priority < p.priority then true
      else if best.priority = p.priority then decide (p.seq < best.seq)
      else false
    else decide (p.seq < best.seq)
  else false

/-- The loop over the table, with `scheduled_proc` and `MoQ_proc`. -/
def schedulerLoop (k : Kernel) : List Slot → Option Slot → Option Slot →
    Option Slot × Option Slot
  | [], scheduled, moq => (scheduled, moq)
  | i :: is, scheduled, moq =>
      if (k.proc i).state ≠ .runnable then schedulerLoop k is scheduled moq
      else if k.moqActive ≠ 0 then
        if k.moqSz = 0 then (scheduled, moq)
        else if (k.proc i).qlev = MoQ then
          match moq with
          | some b =>
              if (k.proc i).seq < (k.proc b).seq then schedulerLoop k is scheduled (some i)
              else schedulerLoop k is scheduled moq
          | none => schedulerLoop k is scheduled (some i)
        else schedulerLoop k is scheduled moq
      else
        match scheduled with
        | some b =>
            if schedBefore (k.proc i) (k.proc b) then schedulerLoop k is (some i) moq
            else schedulerLoop k is scheduled moq
        | none => schedulerLoop k is (some i) moq

/-- The state in which the process dispatched by a pass runs.  A process dispatched from
`sleep` clears its channel. -/
def dispatched (k : Kernel) : Option Slot → Kernel
  | some i => k.setProc i { k.proc i with state := .running, chan := .null }
  | none => k

/-- The body of the loop of `scheduler`: the process it dispatches, and the state in which
that process runs. -/
def schedulerBody (k : Kernel) : Option Slot × Kernel :=
  match schedulerLoop k slots none none with
  | (scheduled, moq) =>
      if k.moqActive ≠ 0 then
        match moq with
        | some m => (some m, dispatched k (some m))
        | none =>
            (scheduled, dispatched (if k.moqSz = 0 then unmonopolize k else k) scheduled)
      else (scheduled, dispatched k scheduled)

/-- One pass of the loop of `scheduler`. -/
def scheduler (k : Kernel) : Option (Option Slot × Kernel) :=
  (acquire k).map fun k => ((schedulerBody k).1, release (schedulerBody k).2)

end Kernel

end Xv6Projects.Mlfq
