import Xv6Projects.Library.Transition
import Xv6Projects.Mlfq.Kernel

/-!
# The runs of the scheduler system (project02)

The timer part of `trap`, the operations a kernel can perform, and the states they
reach from `pinit`.
-/

namespace Xv6Projects.Mlfq

open Library

namespace Kernel

/-- The change of queue at the end of a time slice in `trap`. -/
def demote (k : Kernel) (c : Slot) : Kernel :=
  let p := k.proc c
  if p.qlev = L0 then
    if p.pid.tmod 2 ≠ 0 then
      incLevCnt (k.setProc c { p with qlev := L1, seq := getLevCnt k 1, tick := 0 }) 1
    else
      incLevCnt (k.setProc c { p with qlev := L2, seq := getLevCnt k 2, tick := 0 }) 2
  else if p.qlev = L1 ∨ p.qlev = L2 then
    incLevCnt (k.setProc c { p with qlev := L3, seq := getLevCnt k 3, tick := 0 }) 3
  else if p.qlev = L3 then
    k.setProc c { p with
      priority := if 0 < p.priority then p.priority - 1 else p.priority
      tick := 0 }
  else k

/-- `myproc()->tick >= myproc()->qlev * 2 + 2`, an unsigned comparison. -/
def sliceOver (p : Proc) : Prop := (p.qlev * 2 + 2) % 4294967296 ≤ toUint p.tick

instance (p : Proc) : Decidable (sliceOver p) := inferInstanceAs (Decidable (_ ≤ _))

/-- The counters of `trap` on a tick that finds process `c` running. -/
def countTick (k : Kernel) (c : Slot) : Kernel :=
  (k.setProc c { k.proc c with tick := int32 ((k.proc c).tick + 1) }).setGlobalTick
    ((k.globalTick + 1) % 4294967296)

/-- The boost of `trap`: every hundredth tick outside monopoly mode. -/
def boostTick (k : Kernel) : Option Kernel :=
  if 100 ≤ k.globalTick then priorityBoost (k.setGlobalTick 0) else some k

/-- `trap` for a timer interrupt that finds process `c` running; `user` tells whether it
was running in user mode. -/
def timerTrap (k : Kernel) (c : Slot) (user : Bool) : Option Kernel :=
  (wakeup k .ticks).bind fun k =>
    if (k.proc c).killed ∧ user then exit k c
    else if (k.proc c).state = .running then
      let k := countTick k c
      if k.moqActive ≠ 0 then some k
      else (boostTick k).bind fun k =>
        if (k.proc c).qlev ≠ MoQ ∧ sliceOver (k.proc c) then yield (demote k c) c else some k
    else some k

end Kernel

/-- The operations of the system.  The slot is the process that performs the operation. -/
inductive Op
  | userinit
  /-- A pass of the scheduler loop. -/
  | scheduler
  /-- `fork` up to the return of the locked part of `allocproc`. -/
  | forkAlloc (c : Slot)
  /-- The rest of a `fork` for which no page was available. -/
  | forkFail (c : Slot)
  /-- The rest of a successful `fork`. -/
  | forkDone (c : Slot)
  | exit (c : Slot)
  | wait (c : Slot)
  | kill (c : Slot) (pid : ℤ)
  | sleep (c : Slot) (chan : Chan)
  /-- `wakeup`, by a process or by an interrupt handler. -/
  | wakeup (chan : Chan)
  | yield (c : Slot)
  | tick (c : Slot) (user : Bool)
  | priorityBoost
  | setpriority (c : Slot) (pid priority : ℤ)
  | setmonopoly (c : Slot) (pid pw : ℤ)
  | monopolize (c : Slot)
  | unmonopolize (c : Slot)
deriving DecidableEq, Repr

/-- Process `c` is running and not inside a `fork`. -/
def Ready (k : Kernel) (c : Slot) : Prop :=
  (k.proc c).state = .running ∧ (k.proc c).np = none

instance (k : Kernel) (c : Slot) : Decidable (Ready k c) := inferInstanceAs (Decidable (_ ∧ _))

open Kernel in
/-- One operation; `none` when it cannot be performed or panics. -/
def step (k : Kernel) : Op → Option Kernel
  | .userinit => if k.initproc = none then userinit k else none
  | .scheduler => (scheduler k).map Prod.snd
  | .forkAlloc c =>
      if Ready k c then
        (allocproc k).map fun
          | (none, k) => k
          | (some i, k) => k.setProc c { k.proc c with np := some i }
      else none
  | .forkFail c =>
      if (k.proc c).state = .running then
        (k.proc c).np.map fun i =>
          allocFail (k.setProc c { k.proc c with np := none }) i
      else none
  | .forkDone c =>
      if (k.proc c).state = .running then
        (k.proc c).np.bind fun i =>
          forkDone (k.setProc c { k.proc c with np := none }) c i
      else none
  | .exit c => if Ready k c then exit k c else none
  | .wait c => if Ready k c then wait k c else none
  | .kill c pid => if Ready k c then kill k pid else none
  | .sleep c chan => if Ready k c then sleep k c chan else none
  | .wakeup chan => wakeup k chan
  | .yield c => if Ready k c then yield k c else none
  | .tick c user =>
      -- the code of `fork` runs in kernel mode
      if (k.proc c).state = .running ∧ ((k.proc c).np = none ∨ user = false) then
        timerTrap k c user
      else none
  | .priorityBoost => priorityBoost k
  | .setpriority c pid priority =>
      if Ready k c then (setpriority k pid priority).map Prod.snd else none
  | .setmonopoly c pid pw =>
      if Ready k c then (setmonopoly k c pid pw).map Prod.snd else none
  | .monopolize c => if Ready k c then some (monopolize k) else none
  | .unmonopolize c => if Ready k c then some (unmonopolize k) else none

/-- The operation leads from one state to the other. -/
def Step (k : Kernel) (op : Op) (k' : Kernel) : Prop := step k op = some k'

/-- The states reachable from `pinit`. -/
def Reach : Kernel → Prop := Reachable (· = Kernel.pinit) Step

/-- A process that exists and has not exited. -/
def Proc.Live (p : Proc) : Prop := p.state ≠ .unused ∧ p.state ≠ .zombie

instance (p : Proc) : Decidable p.Live := inferInstanceAs (Decidable (_ ∧ _))

end Xv6Projects.Mlfq
