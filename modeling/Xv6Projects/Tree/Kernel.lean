import Mathlib.Data.Fintype.Card
import Mathlib.Data.List.FinRange
import Mathlib.Logic.Function.Basic
import Mathlib.Tactic
import Xv6Projects.Library.Transition

/-!
# Processes and their parents (Project01)

The part of `proc.c` by which processes are created, wait, exit and are reaped, with the system
call `sys_getgpid`.  A function that runs under `ptable.lock` is one step; `fork` gives the lock up
after `allocproc`, and is divided there and at its write of `np->parent`.  Any number of processes
can be `RUNNING`, one for each CPU.
-/

namespace Xv6Projects.Tree

open Library

/-- The number of process slots. -/
def NPROC : ℕ := 64

instance : NeZero NPROC := ⟨by decide⟩

/-- A slot of the process table. -/
abbrev Slot := Fin NPROC

/-- `enum procstate`. -/
inductive ProcState
  | unused | embryo | sleeping | runnable | running | zombie
deriving DecidableEq, Repr

/-- What a process can sleep on. -/
inductive Chan
  | null
  /-- The address of a process table entry, the channel of `wait`. -/
  | proc (p : Slot)
  /-- Any other kernel address. -/
  | addr (a : ℕ)
deriving DecidableEq, Repr

/-- How far a process has got in `fork`, with its local variable `np`. -/
inductive Fork
  /-- Not in `fork`. -/
  | no
  /-- Between the locked part of `allocproc` and the write of `np->parent`. -/
  | alloc (np : Slot)
  /-- `np->parent` is written. -/
  | linked (np : Slot)
deriving DecidableEq, Repr

/-- The slot that the fork creates. -/
def Fork.np : Fork → Option Slot
  | no => none
  | alloc np => some np
  | linked np => some np

@[simp] lemma Fork.np_no : Fork.no.np = none := rfl
@[simp] lemma Fork.np_alloc (np : Slot) : (Fork.alloc np).np = some np := rfl
@[simp] lemma Fork.np_linked (np : Slot) : (Fork.linked np).np = some np := rfl

/-- The fields of `struct proc` that process management uses, and the place in `fork`. -/
structure Proc where
  state : ProcState
  pid : ℤ
  parent : Option Slot
  chan : Chan
  killed : Bool
  fork : Fork
deriving DecidableEq, Repr

/-- A zeroed table entry. -/
def Proc.zero : Proc where
  state := .unused
  pid := 0
  parent := none
  chan := .null
  killed := false
  fork := .no

/-- `wakeup1`, for one process. -/
def Proc.wakeup1 (chan : Chan) (p : Proc) : Proc :=
  if p.state = .sleeping ∧ p.chan = chan then { p with state := .runnable } else p

/-- The process table, with the globals `nextpid` and `initproc`. -/
structure Kernel where
  proc : Slot → Proc
  nextpid : ℤ
  initproc : Option Slot

/-- An `int` after an arithmetic operation: the value modulo `2 ^ 32`, as a signed number. -/
def int32 (x : ℤ) : ℤ := (x + 2147483648) % 4294967296 - 2147483648

namespace Kernel

/-- Replace one table entry. -/
def setProc (k : Kernel) (i : Slot) (p : Proc) : Kernel :=
  { k with proc := Function.update k.proc i p }

/-- Change every table entry in the same way. -/
def mapProc (k : Kernel) (f : Proc → Proc) : Kernel :=
  { k with proc := fun i => f (k.proc i) }

@[simp] lemma setProc_self (k : Kernel) (i : Slot) (p : Proc) : (k.setProc i p).proc i = p := by
  simp [setProc]

lemma setProc_of_ne (k : Kernel) {i j : Slot} (p : Proc) (h : j ≠ i) :
    (k.setProc i p).proc j = k.proc j := by
  simp [setProc, Function.update_of_ne h]

@[simp] lemma setProc_initproc (k : Kernel) (i : Slot) (p : Proc) :
    (k.setProc i p).initproc = k.initproc := rfl

@[simp] lemma mapProc_proc (k : Kernel) (f : Proc → Proc) (i : Slot) :
    (k.mapProc f).proc i = f (k.proc i) := rfl

@[simp] lemma mapProc_initproc (k : Kernel) (f : Proc → Proc) :
    (k.mapProc f).initproc = k.initproc := rfl

/-- The state after `pinit`. -/
def pinit : Kernel where
  proc := fun _ => Proc.zero
  nextpid := 1
  initproc := none

/-- The slots in the order of the loops over the table. -/
def slots : List Slot := List.finRange NPROC

@[simp] lemma mem_slots (i : Slot) : i ∈ slots := List.mem_finRange i

/-- Slot `i` becomes an embryo with the next pid. -/
def allocSlot (k : Kernel) (i : Slot) : Kernel :=
  { k.setProc i { k.proc i with state := .embryo, pid := k.nextpid } with
    nextpid := int32 (k.nextpid + 1) }

/-- The locked part of `allocproc`, which takes the first unused slot. -/
def allocproc (k : Kernel) : Option Slot × Kernel :=
  match slots.find? (fun i => (k.proc i).state = .unused) with
  | none => (none, k)
  | some i => (some i, allocSlot k i)

/-- `userinit`: the first process is created and made runnable. -/
def userinit (k : Kernel) : Option Kernel :=
  match allocproc k with
  | (none, _) => none
  | (some i, k) =>
      some ({ k with initproc := some i }.setProc i { k.proc i with state := .runnable })

/-- `fork` by process `c`, up to the locked part of `allocproc`. -/
def forkAlloc (k : Kernel) (c : Slot) : Kernel :=
  match allocproc k with
  | (none, k) => k
  | (some np, k) => k.setProc c { k.proc c with fork := .alloc np }

/-- The failure path of `allocproc` and of `fork`, when no page is available: the slot is given
back. -/
def forkFail (k : Kernel) (c np : Slot) : Kernel :=
  (k.setProc np { k.proc np with state := .unused }).setProc c { k.proc c with fork := .no }

/-- `np->parent = curproc`, after `copyuvm` has succeeded. -/
def forkLink (k : Kernel) (c np : Slot) : Kernel :=
  (k.setProc np { k.proc np with parent := some c }).setProc c { k.proc c with fork := .linked np }

/-- The end of `fork`: the child becomes runnable. -/
def forkDone (k : Kernel) (c np : Slot) : Kernel :=
  (k.setProc np { k.proc np with state := .runnable }).setProc c { k.proc c with fork := .no }

/-- `wakeup1`. -/
def wakeup1 (k : Kernel) (chan : Chan) : Kernel := k.mapProc (Proc.wakeup1 chan)

/-- The channel `curproc->parent`. -/
def parentChan : Option Slot → Chan
  | none => .null
  | some i => .proc i

/-- The children of `c` become children of `initproc`. -/
def adopt (k : Kernel) (c : Slot) : Kernel :=
  k.mapProc fun p => if p.parent = some c then { p with parent := k.initproc } else p

/-- Pass the children of `c` to `initproc`, and wake it up if one of them is a zombie. -/
def reparent (k : Kernel) (c : Slot) : Kernel :=
  if slots.any fun i => (k.proc i).parent = some c ∧ (k.proc i).state = .zombie then
    wakeup1 (adopt k c) (parentChan k.initproc)
  else adopt k c

/-- Process `c` becomes a zombie. -/
def exitSlot (k : Kernel) (c : Slot) : Kernel := k.setProc c { k.proc c with state := .zombie }

/-- The locked part of `exit` for process `c`. -/
def exit (k : Kernel) (c : Slot) : Option Kernel :=
  -- `init exiting`
  if k.initproc = some c then none
  else some (exitSlot (reparent (wakeup1 k (parentChan (k.proc c).parent)) c) c)

/-- The zombie in slot `i` is given back. -/
def reap (k : Kernel) (i : Slot) : Kernel :=
  k.setProc i { k.proc i with
    state := .unused
    pid := 0
    parent := none
    killed := false }

/-- `sleep`, up to the switch to the scheduler. -/
def sleep (k : Kernel) (c : Slot) (chan : Chan) : Kernel :=
  k.setProc c { k.proc c with chan := chan, state := .sleeping }

/-- `wait` for process `c`, up to its return or its sleep: the first zombie child is reaped;
without children, or when killed, it returns; otherwise it sleeps. -/
def wait (k : Kernel) (c : Slot) : Kernel :=
  match slots.find? (fun i => (k.proc i).parent = some c ∧ (k.proc i).state = .zombie) with
  | some i => reap k i
  | none =>
      if (slots.any fun i => (k.proc i).parent = some c) ∧ (k.proc c).killed = false then
        sleep k c (.proc c)
      else k

/-- `yield`, up to the switch to the scheduler. -/
def yield (k : Kernel) (c : Slot) : Kernel := k.setProc c { k.proc c with state := .runnable }

/-- `kill`: the first slot with this pid is marked, and woken up if it sleeps. -/
def kill (k : Kernel) (pid : ℤ) : Kernel :=
  match slots.find? (fun i => (k.proc i).pid = pid) with
  | none => k
  | some i =>
      k.setProc i { k.proc i with
        killed := true
        state := if (k.proc i).state = .sleeping then .runnable else (k.proc i).state }

/-- The scheduler of a CPU switches to process `i`, which clears its channel when it comes back
from `sleep`. -/
def switchTo (k : Kernel) (i : Slot) : Kernel :=
  k.setProc i { k.proc i with state := .running, chan := .null }

/-- `sys_getgpid` for process `c`; `none` when a null pointer is dereferenced. -/
def sysGetgpid (k : Kernel) (c : Slot) : Option ℤ :=
  (k.proc c).parent.bind fun p => (k.proc p).parent.map fun gp => (k.proc gp).pid

end Kernel

/-! ### The runs -/

/-- The operations of the system.  The slot is the process that performs the operation. -/
inductive Op
  | userinit
  /-- The scheduler of a CPU finds process `i`. -/
  | scheduler (i : Slot)
  | forkAlloc (c : Slot)
  | forkFail (c : Slot)
  | forkLink (c : Slot)
  | forkDone (c : Slot)
  | exit (c : Slot)
  | wait (c : Slot)
  | sleep (c : Slot) (chan : Chan)
  /-- `wakeup`, by a process or by an interrupt handler. -/
  | wakeup (chan : Chan)
  | yield (c : Slot)
  | kill (c : Slot) (pid : ℤ)
deriving DecidableEq, Repr

/-- Process `c` is running and not inside a `fork`. -/
def Ready (k : Kernel) (c : Slot) : Prop :=
  (k.proc c).state = .running ∧ (k.proc c).fork = .no

instance (k : Kernel) (c : Slot) : Decidable (Ready k c) := inferInstanceAs (Decidable (_ ∧ _))

open Kernel in
/-- One operation; `none` when it cannot be performed or panics. -/
def step (k : Kernel) : Op → Option Kernel
  | .userinit => if k.initproc = none then userinit k else none
  | .scheduler i => if (k.proc i).state = .runnable then some (switchTo k i) else none
  | .forkAlloc c => if Ready k c then some (forkAlloc k c) else none
  | .forkFail c =>
      match (k.proc c).state, (k.proc c).fork with
      | .running, .alloc np => some (forkFail k c np)
      | _, _ => none
  | .forkLink c =>
      match (k.proc c).state, (k.proc c).fork with
      | .running, .alloc np => some (forkLink k c np)
      | _, _ => none
  | .forkDone c =>
      match (k.proc c).state, (k.proc c).fork with
      | .running, .linked np => some (forkDone k c np)
      | _, _ => none
  | .exit c => if Ready k c then exit k c else none
  | .wait c => if Ready k c then some (wait k c) else none
  | .sleep c chan => if Ready k c then some (sleep k c chan) else none
  | .wakeup chan => some (wakeup1 k chan)
  -- a process can be preempted inside `fork`
  | .yield c => if (k.proc c).state = .running then some (yield k c) else none
  | .kill c pid => if Ready k c then some (kill k pid) else none

/-- The operation leads from one state to the other. -/
def Step (k : Kernel) (op : Op) (k' : Kernel) : Prop := step k op = some k'

/-- The states reachable from `pinit`. -/
def Reach : Kernel → Prop := Reachable (· = Kernel.pinit) Step

end Xv6Projects.Tree
