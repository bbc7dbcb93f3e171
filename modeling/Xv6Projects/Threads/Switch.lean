import Mathlib.Data.Fintype.Basic
import Xv6Projects.Library.Transition
import Xv6Projects.Threads.Kernel

/-!
# The switch to a thread on several CPUs

`switchkvm`, `switchuvm` and `switchpth` of `vm.c`, the loop of `scheduler` that calls them, and
the functions that a thread runs between two passes.  There is any number of CPUs, and each of the
three functions is one step; so is every section of code under `ptable.lock`, and every store to the
process table without the lock.  Which threads a `wakeup1` finds, which zombies are reaped and what
`kalloc` returns is left open.
-/

namespace Xv6Projects.Threads.Switch

open Library

/-! ### Data -/

def KSTACKSIZE : ℕ := 4096

/-- Where a thread stands in a function that stores to the process table more than once; `np` is
the local variable of `fork`, and `curpth` that of `exec`. -/
inductive Cont
  | user
  /-- In `exec`, before `init_allpth`. -/
  | initAllpth (curpth : Tidx)
  /-- In `exec`, before `switchuvm`. -/
  | switchuvm
  /-- In the `allocproc` of `fork`, before the store of the kernel stack. -/
  | allocStack (np : Slot)
  /-- In `fork`, before the store of `np->pgdir`. -/
  | forkPgdir (np : Slot)
  /-- In `fork`, before the store of `np->onTidx`. -/
  | forkTidx (np : Slot)
  /-- In `fork`, before the child becomes runnable. -/
  | forkDone (np : Slot)
deriving DecidableEq, Repr

/-- `struct pthread`, with the place that its kernel stack keeps. -/
structure Pthread where
  kstack : ℕ
  state : State
  cont : Cont
deriving DecidableEq, Repr

/-- `struct proc`; `pgdir` is the address of the page directory. -/
structure Proc where
  pgdir : ℕ
  state : State
  onTidx : Tidx
  pth : Tidx → Pthread

/-- What a CPU does. -/
inductive Place
  /-- Between two passes of `scheduler`. -/
  | idle
  /-- In the outer loop, with `scheduled_proc`, at slot `p`. -/
  | outer (scheduled : Option Slot) (p : ℕ)
  /-- In the inner loop for process `p`, at thread `i`. -/
  | inner (scheduled : Option Slot) (p : Slot) (i : ℕ)
  /-- Thread `i` of `p` is chosen; next comes `switchuvm` or `switchpth`. -/
  | switch (scheduled : Option Slot) (p : Slot) (i : Tidx)
  /-- Before `swtch`. -/
  | swtch (p : Slot) (i : Tidx)
  /-- Thread `i` of `p` runs. -/
  | run (p : Slot) (i : Tidx) (cont : Cont)
  /-- The thread has switched back; next comes `switchkvm`. -/
  | back (p : Slot) (i : Tidx)
deriving DecidableEq, Repr

/-- A CPU, with `c->proc`, and `esp0` of its task state. -/
structure Cpu where
  place : Place
  proc : Option Slot
  cr3 : ℕ
  esp0 : ℕ
deriving DecidableEq, Repr

/-- The process table with its lock, the globals of `vm.c`, and the CPUs. -/
structure Machine (ι : Type) where
  kpgdir : ℕ
  uvm : Bool
  lock : Option ι
  proc : Slot → Proc
  cpu : ι → Cpu

namespace Proc

/-- Change one thread. -/
def updPth (x : Proc) (i : Tidx) (f : Pthread → Pthread) : Proc :=
  { x with pth := Function.update x.pth i (f (x.pth i)) }

lemma updPth_kstack (x : Proc) (i j : Tidx) {f : Pthread → Pthread}
    (hf : (f (x.pth i)).kstack = (x.pth i).kstack) :
    ((x.updPth i f).pth j).kstack = (x.pth j).kstack := by
  by_cases hj : j = i
  · subst hj
    simpa [updPth] using hf
  · simp [updPth, Function.update_of_ne hj]

/-- Some thread is in state `s`. -/
def hasState (x : Proc) (s : State) : Bool := tidxs.any fun i => (x.pth i).state = s

/-- `set_proc_state`. -/
def setProcState (x : Proc) : Proc :=
  { x with state :=
      if x.hasState .running then .running
      else if x.hasState .runnable then .runnable
      else if x.hasState .sleeping then .sleeping
      else if x.hasState .zombie then .zombie
      else .unused }

/-- The change of the caller in `yield`. -/
def yield (x : Proc) : Proc :=
  { x.updPth x.onTidx fun t => { t with state := .runnable } with state := .runnable }

/-- The change of the caller in `sleep` and in `thread_exit`. -/
def stop (s : State) (x : Proc) : Proc :=
  (x.updPth x.onTidx fun t => { t with state := s }).setProcState

/-- The end of `exit`: every thread in use becomes a zombie. -/
def exit (x : Proc) : Proc :=
  { x with
    state := .zombie
    pth := fun i =>
      if (x.pth i).state = .unused then x.pth i else { x.pth i with state := .zombie } }

/-- `wakeup1`, for one process and the threads whose channel it is. -/
def wakeup1 (woken : Tidx → Bool) (x : Proc) : Proc :=
  if x.state = .sleeping ∨ x.state = .runnable ∨ x.state = .running then
    { x with
      state :=
        if x.state = .sleeping ∧ tidxs.any fun i => (x.pth i).state = .sleeping ∧ woken i then
          .runnable
        else x.state
      pth := fun i =>
        if (x.pth i).state = .sleeping ∧ woken i then { x.pth i with state := .runnable }
        else x.pth i }
  else x

/-- `kill`, for the process with the pid. -/
def kill (x : Proc) : Proc :=
  { x with
    state := if x.state = .sleeping then .runnable else x.state
    pth := fun i =>
      if (x.pth i).state = .sleeping then { x.pth i with state := .runnable } else x.pth i }

/-- `init_allpth`. -/
def initAllpth (curpth : Tidx) (x : Proc) : Proc :=
  { x with pth := fun i =>
      if i = curpth then x.pth i else { x.pth i with kstack := 0, state := .unused } }

/-- `wait`, for the zombie it finds. -/
def reap (x : Proc) : Proc :=
  { x with
    state := .unused
    pth := fun i => { x.pth i with kstack := 0, state := .unused } }

/-- `thread_create` with a kernel stack, or without one. -/
def threadCreate (x : Proc) (page : ℕ) : Proc :=
  match tidxs.find? fun i => (x.pth i).state = .unused with
  | none => x
  | some i =>
      if page = 0 then x.updPth i fun t => { t with kstack := 0 }
      else x.updPth i fun _ => ⟨page, .runnable, .user⟩

end Proc

/-! ### The functions of `vm.c` and the scheduler -/

namespace Machine

variable {ι : Type}

/-- Change one process. -/
def updProc (m : Machine ι) (p : Slot) (f : Proc → Proc) : Machine ι :=
  { m with proc := Function.update m.proc p (f (m.proc p)) }

@[simp] lemma updProc_self (m : Machine ι) (p : Slot) (f : Proc → Proc) :
    (m.updProc p f).proc p = f (m.proc p) := by
  simp [updProc]

lemma updProc_of_ne (m : Machine ι) {p q : Slot} (f : Proc → Proc) (h : q ≠ p) :
    (m.updProc p f).proc q = m.proc q := by
  simp [updProc, Function.update_of_ne h]

@[simp] lemma updProc_cpu (m : Machine ι) (p : Slot) (f : Proc → Proc) :
    (m.updProc p f).cpu = m.cpu := rfl
@[simp] lemma updProc_lock (m : Machine ι) (p : Slot) (f : Proc → Proc) :
    (m.updProc p f).lock = m.lock := rfl
@[simp] lemma updProc_uvm (m : Machine ι) (p : Slot) (f : Proc → Proc) :
    (m.updProc p f).uvm = m.uvm := rfl

/-- Write the lock word. -/
def setLock (m : Machine ι) (l : Option ι) : Machine ι := { m with lock := l }

@[simp] lemma setLock_cpu (m : Machine ι) (l : Option ι) : (m.setLock l).cpu = m.cpu := rfl
@[simp] lemma setLock_proc (m : Machine ι) (l : Option ι) : (m.setLock l).proc = m.proc := rfl
@[simp] lemma setLock_lock (m : Machine ι) (l : Option ι) : (m.setLock l).lock = l := rfl
@[simp] lemma setLock_uvm (m : Machine ι) (l : Option ι) : (m.setLock l).uvm = m.uvm := rfl

/-- Write the global `uvm`. -/
def setUvm (m : Machine ι) (b : Bool) : Machine ι := { m with uvm := b }

@[simp] lemma setUvm_cpu (m : Machine ι) (b : Bool) : (m.setUvm b).cpu = m.cpu := rfl
@[simp] lemma setUvm_proc (m : Machine ι) (b : Bool) : (m.setUvm b).proc = m.proc := rfl
@[simp] lemma setUvm_lock (m : Machine ι) (b : Bool) : (m.setUvm b).lock = m.lock := rfl
@[simp] lemma setUvm_uvm (m : Machine ι) (b : Bool) : (m.setUvm b).uvm = b := rfl

/-- `mypth` on CPU `a`; there is no process when `c->proc` is null. -/
def mypth (m : Machine ι) (a : ι) : Option Pthread :=
  (m.cpu a).proc.map fun p => (m.proc p).pth (m.proc p).onTidx

variable [DecidableEq ι]

/-- Change one CPU. -/
def updCpu (m : Machine ι) (a : ι) (f : Cpu → Cpu) : Machine ι :=
  { m with cpu := Function.update m.cpu a (f (m.cpu a)) }

@[simp] lemma updCpu_self (m : Machine ι) (a : ι) (f : Cpu → Cpu) :
    (m.updCpu a f).cpu a = f (m.cpu a) := by
  simp [updCpu]

lemma updCpu_of_ne (m : Machine ι) (f : Cpu → Cpu) {a b : ι} (h : a ≠ b) :
    (m.updCpu b f).cpu a = m.cpu a := by
  simp [updCpu, Function.update_of_ne h]

@[simp] lemma updCpu_lock (m : Machine ι) (a : ι) (f : Cpu → Cpu) :
    (m.updCpu a f).lock = m.lock := rfl
@[simp] lemma updCpu_proc (m : Machine ι) (a : ι) (f : Cpu → Cpu) :
    (m.updCpu a f).proc = m.proc := rfl
@[simp] lemma updCpu_uvm (m : Machine ι) (a : ι) (f : Cpu → Cpu) :
    (m.updCpu a f).uvm = m.uvm := rfl

/-- CPU `a` goes on at place `c`. -/
def goOn (m : Machine ι) (a : ι) (c : Place) : Machine ι := m.updCpu a fun x => { x with place := c }

@[simp] lemma goOn_self (m : Machine ι) (a : ι) (c : Place) :
    (m.goOn a c).cpu a = { m.cpu a with place := c } := updCpu_self m a _

@[simp] lemma goOn_lock (m : Machine ι) (a : ι) (c : Place) : (m.goOn a c).lock = m.lock := rfl
@[simp] lemma goOn_proc (m : Machine ι) (a : ι) (c : Place) : (m.goOn a c).proc = m.proc := rfl
@[simp] lemma goOn_uvm (m : Machine ι) (a : ι) (c : Place) : (m.goOn a c).uvm = m.uvm := rfl

/-- `switchkvm`. -/
def switchkvm (m : Machine ι) (a : ι) : Machine ι :=
  (m.updCpu a fun x => { x with cr3 := m.kpgdir }).setUvm true

/-- `switchuvm(p)`, which panics without a kernel stack or a page directory. -/
def switchuvm (m : Machine ι) (a : ι) (p : Slot) : Option (Machine ι) :=
  (m.mypth a).bind fun pth =>
    if pth.kstack = 0 ∨ (m.proc p).pgdir = 0 then none
    else some ((m.updCpu a fun x =>
      { x with esp0 := pth.kstack + KSTACKSIZE, cr3 := (m.proc p).pgdir }).setUvm false)

/-- `switchpth(p)`. -/
def switchpth (m : Machine ι) (a : ι) (p : Slot) : Option (Machine ι) :=
  (m.mypth a).bind fun pth =>
    if pth.kstack = 0 ∨ (m.proc p).pgdir = 0 then none
    else if m.uvm then
      some ((m.updCpu a fun x =>
        { x with esp0 := pth.kstack + KSTACKSIZE, cr3 := (m.proc p).pgdir }).setUvm false)
    else some (m.updCpu a fun x => { x with esp0 := pth.kstack + KSTACKSIZE })

/-- The next statement of `scheduler` on CPU `a`. -/
def scheduler (m : Machine ι) (a : ι) : Option (Machine ι) :=
  match (m.cpu a).place with
  | .idle =>
      if m.lock = none then some ((m.setLock (some a)).goOn a (.outer none 0)) else none
  | .outer scheduled p =>
      if h : p < NPROC then
        if (m.proc ⟨p, h⟩).state = .runnable then some (m.goOn a (.inner scheduled ⟨p, h⟩ 0))
        else some (m.goOn a (.outer scheduled (p + 1)))
      else some ((m.setLock none).goOn a .idle)
  | .inner scheduled p i =>
      if h : i < NPTH then
        if ((m.proc p).pth ⟨i, h⟩).state = .runnable then
          some ((m.updProc p fun x =>
            { x.updPth ⟨i, h⟩ fun t => { t with state := .running } with onTidx := ⟨i, h⟩ }).updCpu
              a fun x => { x with
                proc := if scheduled = some p then x.proc else some p
                place := .switch scheduled p ⟨i, h⟩ })
        else some (m.goOn a (.inner scheduled p (i + 1)))
      else some (m.updCpu a fun x => { x with proc := none, place := .outer scheduled (p + 1) })
  | .switch scheduled p i =>
      if scheduled = some p then (m.switchpth a p).map fun m => m.goOn a (.swtch p i)
      else (m.switchuvm a p).map fun m =>
        (m.updProc p fun x => { x with state := .running }).goOn a (.swtch p i)
  | .swtch p i => some (m.goOn a (.run p i ((m.proc p).pth i).cont))
  | .run _ _ _ => none
  | .back p i => some ((m.switchkvm a).goOn a (.inner (some p) p (i + 1)))

end Machine

/-! ### What threads do -/

/-- The steps of a running thread.  The first six cases are stores without the lock, or a call of
`switchuvm`; the others are sections under `ptable.lock`. -/
inductive Call
  | growproc
  /-- `curproc->pgdir = pgdir` in `exec`. -/
  | exec (pgdir : ℕ)
  /-- The `switchuvm` of `exec`. -/
  | execSwitch
  /-- The end of `allocproc`; page zero stands for a failure of `kalloc`. -/
  | allocStack (page : ℕ)
  /-- `np->pgdir = copyuvm(..)` in `fork`; zero stands for its failure. -/
  | forkPgdir (pgdir : ℕ)
  /-- `np->onTidx = 0` in `fork`. -/
  | forkTidx
  /-- A thread that has been switched to gives the lock up. -/
  | release
  | initAllpth
  /-- The locked part of the `allocproc` of `fork`. -/
  | allocproc
  /-- The end of `fork`. -/
  | forkDone
  | threadCreate (page : ℕ)
  | yield
  | sleep
  | exit (woken : Slot → Tidx → Bool)
  | threadExit (woken : Slot → Tidx → Bool)
  /-- `wait` finds the zombie `q`. -/
  | wait (q : Slot)
  /-- `thread_join` finds the zombie thread `j` of `q`. -/
  | threadJoin (q : Slot) (j : Tidx)
  | kill (q : Slot)

namespace Machine

variable {ι : Type} [DecidableEq ι]

/-- `wakeup1`, for the threads whose channel it is. -/
def wakeup1 (m : Machine ι) (woken : Slot → Tidx → Bool) : Machine ι :=
  { m with proc := fun p => (m.proc p).wakeup1 (woken p) }

/-- The lock is free, or CPU `b` holds it for a thread that was switched to. -/
def Locks (m : Machine ι) (b : ι) : Prop := m.lock = none ∨ m.lock = some b

instance (m : Machine ι) (b : ι) : Decidable (m.Locks b) := inferInstanceAs (Decidable (_ ∨ _))

/-- A section of code under the lock. -/
def locked (m : Machine ι) (b : ι) (m' : Machine ι) : Option (Machine ι) :=
  if m.Locks b then some (m'.setLock none) else none

/-- A section of code under the lock that ends in `sched`, after the change `f` of `myproc()`.  The
context is saved in the thread that `mypth` finds. -/
def sched (m : Machine ι) (b : ι) (p : Slot) (i : Tidx) (cont : Cont) (f : Proc → Proc) :
    Option (Machine ι) :=
  if m.Locks b then
    (m.cpu b).proc.map fun q =>
      ((m.updProc q fun x => (f x).updPth x.onTidx fun t => { t with cont := cont }).setLock
        (some b)).goOn b (.back p i)
  else none

/-- A step of thread `i` of process `p`, which runs on CPU `b` at place `cont`. -/
def call (m : Machine ι) (b : ι) (p : Slot) (i : Tidx) (cont : Cont) : Call → Option (Machine ι)
  | .growproc => if cont = .user then m.switchuvm b p else none
  | .exec pgdir =>
      if cont = .user ∧ pgdir ≠ 0 then
        some ((m.updProc p fun x => { x with pgdir := pgdir }).goOn b
          (.run p i (.initAllpth (m.proc p).onTidx)))
      else none
  | .execSwitch =>
      if cont = .switchuvm then (m.switchuvm b p).map fun m => m.goOn b (.run p i .user) else none
  | .allocStack page =>
      match cont with
      | .allocStack np =>
          if page = 0 then
            some ((m.updProc np fun x =>
              { x.updPth 0 fun t => { t with state := .unused } with state := .unused }).goOn b
              (.run p i .user))
          else
            some ((m.updProc np fun x => x.updPth 0 fun t => { t with kstack := page }).goOn b
              (.run p i (.forkPgdir np)))
      | _ => none
  | .forkPgdir pgdir =>
      match cont with
      | .forkPgdir np =>
          if pgdir = 0 then
            some ((m.updProc np fun x =>
              { x.updPth 0 fun t => { t with kstack := 0, state := .unused } with
                pgdir := 0
                state := .unused }).goOn b (.run p i .user))
          else
            some ((m.updProc np fun x => { x with pgdir := pgdir }).goOn b
              (.run p i (.forkTidx np)))
      | _ => none
  | .forkTidx =>
      match cont with
      | .forkTidx np =>
          some ((m.updProc np fun x => { x with onTidx := 0 }).goOn b (.run p i (.forkDone np)))
      | _ => none
  | .release => if m.lock = some b then some (m.setLock none) else none
  | .initAllpth =>
      match cont with
      | .initAllpth curpth =>
          m.locked b ((m.updProc p (Proc.initAllpth curpth)).goOn b (.run p i .switchuvm))
      | _ => none
  | .allocproc =>
      if cont = .user then
        match slots.find? fun q => (m.proc q).state = .unused with
        | none => m.locked b m
        | some np =>
            m.locked b ((m.updProc np fun x =>
              { x.updPth 0 fun t => { t with state := .embryo, cont := .user } with
                state := .embryo
                onTidx := 0 }).goOn b (.run p i (.allocStack np)))
      else none
  | .forkDone =>
      match cont with
      | .forkDone np =>
          m.locked b ((m.updProc np fun x =>
            { x.updPth 0 fun t => { t with state := .runnable } with
              state := .runnable }).goOn b (.run p i .user))
      | _ => none
  | .threadCreate page =>
      if cont = .user then m.locked b (m.updProc p fun x => x.threadCreate page) else none
  -- a thread can be preempted at every place
  | .yield => m.sched b p i cont Proc.yield
  | .sleep => if cont = .user then m.sched b p i cont (Proc.stop .sleeping) else none
  | .exit woken =>
      if cont = .user then (m.wakeup1 woken).sched b p i cont Proc.exit else none
  | .threadExit woken =>
      if cont = .user then (m.wakeup1 woken).sched b p i cont (Proc.stop .zombie) else none
  | .wait q =>
      if cont = .user ∧ (m.proc q).state = .zombie then m.locked b (m.updProc q Proc.reap)
      else none
  | .threadJoin q j =>
      if cont = .user ∧ ((m.proc q).pth j).state = .zombie then
        m.locked b (m.updProc q fun x => x.updPth j fun t =>
          { t with kstack := 0, state := .unused })
      else none
  | .kill q => if cont = .user then m.locked b (m.updProc q Proc.kill) else none

/-- The state after `userinit`, with the first page directory and kernel stack. -/
def boot (kpgdir pgdir kstack : ℕ) : Machine ι where
  kpgdir := kpgdir
  uvm := true
  lock := none
  proc := fun p => {
    pgdir := if p = 0 then pgdir else 0
    state := if p = 0 then .runnable else .unused
    onTidx := 0
    pth := fun i => if p = 0 ∧ i = 0 then ⟨kstack, .runnable, .user⟩ else ⟨0, .unused, .user⟩ }
  cpu := fun _ => ⟨.idle, none, kpgdir, 0⟩

end Machine

/-! ### The runs -/

/-- The operations of the system. -/
inductive Op (ι : Type)
  /-- The next statement of the scheduler on CPU `a`. -/
  | scheduler (a : ι)
  /-- The next step of the thread that runs on CPU `b`. -/
  | call (b : ι) (c : Call)
  /-- `wakeup`, by a thread or by an interrupt handler. -/
  | wakeup (woken : Slot → Tidx → Bool)

variable {ι : Type} [DecidableEq ι]

/-- One operation; `none` when it cannot be performed or panics. -/
def step (m : Machine ι) : Op ι → Option (Machine ι)
  | .scheduler a => m.scheduler a
  | .call b c =>
      match (m.cpu b).place with
      | .run p i cont => m.call b p i cont c
      | _ => none
  | .wakeup woken => if m.lock = none then some (m.wakeup1 woken) else none

/-- The operation leads from one state to the other. -/
def Step (m : Machine ι) (op : Op ι) (m' : Machine ι) : Prop := step m op = some m'

/-- The states after `userinit`. -/
def Boot (m : Machine ι) : Prop :=
  ∃ kpgdir pgdir kstack, pgdir ≠ 0 ∧ kstack ≠ 0 ∧ m = .boot kpgdir pgdir kstack

/-- The reachable states. -/
def Reach : Machine ι → Prop := Reachable Boot Step

/-- Before a `swtch` to a thread, the CPU has the page directory of its process loaded, and the top
of its kernel stack in the task state. -/
def SwitchRight (m : Machine ι) : Prop :=
  ∀ a p i, (m.cpu a).place = .swtch p i →
    (m.cpu a).cr3 = (m.proc p).pgdir ∧ (m.cpu a).esp0 = ((m.proc p).pth i).kstack + KSTACKSIZE

/-! ### The condition -/

/-- The CPU is about to `swtch` to a thread of process `p`. -/
def Place.To (p : Slot) : Place → Prop
  | .swtch q _ => q = p
  | _ => False

/-- The CPU has chosen a thread of process `p` other than the first one. -/
def Place.Chosen (p : Slot) : Place → Prop
  | .switch _ q i => q = p ∧ i ≠ 0
  | _ => False

instance (p : Slot) : DecidablePred (Place.To p)
  | .swtch q _ => inferInstanceAs (Decidable (q = p))
  | .idle | .outer _ _ | .inner _ _ _ | .switch _ _ _ | .run _ _ _ | .back _ _ =>
      inferInstanceAs (Decidable False)

instance (p : Slot) : DecidablePred (Place.Chosen p)
  | .switch _ q i => inferInstanceAs (Decidable (q = p ∧ i ≠ 0))
  | .idle | .outer _ _ | .inner _ _ _ | .swtch _ _ | .run _ _ _ | .back _ _ =>
      inferInstanceAs (Decidable False)

/-- What must hold before a store without the lock, by process `p` at place `cont`: no CPU stands
between the switch that reads the entry and the `swtch`. -/
def Call.Safe (m : Machine ι) (p : Slot) (cont : Cont) : Call → Prop
  | .exec _ => ∀ a, ¬(m.cpu a).place.To p
  | .allocStack page =>
      match cont with
      | .allocStack np => page ≠ 0 → ∀ a, (m.cpu a).place ≠ .swtch np 0
      | _ => True
  | .forkPgdir _ =>
      match cont with
      | .forkPgdir np => ∀ a, ¬(m.cpu a).place.To np
      | _ => True
  | .forkTidx =>
      match cont with
      | .forkTidx np => ∀ a, ¬(m.cpu a).place.Chosen np
      | _ => True
  | _ => True

/-- What must hold before the next statement of a scheduler. -/
def Place.UvmSet (m : Machine ι) : Place → Prop
  | .switch scheduled p _ => scheduled = some p → m.uvm = true
  | _ => True

/-- What must hold before the step `c` of a thread. -/
def Place.Safe (m : Machine ι) (c : Call) : Place → Prop
  | .run p _ cont => c.Safe m p cont
  | _ => True

/-- `switchpth` is called only while `uvm` is set, and the stores without the lock do not meet a
switch to a thread of the process. -/
def SwitchSafe (m : Machine ι) : Op ι → Prop
  | .scheduler a => (m.cpu a).place.UvmSet m
  | .call b c => (m.cpu b).place.Safe m c
  | .wakeup _ => True

instance [Fintype ι] (m : Machine ι) (p : Slot) (cont : Cont) :
    DecidablePred (Call.Safe m p cont)
  | .exec _ => inferInstanceAs (Decidable (∀ _, _))
  | .allocStack page =>
      match cont with
      | .allocStack _ => inferInstanceAs (Decidable (page ≠ 0 → _))
      | .user | .initAllpth _ | .switchuvm | .forkPgdir _ | .forkTidx _ | .forkDone _ =>
          inferInstanceAs (Decidable True)
  | .forkPgdir _ =>
      match cont with
      | .forkPgdir _ => inferInstanceAs (Decidable (∀ _, _))
      | .user | .initAllpth _ | .switchuvm | .allocStack _ | .forkTidx _ | .forkDone _ =>
          inferInstanceAs (Decidable True)
  | .forkTidx =>
      match cont with
      | .forkTidx _ => inferInstanceAs (Decidable (∀ _, _))
      | .user | .initAllpth _ | .switchuvm | .allocStack _ | .forkPgdir _ | .forkDone _ =>
          inferInstanceAs (Decidable True)
  | .growproc | .execSwitch | .release | .initAllpth | .allocproc | .forkDone | .threadCreate _
  | .yield | .sleep | .exit _ | .threadExit _ | .wait _ | .threadJoin _ _ | .kill _ =>
      inferInstanceAs (Decidable True)

instance (m : Machine ι) : DecidablePred (Place.UvmSet m)
  | .switch scheduled p _ => inferInstanceAs (Decidable (scheduled = some p → _))
  | .idle | .outer _ _ | .inner _ _ _ | .swtch _ _ | .run _ _ _ | .back _ _ =>
      inferInstanceAs (Decidable True)

instance [Fintype ι] (m : Machine ι) (c : Call) : DecidablePred (Place.Safe m c)
  | .run p _ cont => inferInstanceAs (Decidable (Call.Safe m p cont c))
  | .idle | .outer _ _ | .inner _ _ _ | .switch _ _ _ | .swtch _ _ | .back _ _ =>
      inferInstanceAs (Decidable True)

instance [Fintype ι] (m : Machine ι) : DecidablePred (SwitchSafe m)
  | .scheduler a => inferInstanceAs (Decidable ((m.cpu a).place.UvmSet m))
  | .call b c => inferInstanceAs (Decidable ((m.cpu b).place.Safe m c))
  | .wakeup _ => inferInstanceAs (Decidable True)

/-- The states of the runs that meet the condition. -/
def SafeReach : Machine ι → Prop := Reachable Boot (Guarded Step SwitchSafe)

/-! ### The invariant -/

/-- The scheduler of the CPU holds the lock. -/
def Place.Holds : Place → Prop
  | .idle | .run _ _ _ => False
  | _ => True

/-- The process that `c->proc` points to. -/
def Place.on : Place → Option Slot
  | .inner scheduled p _ => if scheduled = some p then some p else none
  | .switch _ p _ | .swtch p _ | .run p _ _ | .back p _ => some p
  | _ => none

/-- `scheduled_proc` is not behind the loop over the table. -/
def Place.Past : Place → Prop
  | .outer scheduled p => ∀ q, scheduled = some q → q.val < p
  | .inner scheduled p _ => ∀ q, scheduled = some q → q ≤ p
  | _ => True

/-- The page directory and the kernel stack of thread `i` of `p` are loaded on CPU `a`. -/
def Loaded (m : Machine ι) (a : ι) (p : Slot) (i : Tidx) : Prop :=
  (m.cpu a).cr3 = (m.proc p).pgdir ∧ (m.cpu a).esp0 = ((m.proc p).pth i).kstack + KSTACKSIZE

/-- What holds on each CPU between any two steps. -/
structure CpuOk (m : Machine ι) (a : ι) : Prop where
  lock : (m.cpu a).place.Holds → m.lock = some a
  proc : ∀ p, (m.cpu a).place.on = some p → (m.cpu a).proc = some p
  past : (m.cpu a).place.Past
  onTidx : ∀ s p i, (m.cpu a).place = .switch s p i → (m.proc p).onTidx = i
  loaded : ∀ p i, (m.cpu a).place = .swtch p i → Loaded m a p i

variable {m m' : Machine ι} {a b : ι} {p : Slot} {i : Tidx}

omit [DecidableEq ι] in
/-- A CPU that does not move, and whose thread in the switch is not touched. -/
lemma CpuOk.frame (h : CpuOk m a) (hcpu : m'.cpu a = m.cpu a)
    (hlock : m.lock = some a → m'.lock = some a)
    (hon : ∀ s p i, (m.cpu a).place = .switch s p i → (m'.proc p).onTidx = i)
    (hl : ∀ p i, (m.cpu a).place = .swtch p i → (m'.proc p).pgdir = (m.proc p).pgdir ∧
      ((m'.proc p).pth i).kstack = ((m.proc p).pth i).kstack) : CpuOk m' a := by
  refine ⟨?_, ?_, ?_, ?_, ?_⟩ <;> rw [hcpu]
  · exact fun hh => hlock (h.lock hh)
  · exact h.proc
  · exact h.past
  · exact hon
  · intro p i hp
    rw [Loaded, hcpu, (hl p i hp).1, (hl p i hp).2]
    exact h.loaded p i hp

omit [DecidableEq ι] in
/-- A CPU that does not move and does not hold the lock is not in a switch. -/
lemma CpuOk.frame_free (h : CpuOk m a) (hcpu : m'.cpu a = m.cpu a) (hfree : m.lock ≠ some a) :
    CpuOk m' a := by
  have hno : ¬(m.cpu a).place.Holds := fun hh => hfree (h.lock hh)
  refine h.frame hcpu (fun hl => absurd hl hfree) (fun s p i hp => ?_) (fun p i hp => ?_)
  · rw [hp] at hno
    exact absurd trivial hno
  · rw [hp] at hno
    exact absurd trivial hno

omit [DecidableEq ι] in
/-- A CPU that is not in a switch. -/
lemma cpuOk_of_place {c : Place} (hc : (m.cpu a).place = c) (hlock : c.Holds → m.lock = some a)
    (hproc : ∀ p, c.on = some p → (m.cpu a).proc = some p) (hpast : c.Past) (hs : ∀ s p i, c ≠ .switch s p i)
    (hw : ∀ p i, c ≠ .swtch p i) : CpuOk m a := by
  subst hc
  exact ⟨hlock, hproc, hpast, fun s p i h => absurd h (hs s p i), fun p i h => absurd h (hw p i)⟩

omit [DecidableEq ι] in
lemma cpuOk_of_run {cont : Cont} (hc : (m.cpu a).place = .run p i cont)
    (hproc : (m.cpu a).proc = some p) : CpuOk m a :=
  cpuOk_of_place hc (fun h => h.elim) (fun _ hq => hq ▸ hproc) trivial (fun _ _ _ => Place.noConfusion)
    fun _ _ => Place.noConfusion

/-! ### The functions of `vm.c` -/

/-- The other CPUs stay as they are. -/
def Others (m : Machine ι) (b : ι) (m' : Machine ι) : Prop := ∀ a, a ≠ b → m'.cpu a = m.cpu a

lemma others_updCpu (m : Machine ι) (b : ι) (f : Cpu → Cpu) : Others m b (m.updCpu b f) :=
  fun _ h => Machine.updCpu_of_ne m f h

lemma others_goOn (m : Machine ι) (b : ι) (c : Place) : Others m b (m.goOn b c) :=
  others_updCpu m b _

omit [DecidableEq ι] in
lemma Others.of_cpu {m'' : Machine ι} (h : Others m b m') (hc : m''.cpu = m'.cpu) :
    Others m b m'' :=
  fun a hab => (congrFun hc a).trans (h a hab)

omit [DecidableEq ι] in
lemma Others.trans {m'' : Machine ι} (h : Others m b m') (h' : Others m' b m'') :
    Others m b m'' :=
  fun a hab => (h' a hab).trans (h a hab)

lemma switchkvm_others (m : Machine ι) (b : ι) : Others m b (m.switchkvm b) :=
  (others_updCpu m b _).of_cpu (Machine.setUvm_cpu _ true)

/-- The switch of CPU `a` to process `p`, with the kernel stack of the current thread of `q`. -/
structure Switched (m : Machine ι) (a : ι) (q p : Slot) (m' : Machine ι) : Prop where
  others : Others m a m'
  self : m'.cpu a = { m.cpu a with
    cr3 := (m.proc p).pgdir
    esp0 := ((m.proc q).pth (m.proc q).onTidx).kstack + KSTACKSIZE }
  proc : m'.proc = m.proc
  lock : m'.lock = m.lock

lemma switchuvm_eq_some {q : Slot} (hq : (m.cpu a).proc = some q)
    (h : m.switchuvm a p = some m') : Switched m a q p m' := by
  rw [Machine.switchuvm, Machine.mypth, hq, Option.map_some, Option.bind_some] at h
  split_ifs at h
  obtain rfl := Option.some.inj h
  exact ⟨(others_updCpu m a _).of_cpu (Machine.setUvm_cpu _ false), by simp, rfl, rfl⟩

/-- With `uvm` set `switchpth` is `switchuvm`. -/
lemma switchpth_of_uvm (huvm : m.uvm = true) (a : ι) (p : Slot) :
    m.switchpth a p = m.switchuvm a p := by
  simp [Machine.switchpth, Machine.switchuvm, huvm]

/-- Whatever `uvm` is, `switchpth` does not touch the other CPUs. -/
lemma switchpth_others (h : m.switchpth a p = some m') : Others m a m' := by
  obtain ⟨pth, -, h⟩ := Option.bind_eq_some_iff.mp h
  split_ifs at h
  · obtain rfl := Option.some.inj h
    exact (others_updCpu m a _).of_cpu (Machine.setUvm_cpu _ false)
  · obtain rfl := Option.some.inj h
    exact others_updCpu m a _

/-! ### The scheduler -/

/-- A statement of the scheduler does not touch the other CPUs, and none of them has the lock. -/
lemma scheduler_others (h : CpuOk m b) (hs : m.scheduler b = some m') :
    Others m b m' ∧ ∀ a, a ≠ b → m.lock ≠ some a := by
  have hfree : (m.cpu b).place.Holds → ∀ a, a ≠ b → m.lock ≠ some a := by
    intro hh a hab hl
    exact hab (Option.some.inj (hl.symm.trans (h.lock hh)))
  unfold Machine.scheduler at hs
  split at hs
  · -- the lock is taken
    split_ifs at hs with hnone
    obtain rfl := Option.some.inj hs
    exact ⟨others_goOn _ b _, fun a _ => by simp [hnone]⟩
  · next hp =>
    refine ⟨?_, hfree (by rw [hp]; trivial)⟩
    split_ifs at hs <;> obtain rfl := Option.some.inj hs <;> exact others_goOn _ b _
  · next hp =>
    refine ⟨?_, hfree (by rw [hp]; trivial)⟩
    split_ifs at hs <;> obtain rfl := Option.some.inj hs <;> exact others_updCpu _ b _
  · next p i hp =>
    refine ⟨?_, hfree (by rw [hp]; trivial)⟩
    split_ifs at hs
    · obtain ⟨m₁, hm₁, rfl⟩ := Option.map_eq_some_iff.mp hs
      exact (switchpth_others hm₁).trans (others_goOn m₁ b _)
    · obtain ⟨m₁, hm₁, rfl⟩ := Option.map_eq_some_iff.mp hs
      have hsw := switchuvm_eq_some (h.proc p (by rw [hp]; rfl)) hm₁
      exact (hsw.others.of_cpu (m₁.updProc_cpu p _)).trans (others_goOn _ b _)
  · next hp =>
    obtain rfl := Option.some.inj hs
    exact ⟨others_goOn m b _, hfree (by rw [hp]; trivial)⟩
  · exact absurd hs (by simp)
  · next hp =>
    obtain rfl := Option.some.inj hs
    exact ⟨(switchkvm_others m b).trans (others_goOn _ b _), hfree (by rw [hp]; trivial)⟩

omit [DecidableEq ι] in
/-- The chosen thread is the current one of the process, and is loaded by a full switch. -/
lemma CpuOk.switched {s : Option Slot} (h : CpuOk m a) (hp : (m.cpu a).place = .switch s p i)
    (hsw : Switched m a p p m') (hlock : m'.lock = some a) {m₂ : Machine ι}
    (hcpu : m₂.cpu a = { m'.cpu a with place := .swtch p i }) (hl : m₂.lock = m'.lock)
    (hpgdir : (m₂.proc p).pgdir = (m'.proc p).pgdir) (hpth : (m₂.proc p).pth = (m'.proc p).pth) :
    CpuOk m₂ a := by
  have hproc : (m.cpu a).proc = some p := h.proc p (by rw [hp]; rfl)
  have hon := h.onTidx s p i hp
  refine ⟨fun _ => hl.trans hlock, ?_, ?_, ?_, ?_⟩
  · intro q hq
    rw [hcpu] at hq ⊢
    rw [hsw.self]
    exact hproc.trans hq
  · rw [hcpu]
    trivial
  · intro s q j hq
    rw [hcpu] at hq
    exact absurd hq Place.noConfusion
  · intro q j hq
    rw [hcpu] at hq
    obtain ⟨rfl, rfl⟩ := Place.swtch.inj hq
    rw [Loaded, hcpu, hpgdir, hpth, hsw.self, hsw.proc, hon]
    exact ⟨rfl, rfl⟩

/-- The scheduler keeps its own CPU in order, as long as `switchpth` finds `uvm` set. -/
lemma CpuOk.scheduler (h : CpuOk m a) (hs : m.scheduler a = some m')
    (hsafe : SwitchSafe m (.scheduler a)) : CpuOk m' a := by
  unfold Machine.scheduler at hs
  split at hs
  · split_ifs at hs
    obtain rfl := Option.some.inj hs
    refine cpuOk_of_place (c := .outer none 0) (by simp) (fun _ => rfl) (fun _ hp => ?_)
      (fun _ hq => absurd hq (by simp)) (fun _ _ _ => Place.noConfusion) fun _ _ => Place.noConfusion
    exact absurd hp (by simp [Place.on])
  · next s p hp =>
    have hlock : m.lock = some a := h.lock (by rw [hp]; trivial)
    have hpast : ∀ q, s = some q → q.val < p := by
      have h := h.past
      rwa [hp] at h
    split_ifs at hs with hlt hrun
    · obtain rfl := Option.some.inj hs
      refine cpuOk_of_place (c := .inner s ⟨p, hlt⟩ 0) (by simp) (fun _ => hlock) (fun q hq => ?_)
        (fun q hq => (hpast q hq).le) (fun _ _ _ => Place.noConfusion) fun _ _ => Place.noConfusion
      -- the process scheduled last is behind
      have hne : s ≠ some ⟨p, hlt⟩ := fun he => absurd (hpast _ he) (lt_irrefl p)
      rw [Place.on, if_neg hne] at hq
      exact absurd hq (by simp)
    · obtain rfl := Option.some.inj hs
      refine cpuOk_of_place (c := .outer s (p + 1)) (by simp) (fun _ => hlock) (fun q hq => ?_)
        (fun q hq => (hpast q hq).trans p.lt_succ_self) (fun _ _ _ => Place.noConfusion)
        fun _ _ => Place.noConfusion
      exact absurd hq (by simp [Place.on])
    · obtain rfl := Option.some.inj hs
      refine cpuOk_of_place (c := .idle) (by simp) (fun hh => hh.elim) (fun q hq => ?_) trivial
        (fun _ _ _ => Place.noConfusion) fun _ _ => Place.noConfusion
      exact absurd hq (by simp [Place.on])
  · next s p i hp =>
    have hlock : m.lock = some a := h.lock (by rw [hp]; trivial)
    have hpast : ∀ q, s = some q → q ≤ p := by
      have h := h.past
      rwa [hp] at h
    have hproc : s = some p → (m.cpu a).proc = some p := fun he =>
      h.proc p (by rw [hp, Place.on, if_pos he])
    by_cases hlt : i < NPTH
    swap
    · rw [dif_neg hlt] at hs
      obtain rfl := Option.some.inj hs
      refine cpuOk_of_place (c := .outer s (p + 1)) (by simp) (fun _ => hlock) (fun q hq => ?_)
        (fun q hq => Nat.lt_succ_of_le (hpast q hq)) (fun _ _ _ => Place.noConfusion)
        fun _ _ => Place.noConfusion
      exact absurd hq (by simp [Place.on])
    rw [dif_pos hlt] at hs
    by_cases hrun : ((m.proc p).pth ⟨i, hlt⟩).state = .runnable
    · -- thread `i` is chosen
      rw [if_pos hrun] at hs
      obtain rfl := Option.some.inj hs
      refine ⟨fun _ => hlock, fun q hq => ?_, ?_, fun s' q j hq => ?_, fun q j hq => ?_⟩
      · rw [Machine.updCpu_self] at hq ⊢
        obtain rfl := Option.some.inj hq
        show (if s = some p then (m.cpu a).proc else some p) = some p
        split_ifs with he
        · exact hproc he
        · rfl
      · rw [Machine.updCpu_self]
        trivial
      · rw [Machine.updCpu_self] at hq
        obtain ⟨rfl, rfl, rfl⟩ := Place.switch.inj hq
        simp
      · rw [Machine.updCpu_self] at hq
        exact absurd hq Place.noConfusion
    · rw [if_neg hrun] at hs
      obtain rfl := Option.some.inj hs
      refine cpuOk_of_place (c := .inner s p (i + 1)) (by simp) (fun _ => hlock) (fun q hq => ?_)
        hpast (fun _ _ _ => Place.noConfusion) fun _ _ => Place.noConfusion
      rw [Machine.goOn_self]
      refine h.proc q ?_
      rw [hp]
      exact hq
  · next s p i hp =>
    have hlock : m.lock = some a := h.lock (by rw [hp]; trivial)
    have hproc : (m.cpu a).proc = some p := h.proc p (by rw [hp]; rfl)
    split_ifs at hs with hsame
    · -- `switchpth`
      have huvm : m.uvm = true := by
        rw [SwitchSafe, hp] at hsafe
        exact hsafe hsame
      obtain ⟨m₁, hm₁, rfl⟩ := Option.map_eq_some_iff.mp hs
      rw [switchpth_of_uvm huvm] at hm₁
      have hsw := switchuvm_eq_some hproc hm₁
      exact h.switched hp hsw (hsw.lock.trans hlock) (Machine.goOn_self _ _ _) rfl rfl rfl
    · obtain ⟨m₁, hm₁, rfl⟩ := Option.map_eq_some_iff.mp hs
      have hsw := switchuvm_eq_some hproc hm₁
      refine h.switched hp hsw (hsw.lock.trans hlock) (Machine.goOn_self _ _ _) rfl ?_ ?_
      · simp
      · simp
  · next p i hp =>
    obtain rfl := Option.some.inj hs
    have hself := m.goOn_self a (.run p i ((m.proc p).pth i).cont)
    refine cpuOk_of_run (congrArg Cpu.place hself) ?_
    rw [hself]
    exact h.proc p (by rw [hp]; rfl)
  · exact absurd hs (by simp)
  · next p i hp =>
    have hlock : m.lock = some a := h.lock (by rw [hp]; trivial)
    have hproc : (m.cpu a).proc = some p := h.proc p (by rw [hp]; rfl)
    obtain rfl := Option.some.inj hs
    refine cpuOk_of_place (c := .inner (some p) p (i + 1)) (by simp) (fun _ => hlock)
      (fun q hq => ?_) (fun q hq => (Option.some.inj hq).ge) (fun _ _ _ => Place.noConfusion)
      fun _ _ => Place.noConfusion
    rw [Place.on, if_pos rfl] at hq
    rw [Machine.goOn_self, ← hq]
    simpa [Machine.switchkvm] using hproc

/-! ### The threads -/

/-- A thread runs, or has just switched back. -/
def Place.Away : Place → Prop
  | .run _ _ _ | .back _ _ => True
  | _ => False

/-- Thread `i` of `p` goes on running on CPU `b`, and the other CPUs stay as they are. -/
structure Runs (m : Machine ι) (b : ι) (p : Slot) (i : Tidx) (m' : Machine ι) : Prop where
  others : Others m b m'
  place : ∃ cont, (m'.cpu b).place = .run p i cont
  proc : (m'.cpu b).proc = (m.cpu b).proc

lemma runs_goOn {m₁ : Machine ι} (hcpu : m₁.cpu = m.cpu) (cont : Cont) :
    Runs m b p i (m₁.goOn b (.run p i cont)) where
  others := fun a hab => (others_goOn m₁ b _ a hab).trans (congrFun hcpu a)
  place := ⟨cont, by simp⟩
  proc := by simp [hcpu]

omit [DecidableEq ι] in
lemma runs_of_cpu {cont : Cont} (hp : (m.cpu b).place = .run p i cont) (hcpu : m'.cpu = m.cpu) :
    Runs m b p i m' where
  others := fun a _ => congrFun hcpu a
  place := ⟨cont, by rw [hcpu, hp]⟩
  proc := by rw [hcpu]

omit [DecidableEq ι] in
lemma Runs.of_cpu {m'' : Machine ι} (h : Runs m b p i m') (hcpu : m''.cpu = m'.cpu) :
    Runs m b p i m'' where
  others := h.others.of_cpu hcpu
  place := by rw [hcpu]; exact h.place
  proc := by rw [hcpu]; exact h.proc

lemma Runs.goOn (h : Runs m b p i m') (cont : Cont) :
    Runs m b p i (m'.goOn b (.run p i cont)) where
  others := h.others.trans (others_goOn m' b _)
  place := ⟨cont, by simp⟩
  proc := by
    rw [Machine.goOn_self]
    exact h.proc

omit [DecidableEq ι] in
lemma Runs.away (h : Runs m b p i m') : (m'.cpu b).place.Away := by
  obtain ⟨cont, hc⟩ := h.place
  rw [hc]
  trivial

omit [DecidableEq ι] in
lemma Runs.cpuOk (h : Runs m b p i m') (hproc : (m.cpu b).proc = some p) : CpuOk m' b := by
  obtain ⟨cont, hc⟩ := h.place
  exact cpuOk_of_run hc (h.proc.trans hproc)

section Calls
variable {cont : Cont} (hok : ∀ a, CpuOk m a) (hp : (m.cpu b).place = .run p i cont)
include hok hp

omit [DecidableEq ι] in
lemma proc_of_run : (m.cpu b).proc = some p := (hok b).proc p (by rw [hp]; rfl)

/-- A section under the lock: no other CPU is in a switch. -/
lemma locked_ok {m₁ : Machine ι} (hs : m.locked b m₁ = some m') (hr : Runs m b p i m₁) :
    (∀ a, CpuOk m' a) ∧ (m'.cpu b).place.Away := by
  rw [Machine.locked] at hs
  split_ifs at hs with hl
  obtain rfl := Option.some.inj hs
  refine ⟨fun a => ?_, (hr.of_cpu (Machine.setLock_cpu m₁ none)).away⟩
  by_cases hab : a = b
  · rw [hab]
    exact (hr.of_cpu (Machine.setLock_cpu m₁ none)).cpuOk (proc_of_run hok hp)
  · refine (hok a).frame_free (hr.others a hab) ?_
    rcases hl with hl | hl <;> rw [hl]
    · simp
    · simpa using Ne.symm hab

/-- A section under the lock that ends in the scheduler. -/
lemma sched_ok {m₁ : Machine ι} {f : Proc → Proc} {c : Cont} (hs : m₁.sched b p i c f = some m')
    (hlock : m₁.lock = m.lock) (hcpu : m₁.cpu = m.cpu) :
    (∀ a, CpuOk m' a) ∧ (m'.cpu b).place.Away := by
  have hproc := proc_of_run hok hp
  rw [Machine.sched, hcpu, hproc] at hs
  split_ifs at hs with hl
  obtain rfl := Option.some.inj hs
  refine ⟨fun a => ?_, by rw [Machine.goOn_self]; trivial⟩
  by_cases hab : a = b
  · subst hab
    refine cpuOk_of_place (c := .back p i) (by simp) (fun _ => rfl) (fun q hq => ?_) trivial
      (fun _ _ _ => Place.noConfusion) fun _ _ => Place.noConfusion
    rw [Machine.goOn_self]
    exact (congrArg Cpu.proc (congrFun hcpu a)).trans (hproc.trans hq)
  · refine (hok a).frame_free ((others_goOn _ b _ a hab).trans (congrFun hcpu a)) ?_
    rw [Machine.Locks, hlock] at hl
    rcases hl with hl | hl <;> rw [hl]
    · simp
    · simpa using Ne.symm hab

omit [DecidableEq ι] in
/-- A store without the lock that does not meet a switch. -/
lemma store_ok (hr : Runs m b p i m') (hlock : m'.lock = m.lock)
    (hon : ∀ a s q j, (m.cpu a).place = .switch s q j →
      (m'.proc q).onTidx = (m.proc q).onTidx ∨ j = (m'.proc q).onTidx)
    (hl : ∀ a q j, (m.cpu a).place = .swtch q j → (m'.proc q).pgdir = (m.proc q).pgdir ∧
      ((m'.proc q).pth j).kstack = ((m.proc q).pth j).kstack) :
    (∀ a, CpuOk m' a) ∧ (m'.cpu b).place.Away := by
  refine ⟨fun a => ?_, hr.away⟩
  by_cases hab : a = b
  · rw [hab]
    exact hr.cpuOk (proc_of_run hok hp)
  · refine (hok a).frame (hr.others a hab) (fun h => hlock.trans h) (fun s q j hs => ?_) (hl a)
    rcases hon a s q j hs with h | h
    · exact h.trans ((hok a).onTidx s q j hs)
    · exact h.symm

/-- The `switchuvm` of `growproc` and `exec`. -/
lemma switchuvm_ok (hs : m.switchuvm b p = some m') :
    Runs m b p i m' ∧ m'.lock = m.lock ∧ m'.proc = m.proc := by
  have hsw := switchuvm_eq_some (proc_of_run hok hp) hs
  exact ⟨⟨hsw.others, ⟨cont, by rw [hsw.self]; exact hp⟩, by rw [hsw.self]⟩, hsw.lock, hsw.proc⟩

/-- A store to the entry of one process, in parts that no switch reads. -/
lemma updProc_ok {q : Slot} {f : Proc → Proc} {c : Cont}
    (hon : ∀ a s j, (m.cpu a).place = .switch s q j →
      (f (m.proc q)).onTidx = (m.proc q).onTidx ∨ j = (f (m.proc q)).onTidx)
    (hl : ∀ a j, (m.cpu a).place = .swtch q j → (f (m.proc q)).pgdir = (m.proc q).pgdir ∧
      ((f (m.proc q)).pth j).kstack = ((m.proc q).pth j).kstack) :
    (∀ a, CpuOk ((m.updProc q f).goOn b (.run p i c)) a) ∧
      (((m.updProc q f).goOn b (.run p i c)).cpu b).place.Away := by
  refine store_ok hok hp (runs_goOn (m.updProc_cpu q f) c) rfl (fun a s r j hs => ?_) (fun a r j hs => ?_)
  · rw [Machine.goOn_proc]
    by_cases hr : r = q
    · subst hr
      rw [Machine.updProc_self]
      exact hon a s j hs
    · rw [Machine.updProc_of_ne _ _ hr]
      exact Or.inl rfl
  · rw [Machine.goOn_proc]
    by_cases hr : r = q
    · subst hr
      rw [Machine.updProc_self]
      exact hl a j hs
    · rw [Machine.updProc_of_ne _ _ hr]
      exact ⟨rfl, rfl⟩

/-- Every step of a thread keeps all CPUs in order, when its stores do not meet a switch. -/
lemma call_ok {c : Call} (hsafe : c.Safe m p cont) (hs : m.call b p i cont c = some m') :
    (∀ a, CpuOk m' a) ∧ (m'.cpu b).place.Away := by
  cases c with
  | growproc =>
    obtain ⟨-, hs⟩ := Option.ite_none_right_eq_some.mp hs
    obtain ⟨hr, hlock, hproc⟩ := switchuvm_ok hok hp hs
    exact store_ok hok hp hr hlock (fun _ _ _ _ _ => Or.inl (by rw [hproc]))
      (fun _ _ _ _ => by simp [hproc])
  | exec pgdir =>
    obtain ⟨-, hs⟩ := Option.ite_none_right_eq_some.mp hs
    obtain rfl := Option.some.inj hs
    refine updProc_ok hok hp (fun _ _ _ _ => Or.inl rfl) (fun a j hj => ?_)
    exact absurd (show (m.cpu a).place.To p by rw [hj]; rfl) (hsafe a)
  | execSwitch =>
    obtain ⟨-, hs⟩ := Option.ite_none_right_eq_some.mp hs
    obtain ⟨m₁, hm₁, rfl⟩ := Option.map_eq_some_iff.mp hs
    obtain ⟨hr, hlock, hproc⟩ := switchuvm_ok hok hp hm₁
    exact store_ok hok hp (hr.goOn .user) hlock (fun _ _ _ _ _ => Or.inl (by simp [hproc]))
      (fun _ _ _ _ => by simp [hproc])
  | allocStack page =>
    simp only [Machine.call] at hs
    split at hs
    · next np =>
      split_ifs at hs with hpage
      · obtain rfl := Option.some.inj hs
        refine updProc_ok hok hp (fun _ _ _ _ => Or.inl rfl) fun _ j _ => ⟨rfl, ?_⟩
        exact (m.proc np).updPth_kstack 0 j (f := fun t => { t with state := .unused }) rfl
      · obtain rfl := Option.some.inj hs
        refine updProc_ok hok hp (fun _ _ _ _ => Or.inl rfl) fun a j hj => ⟨rfl, ?_⟩
        have hne : j ≠ 0 := by
          rintro rfl
          exact hsafe hpage a hj
        exact congrArg Pthread.kstack (Function.update_of_ne hne _ _)
    · exact absurd hs (by simp)
  | forkPgdir pgdir =>
    simp only [Machine.call] at hs
    split at hs
    · next np =>
      have hno : ∀ a j, (m.cpu a).place ≠ .swtch np j := by
        intro a j hj
        exact hsafe a (by rw [hj]; rfl)
      split_ifs at hs
      · obtain rfl := Option.some.inj hs
        exact updProc_ok hok hp (fun _ _ _ _ => Or.inl rfl) fun a j hj => absurd hj (hno a j)
      · obtain rfl := Option.some.inj hs
        exact updProc_ok hok hp (fun _ _ _ _ => Or.inl rfl) fun a j hj => absurd hj (hno a j)
    · exact absurd hs (by simp)
  | forkTidx =>
    simp only [Machine.call] at hs
    split at hs
    · next np =>
      obtain rfl := Option.some.inj hs
      refine updProc_ok hok hp (fun a s j hj => Or.inr ?_) fun _ _ _ => ⟨rfl, rfl⟩
      by_contra hne
      exact hsafe a (by rw [hj]; exact ⟨rfl, hne⟩)
    · exact absurd hs (by simp)
  | release =>
    obtain ⟨hl, hs⟩ := Option.ite_none_right_eq_some.mp hs
    have hlocked : m.locked b m = some m' := by
      rw [Machine.locked, if_pos (show m.Locks b from Or.inr hl)]
      exact hs
    exact locked_ok hok hp hlocked (runs_of_cpu hp rfl)
  | initAllpth =>
    simp only [Machine.call] at hs
    split at hs
    · exact locked_ok hok hp hs (runs_goOn (m.updProc_cpu p _) _)
    · exact absurd hs (by simp)
  | allocproc =>
    obtain ⟨-, hs⟩ := Option.ite_none_right_eq_some.mp hs
    split at hs
    · exact locked_ok hok hp hs (runs_of_cpu hp rfl)
    · exact locked_ok hok hp hs (runs_goOn (m.updProc_cpu _ _) _)
  | forkDone =>
    simp only [Machine.call] at hs
    split at hs
    · exact locked_ok hok hp hs (runs_goOn (m.updProc_cpu _ _) _)
    · exact absurd hs (by simp)
  | threadCreate page =>
    obtain ⟨-, hs⟩ := Option.ite_none_right_eq_some.mp hs
    exact locked_ok hok hp hs (runs_of_cpu hp rfl)
  | yield => exact sched_ok hok hp hs rfl rfl
  | sleep =>
    obtain ⟨-, hs⟩ := Option.ite_none_right_eq_some.mp hs
    exact sched_ok hok hp hs rfl rfl
  | exit woken =>
    obtain ⟨-, hs⟩ := Option.ite_none_right_eq_some.mp hs
    exact sched_ok hok hp hs rfl rfl
  | threadExit woken =>
    obtain ⟨-, hs⟩ := Option.ite_none_right_eq_some.mp hs
    exact sched_ok hok hp hs rfl rfl
  | wait q =>
    obtain ⟨-, hs⟩ := Option.ite_none_right_eq_some.mp hs
    exact locked_ok hok hp hs (runs_of_cpu hp rfl)
  | threadJoin q j =>
    obtain ⟨-, hs⟩ := Option.ite_none_right_eq_some.mp hs
    exact locked_ok hok hp hs (runs_of_cpu hp rfl)
  | kill q =>
    obtain ⟨-, hs⟩ := Option.ite_none_right_eq_some.mp hs
    exact locked_ok hok hp hs (runs_of_cpu hp rfl)

end Calls

/-! ### The runs -/

/-- One step that meets the condition keeps all CPUs in order. -/
theorem step_ok {op : Op ι} (hok : ∀ a, CpuOk m a) (hs : Step m op m') (hsafe : SwitchSafe m op) :
    ∀ a, CpuOk m' a := by
  rw [Step] at hs
  cases op with
  | scheduler b =>
    obtain ⟨hothers, hfree⟩ := scheduler_others (hok b) hs
    intro a
    by_cases hab : a = b
    · subst hab
      exact (hok a).scheduler hs hsafe
    · exact (hok a).frame_free (hothers a hab) (hfree a hab)
  | call b c =>
    simp only [step] at hs
    split at hs
    · next p i cont hp =>
      rw [SwitchSafe, hp] at hsafe
      exact (call_ok hok hp hsafe hs).1
    · exact absurd hs (by simp)
  | wakeup woken =>
    obtain ⟨hl, hs⟩ := Option.ite_none_right_eq_some.mp hs
    obtain rfl := Option.some.inj hs
    exact fun a => (hok a).frame_free rfl (by simp [hl])

omit [DecidableEq ι] in
lemma boot_ok (h : Boot m) (a : ι) : CpuOk m a := by
  obtain ⟨kpgdir, pgdir, kstack, -, -, rfl⟩ := h
  exact cpuOk_of_place (c := .idle) rfl (fun hh => hh.elim)
    (fun q hq => absurd hq (by simp [Place.on])) trivial (fun _ _ _ => Place.noConfusion)
    fun _ _ => Place.noConfusion

lemma cpuOk_of_safeReach (h : SafeReach m) : ∀ a, CpuOk m a := by
  refine Reachable.invariant (I := fun m => ∀ a, CpuOk m a) (fun m hm => boot_ok hm) ?_ h
  exact fun m op m' hok hs => step_ok hok hs.1 hs.2

/-- **Every switch to a thread is a full one.**  In every run in which `switchpth` is called only
while `uvm` is set, and no store without the lock meets a switch, a thread is switched to with the
page directory of its process and its own kernel stack. -/
theorem switchRight_of_switchSafe (h : SafeReach m) : SwitchRight m :=
  fun a p i hp => (cpuOk_of_safeReach h a).loaded p i hp

/-- Two CPUs; two threads of the first process run one after the other on the first one. -/
theorem switchRight_of_switchSafe_twoThreads : ∃ m : Machine (Fin 2), SafeReach m ∧
    (m.cpu 0).place = .swtch 0 1 ∧ SwitchRight m := by
  have hrun : ((run (guardedNext step SwitchSafe) (Machine.boot (ι := Fin 2) 4096 8192 12288)
      (List.replicate 5 (.scheduler 0) ++ [.call 0 .release, .call 0 (.threadCreate 16384),
        .call 0 .yield] ++ List.replicate 3 (.scheduler 0))).any fun m =>
      decide ((m.cpu 0).place = .swtch 0 1)) = true := by
    decide +kernel
  obtain ⟨m, hm, hplace⟩ := (Option.any_eq_true _ _).mp hrun
  have hnext : ∀ (m : Machine (Fin 2)) op m', guardedNext step SwitchSafe m op = some m' →
      Guarded Step SwitchSafe m op m' := fun _ _ _ h => guardedNext_eq_some.mp h
  have hreach : SafeReach m :=
    Reachable.run hnext (.start ⟨4096, 8192, 12288, by decide, by decide, rfl⟩) hm
  exact ⟨m, hreach, of_decide_eq_true hplace, switchRight_of_switchSafe hreach⟩

/-- The second process grows on the second CPU while the first CPU is between two threads of the
first process: the second thread is switched to with the page directory of the kernel. -/
theorem not_switchRight : ∃ m : Machine (Fin 2), Reach m ∧ ¬SwitchRight m := by
  have hrun : ((run step (Machine.boot (ι := Fin 2) 4096 8192 12288)
      (List.replicate 5 (.scheduler 0) ++ [.call 0 .release, .call 0 (.threadCreate 16384),
        .call 0 .allocproc, .call 0 (.allocStack 20480), .call 0 (.forkPgdir 24576),
        .call 0 .forkTidx, .call 0 .forkDone] ++ List.replicate 6 (.scheduler 1) ++
      [.call 1 .release, .call 0 .yield, .scheduler 0, .call 1 .growproc, .scheduler 0,
        .scheduler 0])).any fun m =>
      decide ((m.cpu 0).place = .swtch 0 1 ∧ (m.cpu 0).cr3 = 4096 ∧
        (m.proc 0).pgdir = 8192)) = true := by
    decide +kernel
  obtain ⟨m, hm, hall⟩ := (Option.any_eq_true _ _).mp hrun
  obtain ⟨hplace, hcr3, hpgdir⟩ := of_decide_eq_true hall
  refine ⟨m, Reachable.run (fun _ _ _ h => h)
    (.start ⟨4096, 8192, 12288, by decide, by decide, rfl⟩) hm, fun h => ?_⟩
  have hload := (h 0 0 1 hplace).1
  rw [hcr3, hpgdir] at hload
  exact absurd hload (by decide)

/-! ### One CPU -/

/-- Between two threads of one process `uvm` is set. -/
def Place.UvmDue (m : Machine ι) : Place → Prop
  | .inner scheduled p _ | .switch scheduled p _ => scheduled = some p → m.uvm = true
  | _ => True

omit [DecidableEq ι] in
lemma Place.UvmDue.set {c : Place} (h : c.UvmDue m) : c.UvmSet m := by
  cases c with
  | switch scheduled p i => exact h
  | _ => trivial

/-- A scheduler that is between two threads of one process keeps `uvm` set. -/
lemma uvmDue_scheduler (hok : CpuOk m a) (h : (m.cpu a).place.UvmDue m)
    (hs : m.scheduler a = some m') : (m'.cpu a).place.UvmDue m' := by
  unfold Machine.scheduler at hs
  split at hs
  · split_ifs at hs
    obtain rfl := Option.some.inj hs
    rw [Machine.goOn_self]
    trivial
  · next s p hp =>
    have hpast : ∀ q, s = some q → q.val < p := by
      have h := hok.past
      rwa [hp] at h
    split_ifs at hs with hlt hrun
    · obtain rfl := Option.some.inj hs
      rw [Machine.goOn_self]
      exact fun he => absurd (hpast _ he) (lt_irrefl p)
    · obtain rfl := Option.some.inj hs
      rw [Machine.goOn_self]
      trivial
    · obtain rfl := Option.some.inj hs
      rw [Machine.goOn_self]
      trivial
  · next s p i hp =>
    rw [hp] at h
    by_cases hlt : i < NPTH
    · rw [dif_pos hlt] at hs
      by_cases hrun : ((m.proc p).pth ⟨i, hlt⟩).state = .runnable
      · rw [if_pos hrun] at hs
        obtain rfl := Option.some.inj hs
        rw [Machine.updCpu_self]
        exact h
      · rw [if_neg hrun] at hs
        obtain rfl := Option.some.inj hs
        rw [Machine.goOn_self]
        exact h
    · rw [dif_neg hlt] at hs
      obtain rfl := Option.some.inj hs
      rw [Machine.updCpu_self]
      trivial
  · split_ifs at hs
    · obtain ⟨m₁, -, rfl⟩ := Option.map_eq_some_iff.mp hs
      rw [Machine.goOn_self]
      trivial
    · obtain ⟨m₁, -, rfl⟩ := Option.map_eq_some_iff.mp hs
      rw [Machine.goOn_self]
      trivial
  · obtain rfl := Option.some.inj hs
    rw [Machine.goOn_self]
    trivial
  · exact absurd hs (by simp)
  · obtain rfl := Option.some.inj hs
    rw [Machine.goOn_self]
    exact fun _ => rfl

omit [DecidableEq ι] in
lemma Place.Away.uvmDue {c : Place} (h : c.Away) : c.UvmDue m := by
  cases c with
  | inner _ _ _ | switch _ _ _ => exact h.elim
  | _ => trivial

omit [DecidableEq ι] in
lemma call_safe_of_run {cont : Cont} (hrun : ∀ a, (m.cpu a).place = .run p i cont) (c : Call) :
    c.Safe m p cont := by
  cases c with
  | exec pgdir =>
    intro a h
    rw [hrun a] at h
    exact h
  | allocStack page =>
    cases cont with
    | allocStack np =>
      intro _ a h
      rw [hrun a] at h
      exact absurd h Place.noConfusion
    | _ => trivial
  | forkPgdir pgdir =>
    cases cont with
    | forkPgdir np =>
      intro a h
      rw [hrun a] at h
      exact h
    | _ => trivial
  | forkTidx =>
    cases cont with
    | forkTidx np =>
      intro a h
      rw [hrun a] at h
      exact h
    | _ => trivial
  | _ => trivial

/-- On one CPU every run meets the condition. -/
lemma safe_of_subsingleton [Subsingleton ι] (h : Reach m) :
    SafeReach m ∧ ∀ a, (m.cpu a).place.UvmDue m := by
  induction h with
  | start h =>
    refine ⟨.start h, fun a => ?_⟩
    obtain ⟨kpgdir, pgdir, kstack, -, -, rfl⟩ := h
    trivial
  | @next m m' op _ hs ih =>
    obtain ⟨hreach, hdue⟩ := ih
    have hok := cpuOk_of_safeReach hreach
    cases op with
    | scheduler a =>
      refine ⟨hreach.next ⟨hs, (hdue a).set⟩, fun b => ?_⟩
      rw [Subsingleton.elim b a]
      exact uvmDue_scheduler (hok a) (hdue a) hs
    | call b c =>
      rw [Step, step] at hs
      split at hs
      · next p i cont hp =>
        have hrun : ∀ a, (m.cpu a).place = .run p i cont := fun a => by
          rw [Subsingleton.elim a b, hp]
        have hsafe : c.Safe m p cont := call_safe_of_run hrun c
        have hop : SwitchSafe m (.call b c) := by
          rw [SwitchSafe, hp]
          exact hsafe
        refine ⟨hreach.next ⟨?_, hop⟩, fun a => ?_⟩
        · rw [Step, step, hp]
          exact hs
        · rw [Subsingleton.elim a b]
          exact (call_ok hok hp hsafe hs).2.uvmDue
      · exact absurd hs (by simp)
    | wakeup woken =>
      have hop : SwitchSafe m (.wakeup woken) := trivial
      refine ⟨hreach.next ⟨hs, hop⟩, fun a => ?_⟩
      obtain ⟨-, hs⟩ := Option.ite_none_right_eq_some.mp hs
      obtain rfl := Option.some.inj hs
      exact hdue a

/-- On one CPU every thread is switched to with the page directory of its process and its own
kernel stack. -/
theorem switchRight_of_subsingleton [Subsingleton ι] (h : Reach m) : SwitchRight m :=
  fun a p i hp => (cpuOk_of_safeReach (safe_of_subsingleton h).1 a).loaded p i hp

end Xv6Projects.Threads.Switch
