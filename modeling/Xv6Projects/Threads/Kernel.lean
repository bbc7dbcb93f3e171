import Mathlib.Data.List.FinRange
import Xv6Projects.Vm.PageTable

/-!
# Processes and threads (project03)

The process table, whose entries hold a table of threads each, and the functions of `proc.c`
that create, schedule, join and end threads.  There is one CPU.  A function that runs under
`ptable.lock` is one step of the model; a function that gives up the lock or the CPU before
it is finished keeps its place in the thread that runs it.  `none` stands for a panic or a
reference through a null pointer.
-/

namespace Xv6Projects.Threads

open Vm (PGSIZE KERNBASE PGROUNDUP)

/-! ### Data -/

/-- The number of process slots. -/
def NPROC : ℕ := 64

/-- The number of thread slots of a process. -/
def NPTH : ℕ := 64

/-- The number of descriptors of a process. -/
def NOFILE : ℕ := 16

instance : NeZero NPROC := ⟨by decide⟩
instance : NeZero NPTH := ⟨by decide⟩
instance : NeZero NOFILE := ⟨by decide⟩

/-- A slot of the process table. -/
abbrev Slot := Fin NPROC

/-- A slot of the thread table of a process. -/
abbrev Tidx := Fin NPTH

/-- A file descriptor. -/
abbrev Fd := Fin NOFILE

/-- `enum procstate`, for processes and for threads. -/
inductive State
  | unused | embryo | sleeping | runnable | running | zombie
deriving DecidableEq, Repr

/-- What a thread can sleep on. -/
inductive Chan
  /-- A number used as an address: a thread id, or zero for the null pointer. -/
  | word (n : ℤ)
  /-- The address of a process table entry, the channel of `wait`. -/
  | proc (p : Slot)
  /-- Any other kernel address. -/
  | addr (a : ℕ)
deriving DecidableEq, Repr

/-- Where a thread stands in a function that gives up the lock or the CPU before it is
finished. -/
inductive Cont
  /-- User code, or a system call that none of the other cases describes. -/
  | user
  /-- In `fork`: slot `np` is allocated, and its kernel stack is not. -/
  | forkStack (np : Slot)
  /-- In `fork`: `allocproc` has returned slot `np`. -/
  | forkCopy (np : Slot)
  /-- In `fork`: the process has been copied into slot `np`. -/
  | forkDone (np : Slot)
  /-- In the `sleep` of `wait`. -/
  | wait
  /-- In the `sleep` of `thread_join`, with its argument and its variable `havepth`. -/
  | join (t : ℤ) (havepth : Bool)
  /-- In `exit`, before descriptor `fd` is looked at; after the last one comes `cwd`. -/
  | exitFile (fd : ℕ)
  /-- In `exit`, before the lock is taken. -/
  | exitLock
deriving DecidableEq, Repr

/-- Where a thread stands in the protocol of the log. -/
inductive FsOp
  /-- Outside. -/
  | out
  /-- `begin_op` has returned, and `end_op` has not been called. -/
  | inside
  /-- In the `commit` of `end_op`. -/
  | commit
deriving DecidableEq, Repr

/-- `struct pthread`, with what the kernel stack of the thread tells about its place in the
kernel: `cont`, `fsOp`, and the sleeplocks it holds. -/
structure Pthread where
  kstack : ℕ
  state : State
  tid : ℤ
  chan : Chan
  retval : UInt32
  cont : Cont
  fsOp : FsOp
  sleeplocks : List ℕ
deriving DecidableEq, Repr

/-- `struct proc`.  Of the page directory only the set of mapped user pages is kept. -/
structure Proc where
  sz : ℕ
  pgdir : ℕ → Bool
  state : State
  pid : ℤ
  parent : Option Slot
  killed : Bool
  ofile : Fd → Option ℕ
  cwd : Option ℕ
  onTidx : Tidx
  pth : Tidx → Pthread
  kstacks : Tidx → ℕ
  ustacks : Tidx → ℕ

/-- What the CPU does.  The process is `c->proc`. -/
inductive Cpu
  /-- The scheduler is between two passes over the table; the lock is free. -/
  | idle
  /-- The current thread of `p` runs; the lock is free. -/
  | run (p : Slot)
  /-- The current thread of `p` has been switched to in `wait` or `thread_join`, which hold
  the lock. -/
  | resume (p : Slot)
  /-- The current thread of `p` has switched to the scheduler, which holds the lock. -/
  | sched (p : Slot)
deriving DecidableEq, Repr

/-- `ptable` and the globals of `proc.c`, the part of the allocator that serves kernel stacks,
and the log. -/
structure Kernel where
  proc : Slot → Proc
  nextpid : ℤ
  nextTid : ℤ
  initproc : Option Slot
  cpu : Cpu
  /-- The pages that `kalloc` has returned as kernel stacks and that have not been passed to
  `kfree`, with the process they were obtained for. -/
  kmem : ℕ → Option Slot
  /-- A page has been passed to `kfree` that was not obtained, or was already given back. -/
  refreed : Bool
  /-- `log.outstanding`. -/
  outstanding : ℤ
  /-- `log.committing`. -/
  committing : Bool
  /-- `log.lh.n`. -/
  lhN : ℤ
  /-- The word `locked` of each sleeplock. -/
  locked : ℕ → Bool

/-- A zeroed thread slot. -/
def Pthread.zero : Pthread where
  kstack := 0
  state := .unused
  tid := 0
  chan := .word 0
  retval := 0
  cont := .user
  fsOp := .out
  sleeplocks := []

/-- A zeroed table entry. -/
def Proc.zero : Proc where
  sz := 0
  pgdir := fun _ => false
  state := .unused
  pid := 0
  parent := none
  killed := false
  ofile := fun _ => none
  cwd := none
  onTidx := 0
  pth := fun _ => Pthread.zero
  kstacks := fun _ => 0
  ustacks := fun _ => 0

/-- The slots in the order of the loops over the process table. -/
def slots : List Slot := List.finRange NPROC

/-- The slots in the order of the loops over a thread table. -/
def tidxs : List Tidx := List.finRange NPTH

/-! ### Threads of one process -/

namespace Proc

/-- Change one thread. -/
def updPth (x : Proc) (i : Tidx) (f : Pthread → Pthread) : Proc :=
  { x with pth := Function.update x.pth i (f (x.pth i)) }

/-- `mypth`. -/
def mypth (x : Proc) : Pthread := x.pth x.onTidx

/-- Change the current thread. -/
def updMypth (x : Proc) (f : Pthread → Pthread) : Proc := x.updPth x.onTidx f

/-- Some thread is in state `s`. -/
def hasState (x : Proc) (s : State) : Bool := tidxs.any fun i => (x.pth i).state = s

/-- The descriptor that `fdalloc` finds. -/
def freeFd (x : Proc) : Option Fd := (List.finRange NOFILE).find? fun fd => x.ofile fd = none

/-- The state that `set_proc_state` computes from the threads. -/
def procState (x : Proc) : State :=
  if x.hasState .running then .running
  else if x.hasState .runnable then .runnable
  else if x.hasState .sleeping then .sleeping
  else if x.hasState .zombie then .zombie
  else .unused

/-- `set_proc_state`. -/
def setProcState (x : Proc) : Proc := { x with state := x.procState }

/-- `sleep`, up to the switch to the scheduler, at place `c`. -/
def sleep (x : Proc) (chan : Chan) (c : Cont) : Proc :=
  (x.updMypth fun t => { t with chan := chan, state := .sleeping, cont := c }).setProcState

/-- `yield`, up to the switch to the scheduler. -/
def yield (x : Proc) : Proc :=
  { x.updMypth fun t => { t with state := .runnable } with state := .runnable }

/-- The thread is asleep on channel `c`. -/
def AsleepOn (x : Proc) (c : Chan) (i : Tidx) : Prop :=
  (x.pth i).state = .sleeping ∧ (x.pth i).chan = c

instance (x : Proc) (c : Chan) (i : Tidx) : Decidable (x.AsleepOn c i) :=
  inferInstanceAs (Decidable (_ ∧ _))

/-- The threads after the inner loop of `wakeup1`. -/
def wokenPth (x : Proc) (c : Chan) (i : Tidx) : Pthread :=
  if x.AsleepOn c i then { x.pth i with state := .runnable } else x.pth i

/-- The process state after the inner loop of `wakeup1`. -/
def wokenState (x : Proc) (c : Chan) : State :=
  if x.state = .sleeping ∧ tidxs.any fun i => x.AsleepOn c i then .runnable else x.state

/-- The part of `wakeup1` for one process. -/
def wakeup1 (x : Proc) (c : Chan) : Proc :=
  if x.state = .sleeping ∨ x.state = .runnable ∨ x.state = .running then
    { x with pth := x.wokenPth c, state := x.wokenState c }
  else x

/-- The part of `kill` for the process it finds. -/
def kill (x : Proc) : Proc :=
  { x with
    killed := true
    state := if x.state = .sleeping then .runnable else x.state
    pth := fun i =>
      if (x.pth i).state = .sleeping then { x.pth i with state := .runnable } else x.pth i }

/-- The end of `exit`: the process and all its threads become zombies. -/
def exit (x : Proc) : Proc :=
  { x with
    state := .zombie
    pth := fun i =>
      if (x.pth i).state = .unused then x.pth i else { x.pth i with state := .zombie } }

/-- The end of `thread_exit`. -/
def threadExit (x : Proc) (v : UInt32) : Proc :=
  (x.updMypth fun t => { t with retval := v, state := .zombie }).setProcState

/-- Thread `i`, a zombie, is given back by `thread_join`. -/
def joinPth (x : Proc) (i : Tidx) : Proc :=
  x.updPth i fun t => { t with kstack := 0, state := .unused, tid := 0, retval := 0 }

/-- The threads whose kernel stack `wait` frees. -/
def reapPages (x : Proc) : List ℕ :=
  (tidxs.filter fun i => (x.pth i).kstack ≠ 0).map fun i => (x.pth i).kstack

/-- The table entry after `wait` has reaped it. -/
def reap (x : Proc) : Proc :=
  { x with
    pth := fun i => { x.pth i with kstack := 0, tid := 0, state := .unused }
    kstacks := fun i => if (x.pth i).kstack ≠ 0 then 0 else x.kstacks i
    ustacks := fun _ => 0
    pgdir := fun _ => false
    pid := 0
    parent := none
    killed := false
    state := .unused }

/-- `init_allpth` finds a kernel stack in slot `j`, which is not the slot `i` of the caller. -/
def HasStack (x : Proc) (i j : Tidx) : Prop := j ≠ i ∧ ((x.pth j).kstack ≠ 0 ∨ x.kstacks j ≠ 0)

instance (x : Proc) (i j : Tidx) : Decidable (x.HasStack i j) :=
  inferInstanceAs (Decidable (_ ∧ _))

/-- The pages that `init_allpth` frees. -/
def initPages (x : Proc) (i : Tidx) : List ℕ := (tidxs.filter fun j => x.HasStack i j).map x.kstacks

/-- The table entry after `init_allpth` for thread `i`. -/
def initAllpth (x : Proc) (i : Tidx) : Proc :=
  { x with
    pth := fun j =>
      if j = i then x.pth j else { x.pth j with kstack := 0, state := .unused, tid := 0 }
    kstacks := fun j => if x.HasStack i j then 0 else x.kstacks j
    ustacks := fun j => if x.HasStack i j then 0 else x.ustacks j }

/-- The stores of `exec` that install an image of `sz` bytes. -/
def commit (x : Proc) (sz : ℕ) : Proc :=
  { x with
    sz := sz
    pgdir := fun v => v < sz / PGSIZE
    ustacks := Function.update x.ustacks x.onTidx sz }

end Proc

/-! ### User memory -/

/-- The loop of `allocuvm` over `n` pages from page `v`, when the first `avail` pages can be
had: whether it reached the end, and the mapped pages. -/
def allocLoop (pgdir : ℕ → Bool) (v : ℕ) : ℕ → ℕ → Option (Bool × (ℕ → Bool))
  | 0, _ => some (true, pgdir)
  | _ + 1, 0 => some (false, pgdir)
  | n + 1, avail + 1 =>
      -- `remap`
      if pgdir v then none
      else allocLoop (Function.update pgdir v true) (v + 1) n avail

/-- `deallocuvm` over the pages from `lo` to `hi`. -/
def dealloc (pgdir : ℕ → Bool) (lo hi : ℕ) : ℕ → Bool := fun v =>
  if lo ≤ v ∧ v < hi then false else pgdir v

/-- `allocuvm`: the new size, or `none` when it returns zero, and the mapped pages. -/
def allocuvm (pgdir : ℕ → Bool) (oldsz newsz avail : ℕ) : Option (Option ℕ × (ℕ → Bool)) :=
  if KERNBASE ≤ newsz then some (none, pgdir)
  else if newsz < oldsz then some (some oldsz, pgdir)
  else (allocLoop pgdir (PGROUNDUP oldsz) (PGROUNDUP newsz - PGROUNDUP oldsz) avail).map fun r =>
    if r.1 then (some newsz, r.2)
    else (none, dealloc r.2 (PGROUNDUP oldsz) (PGROUNDUP newsz))

/-- `growproc` with a positive argument. -/
def Proc.growproc (x : Proc) (n avail : ℕ) : Option Proc :=
  (allocuvm x.pgdir x.sz (x.sz + n) avail).map fun r =>
    { x with sz := r.1.getD x.sz, pgdir := r.2 }

/-- `alloc_ustack`: whether it returned a stack, and the table entry. -/
def Proc.allocUstack (x : Proc) (i : Tidx) (avail : ℕ) : Option (Bool × Proc) :=
  if x.ustacks i = 0 then
    (allocuvm x.pgdir (PGROUNDUP x.sz * PGSIZE) (PGROUNDUP x.sz * PGSIZE + PGSIZE) avail).map
      fun r =>
        match r.1 with
        | none => (false, { x with pgdir := r.2 })
        | some sz =>
            (true, { x with pgdir := r.2, ustacks := Function.update x.ustacks i sz, sz := sz })
  else some (true, x)

/-- `copyuvm` finds every page below `sz`. -/
@[irreducible] def AllMapped (x : Proc) : Prop := ∀ v < PGROUNDUP x.sz, x.pgdir v = true

instance (x : Proc) : Decidable (AllMapped x) :=
  decidable_of_iff (∀ v < PGROUNDUP x.sz, x.pgdir v = true) (by rw [AllMapped])

/-! ### Creating processes and threads -/

namespace Proc

/-- A table entry after the locked part of `allocproc`.  The new thread is outside every
function. -/
def allocSlot (pid tid : ℤ) (x : Proc) : Proc :=
  { x.updPth 0 fun t =>
      { t with state := .embryo, tid := tid, cont := .user, fsOp := .out, sleeplocks := [] } with
    state := .embryo
    pid := pid
    onTidx := 0 }

/-- The rest of `allocproc`: the stacks are cleared, and page `n` is the kernel stack of the
first thread. -/
def allocStack (n : ℕ) (x : Proc) : Proc :=
  { x.updPth 0 fun t => { t with kstack := n } with
    kstacks := Function.update (fun _ => 0) 0 n
    ustacks := fun _ => 0 }

/-- `allocproc` finds no page.  The stores to the states of the process and of the thread are one
step here. -/
def allocFail (x : Proc) : Proc :=
  { x.updPth 0 fun t => { t with state := .unused } with
    kstacks := fun _ => 0
    ustacks := fun _ => 0
    state := .unused }

/-- What `userinit` does with the new process: `inituvm` maps one page. -/
def userinit (x : Proc) : Proc :=
  { x.updPth 0 fun t => { t with state := .runnable } with
    pgdir := fun v => v = 0
    sz := PGSIZE
    cwd := some 0
    state := .runnable }

/-- The new process of a `fork` whose `copyuvm` has failed.  The stores to the states of the
process and of the thread are one step here. -/
def forkFail (x : Proc) : Proc :=
  { x.updPth 0 fun t => { t with kstack := 0, state := .unused } with
    kstacks := Function.update x.kstacks 0 0
    state := .unused }

/-- What `fork` copies from process `x` with table slot `p` into the new process `y`. -/
def forkImage (p : Slot) (x y : Proc) : Proc :=
  { y with
    pgdir := fun v => v < PGROUNDUP x.sz
    ofile := fun fd => if x.ofile fd ≠ none then x.ofile fd else y.ofile fd
    cwd := x.cwd
    ustacks := Function.update (Function.update x.ustacks x.onTidx (x.ustacks 0)) 0
      (x.ustacks x.onTidx)
    onTidx := 0
    sz := x.sz
    parent := some p }

/-- The new process at the end of `fork`. -/
def forkDone (x : Proc) : Proc :=
  { x.updPth 0 fun t => { t with state := .runnable } with state := .runnable }

/-- `allocpth` for slot `i`.  The new thread is outside every function. -/
def allocpth (i : Tidx) (tid : ℤ) (n : ℕ) (x : Proc) : Proc :=
  { x.updPth i fun t =>
      { t with state := .embryo, tid := tid, kstack := n, cont := .user, fsOp := .out,
               sleeplocks := [] } with
    kstacks := Function.update x.kstacks i n }

/-- The label `bad` of `thread_create`, when `alloc_ustack` has failed. -/
def createFail (i : Tidx) (x : Proc) : Proc :=
  { x.updPth i fun t => { t with kstack := 0, state := .unused, tid := 0 } with
    kstacks := Function.update x.kstacks i 0 }

/-- The end of a successful `thread_create`. -/
def createDone (i : Tidx) (x : Proc) : Proc :=
  { x.updPth i fun t => { t with state := .runnable, retval := 0 } with sz := x.ustacks i }

end Proc

namespace Kernel

/-- Change one table entry. -/
def updProc (k : Kernel) (p : Slot) (f : Proc → Proc) : Kernel :=
  { k with proc := Function.update k.proc p (f (k.proc p)) }

/-- Change every table entry in the same way. -/
def mapProc (k : Kernel) (f : Proc → Proc) : Kernel := { k with proc := fun p => f (k.proc p) }

/-- Change what the CPU does. -/
def setCpu (k : Kernel) (c : Cpu) : Kernel := { k with cpu := c }

/-- The current thread of `p` goes on at place `c`. -/
def setCont (k : Kernel) (p : Slot) (c : Cont) : Kernel :=
  k.updProc p fun x => x.updMypth fun t => { t with cont := c }

/-- The state after `pinit`, before the first process. -/
def pinit : Kernel where
  proc := fun _ => Proc.zero
  nextpid := 1
  nextTid := 1
  initproc := none
  cpu := .idle
  kmem := fun _ => none
  refreed := false
  outstanding := 0
  committing := false
  lhN := 0
  locked := fun _ => false

/-! ### Pages for kernel stacks -/

/-- `kalloc` returns page `n` for a kernel stack of `p`. -/
def kalloc (k : Kernel) (p : Slot) (n : ℕ) : Option Kernel :=
  if n ≠ 0 ∧ k.kmem n = none then some { k with kmem := Function.update k.kmem n (some p) }
  else none

/-- `kfree`, which panics for the null pointer. -/
def kfree (k : Kernel) (n : ℕ) : Option Kernel :=
  if n = 0 then none
  else some { k with
    kmem := Function.update k.kmem n none
    refreed := k.refreed || (k.kmem n).isNone }

/-- `kfree` for each page of a list. -/
def kfreeAll (k : Kernel) : List ℕ → Option Kernel
  | [] => some k
  | n :: ns => (kfree k n).bind fun k => kfreeAll k ns

/-! ### Sleeping and waking up -/

/-- The current thread of `p` goes to sleep at place `c`. -/
def sleep (k : Kernel) (p : Slot) (chan : Chan) (c : Cont) : Kernel :=
  (k.updProc p fun x => x.sleep chan c).setCpu (.sched p)

/-- `yield`, up to the switch to the scheduler. -/
def yield (k : Kernel) (p : Slot) : Kernel := (k.updProc p Proc.yield).setCpu (.sched p)

/-- `wakeup1`. -/
def wakeup1 (k : Kernel) (c : Chan) : Kernel := k.mapProc fun x => x.wakeup1 c

/-- `kill`: the first process with this pid. -/
def kill (k : Kernel) (pid : ℤ) : Kernel :=
  match slots.find? (fun q => (k.proc q).pid = pid) with
  | none => k
  | some q => k.updProc q Proc.kill

/-- The channel `&ticks`. -/
def ticks : ℕ := 0

/-- `trap` for a timer interrupt while the current thread of `p` runs. -/
def timer (k : Kernel) (p : Slot) : Kernel :=
  let k := k.wakeup1 (.addr ticks)
  if (k.proc p).state = .running then k.yield p else k

/-! ### The scheduler -/

/-- The inner loop of `scheduler`: the first runnable thread. -/
def nextPth (x : Proc) (is : List Tidx) : Option Tidx :=
  is.find? fun i => (x.pth i).state = .runnable

/-- The outer loop of `scheduler`: the first thread that is dispatched. -/
def nextProc (k : Kernel) (ps : List Slot) : Option (Slot × Tidx) :=
  ps.findSome? fun q =>
    if (k.proc q).state = .runnable then (nextPth (k.proc q) tidxs).map fun i => (q, i) else none

/-- A thread that was switched out at place `c` holds the lock when it is switched to, or
releases it at once. -/
def cpuAt (p : Slot) : Cont → Cpu
  | .wait | .join _ _ => .resume p
  | _ => .run p

/-- The switch to thread `i` of `p`, which clears its channel. -/
def switchTo (k : Kernel) (p : Slot) (i : Tidx) : Kernel :=
  (k.updProc p fun x =>
    { x.updPth i fun t => { t with state := .running, chan := .word 0 } with onTidx := i }).setCpu
    (cpuAt p ((k.proc p).pth i).cont)

/-- The branch of `scheduler` for a process that is scheduled anew. -/
def dispatch (k : Kernel) (p : Slot) (i : Tidx) : Kernel :=
  (k.updProc p fun x => { x with state := .running }).switchTo p i

/-- The rest of a pass of `scheduler` over the slots `ps`. -/
def pass (k : Kernel) (ps : List Slot) : Kernel :=
  match nextProc k ps with
  | some (q, i) => k.dispatch q i
  | none => k.setCpu .idle

/-- `scheduler` goes on after the current thread of `p` has switched to it. -/
def schedule (k : Kernel) (p : Slot) : Kernel :=
  match nextPth (k.proc p) (tidxs.drop ((k.proc p).onTidx + 1)) with
  | some i => k.switchTo p i
  | none => k.pass (slots.drop (p + 1))

/-! ### Processes -/

/-- The first unused slot. -/
def unusedSlot (k : Kernel) : Option Slot := slots.find? fun q => (k.proc q).state = .unused

/-- The locked part of `allocproc` for slot `np`. -/
def allocSlot (k : Kernel) (np : Slot) : Kernel :=
  { k.updProc np (·.allocSlot k.nextpid k.nextTid) with
    nextpid := (k.nextpid + 1).bmod (2 ^ 32)
    nextTid := (k.nextTid + 1).bmod (2 ^ 32) }

/-- `allocproc` after its locked part: page `n` is the kernel stack of the first thread. -/
def allocStack (k : Kernel) (np : Slot) (n : ℕ) : Option Kernel :=
  (k.kalloc np n).map fun k => k.updProc np (·.allocStack n)

/-- `userinit`, with `allocproc`. -/
def userinit (k : Kernel) (n : ℕ) : Option Kernel :=
  k.unusedSlot.bind fun np => ((k.allocSlot np).allocStack np n).map fun k =>
    { k.updProc np Proc.userinit with initproc := some np }

/-- `fork`, the locked part of `allocproc`. -/
def forkAlloc (k : Kernel) (p : Slot) : Kernel :=
  match k.unusedSlot with
  | none => k
  | some np => (k.allocSlot np).setCont p (.forkStack np)

/-- `fork`, the rest of `allocproc` for slot `np`. -/
def forkStack (k : Kernel) (p np : Slot) : Option ℕ → Option Kernel
  | none => some ((k.updProc np Proc.allocFail).setCont p .user)
  | some n => (k.allocStack np n).map fun k => k.setCont p (.forkCopy np)

/-- `fork`, when `copyuvm` fails. -/
def forkFail (k : Kernel) (p np : Slot) : Option Kernel :=
  (k.kfree ((k.proc np).pth 0).kstack).map fun k =>
    (k.updProc np Proc.forkFail).setCont p .user

/-- `fork`, after `allocproc` has returned slot `np`; `ok` tells whether `copyuvm` found
enough pages. -/
def forkCopy (k : Kernel) (p np : Slot) (ok : Bool) : Option Kernel :=
  if ok then
    -- `pte should exist`, `page not present`
    if AllMapped (k.proc p) then
      some ((k.updProc np (Proc.forkImage p (k.proc p))).setCont p (.forkDone np))
    else none
  else k.forkFail p np

/-- The end of `fork`. -/
def forkDone (k : Kernel) (p np : Slot) : Kernel :=
  (k.updProc np Proc.forkDone).setCont p .user

/-- The channel `curproc->parent`. -/
def parentChan : Option Slot → Chan
  | none => .word 0
  | some q => .proc q

/-- The start of `exit`. -/
def exitBegin (k : Kernel) (p : Slot) : Option Kernel :=
  -- `init exiting`
  if k.initproc = some p then none else some (k.setCont p (.exitFile 0))

/-- `exit` closes descriptor `fd`, or gives back `cwd` after the last one. -/
def exitFile (k : Kernel) (p : Slot) (fd : ℕ) : Kernel :=
  if h : fd < NOFILE then
    (k.updProc p fun x => { x with ofile := Function.update x.ofile ⟨fd, h⟩ none }).setCont p
      (.exitFile (fd + 1))
  else (k.updProc p fun x => { x with cwd := none }).setCont p .exitLock

/-- The children of `p` become children of `initproc`. -/
def adopt (k : Kernel) (p : Slot) : Kernel :=
  k.mapProc fun x => if x.parent = some p then { x with parent := k.initproc } else x

/-- Pass the children of `p` to `initproc`, and wake it up if one of them is a zombie. -/
def reparent (k : Kernel) (p : Slot) : Kernel :=
  if slots.any fun q => (k.proc q).parent = some p ∧ (k.proc q).state = .zombie then
    (k.adopt p).wakeup1 (parentChan k.initproc)
  else k.adopt p

/-- The locked part of `exit`. -/
def exit (k : Kernel) (p : Slot) : Kernel :=
  (((k.wakeup1 (parentChan (k.proc p).parent)).reparent p).updProc p Proc.exit).setCpu (.sched p)

/-- The zombie in slot `q` is reaped. -/
def reap (k : Kernel) (q : Slot) : Option Kernel :=
  (k.kfreeAll (k.proc q).reapPages).map fun k => k.updProc q Proc.reap

/-- The loop of `wait`, up to its return or its sleep. -/
def wait (k : Kernel) (p : Slot) : Option Kernel :=
  match slots.find? (fun q => (k.proc q).parent = some p ∧ (k.proc q).state = .zombie) with
  | some q => (k.reap q).map fun k => (k.setCont p .user).setCpu (.run p)
  | none =>
      if (slots.any fun q => (k.proc q).parent = some p) ∧ (k.proc p).killed = false then
        some (k.sleep p (.proc p) .wait)
      else some ((k.setCont p .user).setCpu (.run p))

/-- `init_allpth` for the current thread of `p`. -/
def initAllpth (k : Kernel) (p : Slot) : Option Kernel :=
  (k.kfreeAll ((k.proc p).initPages (k.proc p).onTidx)).map fun k =>
    k.updProc p fun x => x.initAllpth x.onTidx

/-- `exec` from its commit to a new image of `sz` bytes on. -/
def exec (k : Kernel) (p : Slot) (sz : ℕ) : Option Kernel :=
  (k.updProc p fun x => x.commit sz).initAllpth p

/-- `growproc` with a positive argument. -/
def growproc (k : Kernel) (p : Slot) (n avail : ℕ) : Option Kernel :=
  ((k.proc p).growproc n avail).map fun x => k.updProc p fun _ => x

/-! ### Threads -/

/-- `allocpth`, when it finds slot `i` and page `n`. -/
def allocpth (k : Kernel) (p : Slot) (i : Tidx) (n : ℕ) : Option Kernel :=
  (k.kalloc p n).map fun k =>
    { k.updProc p (·.allocpth i k.nextTid n) with nextTid := (k.nextTid + 1).bmod (2 ^ 32) }

/-- `thread_create`, with the page that `kalloc` returns for the kernel stack, and the number
of pages it can return for the user stack.  Without a slot or a kernel stack the code
refers to the null pointer `npth`. -/
def threadCreate (k : Kernel) (p : Slot) (page : Option ℕ) (avail : ℕ) : Option Kernel :=
  (tidxs.find? fun i => ((k.proc p).pth i).state = .unused).bind fun i =>
    page.bind fun n => (k.allocpth p i n).bind fun k =>
      ((k.proc p).allocUstack i avail).map fun r =>
        k.updProc p fun _ => if r.1 then r.2.createDone i else r.2.createFail i

/-- `thread_exit`. -/
def threadExit (k : Kernel) (p : Slot) (v : UInt32) : Kernel :=
  ((k.wakeup1 (.word (k.proc p).mypth.tid)).updProc p fun x => x.threadExit v).setCpu (.sched p)

/-- The scan of `thread_join`: the first slot that holds `t`, where both loops end. -/
def joinScan (k : Kernel) (t : ℤ) : Option (Slot × Tidx) :=
  slots.findSome? fun q =>
    (tidxs.find? fun i => ((k.proc q).pth i).tid = t).map fun i => (q, i)

/-- The loop of `thread_join`, up to its return or its sleep, with the value it stores when
it returns zero. -/
def threadJoin (k : Kernel) (p : Slot) (t : ℤ) (havepth : Bool) : Option UInt32 × Kernel :=
  match k.joinScan t with
  | some (q, i) =>
      if ((k.proc q).pth i).state = .zombie then
        (some ((k.proc q).pth i).retval,
          ((k.updProc q fun x => x.joinPth i).setCont p .user).setCpu (.run p))
      else (none, k.sleep p (.word t) (.join t true))
  | none =>
      if havepth then (none, k.sleep p (.word t) (.join t true))
      else (none, (k.setCont p .user).setCpu (.run p))

/-! ### Files, the log and sleeplocks -/

/-- `fdalloc`: the first free descriptor. -/
def fdalloc (k : Kernel) (p : Slot) (f : ℕ) : Kernel :=
  match (k.proc p).freeFd with
  | none => k
  | some fd => k.updProc p fun x => { x with ofile := Function.update x.ofile fd (some f) }

/-- `sys_close`. -/
def close (k : Kernel) (p : Slot) (fd : Fd) : Kernel :=
  k.updProc p fun x => { x with ofile := Function.update x.ofile fd none }

/-- The end of `sys_chdir`. -/
def chdir (k : Kernel) (p : Slot) (ip : ℕ) : Kernel :=
  k.updProc p fun x => { x with cwd := some ip }

def MAXOPBLOCKS : ℤ := 10
def LOGSIZE : ℤ := MAXOPBLOCKS * 3

/-- The channel `&log`. -/
def logChan : ℕ := 1

/-- The channel of sleeplock `l`. -/
def lockChan (l : ℕ) : ℕ := l + 2

/-- The current thread of `p` sleeps in code that none of the places describes. -/
def sleepAddr (k : Kernel) (p : Slot) (a : ℕ) : Kernel :=
  k.sleep p (.addr a) (k.proc p).mypth.cont

/-- Write `fsOp` of the current thread. -/
def setFsOp (k : Kernel) (p : Slot) (o : FsOp) : Kernel :=
  k.updProc p fun x => x.updMypth fun t => { t with fsOp := o }

/-- `begin_op`, up to its return or its sleep. -/
def beginOp (k : Kernel) (p : Slot) : Kernel :=
  if k.committing then k.sleepAddr p logChan
  else if LOGSIZE < k.lhN + (k.outstanding + 1) * MAXOPBLOCKS then k.sleepAddr p logChan
  else { k.setFsOp p .inside with outstanding := k.outstanding + 1 }

/-- `end_op`, up to the call of `commit`. -/
def endOp (k : Kernel) (p : Slot) : Option Kernel :=
  -- `log.committing`
  if k.committing then none
  else if k.outstanding - 1 = 0 then
    some { k.setFsOp p .commit with outstanding := k.outstanding - 1, committing := true }
  else
    some (wakeup1 { k.setFsOp p .out with outstanding := k.outstanding - 1 } (.addr logChan))

/-- `end_op`, after `commit`, which clears the log. -/
def commitDone (k : Kernel) (p : Slot) : Kernel :=
  wakeup1 { k.setFsOp p .out with committing := false, lhN := 0 } (.addr logChan)

/-- `log_write` of a block that is not in the log yet. -/
def logWrite (k : Kernel) : Option Kernel :=
  -- `too big a transaction`, `log_write outside of trans`
  if LOGSIZE ≤ k.lhN ∨ k.outstanding < 1 then none else some { k with lhN := k.lhN + 1 }

/-- Write the sleeplocks of the current thread. -/
def setSleeplocks (k : Kernel) (p : Slot) (ls : List ℕ) : Kernel :=
  k.updProc p fun x => x.updMypth fun t => { t with sleeplocks := ls }

/-- `acquiresleep`, up to its return or its sleep. -/
def acquiresleep (k : Kernel) (p : Slot) (l : ℕ) : Kernel :=
  if k.locked l then k.sleepAddr p (lockChan l)
  else { k.setSleeplocks p (l :: (k.proc p).mypth.sleeplocks) with
    locked := Function.update k.locked l true }

/-- `releasesleep`. -/
def releasesleep (k : Kernel) (p : Slot) (l : ℕ) : Kernel :=
  wakeup1 { k.setSleeplocks p ((k.proc p).mypth.sleeplocks.erase l) with
    locked := Function.update k.locked l false } (.addr (lockChan l))

end Kernel

end Xv6Projects.Threads
