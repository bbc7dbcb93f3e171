import Xv6Projects.Library.Transition
import Xv6Projects.Threads.Kernel

/-!
# The runs of the system with threads (project03)

The operations that the CPU, its threads and the interrupt handlers can perform, and the
states they reach from `pinit`.
-/

namespace Xv6Projects.Threads

open Library Kernel Vm

/-- The operations.  Those of a thread are performed by the thread that runs. -/
inductive Op
  | userinit (page : ℕ)
  /-- `scheduler` starts a pass over the table. -/
  | pass
  /-- `scheduler` goes on after a thread has switched to it. -/
  | schedule
  /-- A timer interrupt. -/
  | timer
  /-- `wakeup` of a kernel address, by a thread or by an interrupt handler. -/
  | wakeup (a : ℕ)
  /-- `sleep` on a kernel address. -/
  | sleep (a : ℕ)
  | kill (pid : ℤ)
  | forkAlloc
  | forkStack (page : Option ℕ)
  | forkCopy (ok : Bool)
  | forkDone
  /-- A successful `exec` of an image of `sz` bytes. -/
  | exec (sz : ℕ)
  | sbrk (n avail : ℕ)
  | exitBegin
  | exitFile
  | exit
  | wait
  | threadCreate (page : Option ℕ) (avail : ℕ)
  | threadExit (v : UInt32)
  | threadJoin (t : ℤ)
  /-- The loop of `wait` or `thread_join`, after its `sleep`. -/
  | resume
  | fdalloc (f : ℕ)
  | close (fd : Fd)
  | chdir (ip : ℕ)
  | beginOp
  | endOp
  | commitDone
  | logWrite
  | acquiresleep (l : ℕ)
  | releasesleep (l : ℕ)
deriving DecidableEq, Repr

/-- The thread is in no function that keeps a place, and holds nothing of the file system. -/
def Pthread.Ready (t : Pthread) : Prop := t.cont = .user ∧ t.fsOp = .out ∧ t.sleeplocks = []

instance (t : Pthread) : Decidable t.Ready := inferInstanceAs (Decidable (_ ∧ _))

namespace Kernel

/-- The step of the process that runs. -/
def onCpu (k : Kernel) (f : Slot → Option Kernel) : Option Kernel :=
  match k.cpu with
  | .run p => f p
  | _ => none

/-- The step of a process whose current thread has been switched to in a loop. -/
def onResume (k : Kernel) (f : Slot → Option Kernel) : Option Kernel :=
  match k.cpu with
  | .resume p => f p
  | _ => none

/-- The step of the scheduler after a switch from a process. -/
def onSched (k : Kernel) (f : Slot → Option Kernel) : Option Kernel :=
  match k.cpu with
  | .sched p => f p
  | _ => none

/-- The step of a process whose current thread starts a system call. -/
def syscall (k : Kernel) (f : Slot → Option Kernel) : Option Kernel :=
  k.onCpu fun p => if (k.proc p).mypth.Ready then f p else none

/-- The lock is free. -/
def LockFree (k : Kernel) : Prop := k.cpu = .idle ∨ ∃ p, k.cpu = .run p

instance (k : Kernel) : Decidable k.LockFree := inferInstanceAs (Decidable (_ ∨ _))

lemma onCpu_eq_some {k k' : Kernel} {f : Slot → Option Kernel} :
    k.onCpu f = some k' ↔ ∃ p, k.cpu = .run p ∧ f p = some k' := by
  unfold onCpu
  cases h : k.cpu <;> simp

lemma onResume_eq_some {k k' : Kernel} {f : Slot → Option Kernel} :
    k.onResume f = some k' ↔ ∃ p, k.cpu = .resume p ∧ f p = some k' := by
  unfold onResume
  cases h : k.cpu <;> simp

lemma onSched_eq_some {k k' : Kernel} {f : Slot → Option Kernel} :
    k.onSched f = some k' ↔ ∃ p, k.cpu = .sched p ∧ f p = some k' := by
  unfold onSched
  cases h : k.cpu <;> simp

lemma syscall_eq_some {k k' : Kernel} {f : Slot → Option Kernel} :
    k.syscall f = some k' ↔ ∃ p, k.cpu = .run p ∧ (k.proc p).mypth.Ready ∧ f p = some k' := by
  rw [syscall, onCpu_eq_some]
  constructor
  · rintro ⟨p, hp, h⟩
    by_cases hr : (k.proc p).mypth.Ready
    · exact ⟨p, hp, hr, by rwa [if_pos hr] at h⟩
    · rw [if_neg hr] at h
      exact absurd h (by simp)
  · rintro ⟨p, hp, hr, h⟩
    exact ⟨p, hp, by rwa [if_pos hr]⟩

end Kernel

/-- The rest of `fork` for the place at which the thread stands. -/
def forkStep (k : Kernel) (p : Slot) : Cont → Op → Option Kernel
  | .forkStack np, .forkStack page => k.forkStack p np page
  | .forkCopy np, .forkCopy ok => k.forkCopy p np ok
  | .forkDone np, .forkDone => some (k.forkDone p np)
  | _, _ => none

/-- The rest of `exit` for the place at which the thread stands. -/
def exitStep (k : Kernel) (p : Slot) : Cont → Op → Option Kernel
  | .exitFile fd, .exitFile => some (k.exitFile p fd)
  | .exitLock, .exit => some (k.exit p)
  | _, _ => none

/-- The current thread holds nothing of the file system. -/
def Pthread.Outside (t : Pthread) : Prop := t.fsOp = .out ∧ t.sleeplocks = []

instance (t : Pthread) : Decidable t.Outside := inferInstanceAs (Decidable (_ ∧ _))

/-- The loop of `wait` or `thread_join` after its `sleep`. -/
def resumeStep (k : Kernel) (p : Slot) : Cont → Option Kernel
  | .wait => k.wait p
  | .join t havepth => some (k.threadJoin p t havepth).2
  | _ => none

/-- One operation; `none` when it cannot be performed or panics. -/
def step (k : Kernel) : Op → Option Kernel
  | .userinit n => if k.initproc = none then k.userinit n else none
  | .pass => if k.cpu = .idle then some (k.pass slots) else none
  | .schedule => k.onSched fun p => some (k.schedule p)
  | .timer => k.onCpu fun p => some (k.timer p)
  | .wakeup a => if k.LockFree then some (k.wakeup1 (.addr a)) else none
  | .sleep a => k.onCpu fun p => some (k.sleepAddr p a)
  | .kill pid => k.syscall fun _ => some (k.kill pid)
  | .forkAlloc => k.syscall fun p => some (k.forkAlloc p)
  | .forkStack page => k.onCpu fun p => forkStep k p (k.proc p).mypth.cont (.forkStack page)
  | .forkCopy ok => k.onCpu fun p => forkStep k p (k.proc p).mypth.cont (.forkCopy ok)
  | .forkDone => k.onCpu fun p => forkStep k p (k.proc p).mypth.cont .forkDone
  | .exec sz => k.syscall fun p =>
      -- two pages are added to the segments, from a page boundary on
      if sz % PGSIZE = 0 ∧ 2 * PGSIZE ≤ sz ∧ sz < KERNBASE then k.exec p sz else none
  | .sbrk n avail => k.syscall fun p => if 0 < n ∧ n < 2 ^ 31 then k.growproc p n avail else none
  | .exitBegin => k.syscall fun p => k.exitBegin p
  | .exitFile => k.onCpu fun p =>
      if (k.proc p).mypth.Outside then exitStep k p (k.proc p).mypth.cont .exitFile else none
  | .exit => k.onCpu fun p =>
      if (k.proc p).mypth.Outside then exitStep k p (k.proc p).mypth.cont .exit else none
  | .wait => k.syscall fun p => k.wait p
  | .threadCreate page avail => k.syscall fun p => k.threadCreate p page avail
  | .threadExit v => k.syscall fun p => some (k.threadExit p v)
  | .threadJoin t => k.syscall fun p => some (k.threadJoin p t false).2
  | .resume => k.onResume fun p => resumeStep k p (k.proc p).mypth.cont
  | .fdalloc f => k.onCpu fun p => if (k.proc p).mypth.cont = .user then some (k.fdalloc p f) else none
  | .close fd => k.onCpu fun p => if (k.proc p).mypth.cont = .user then some (k.close p fd) else none
  | .chdir ip => k.onCpu fun p => if (k.proc p).mypth.cont = .user then some (k.chdir p ip) else none
  | .beginOp => k.onCpu fun p => if (k.proc p).mypth.fsOp = .out then some (k.beginOp p) else none
  | .endOp => k.onCpu fun p => if (k.proc p).mypth.fsOp = .inside then k.endOp p else none
  | .commitDone => k.onCpu fun p =>
      if (k.proc p).mypth.fsOp = .commit then some (k.commitDone p) else none
  | .logWrite => k.onCpu fun p => if (k.proc p).mypth.fsOp = .inside then k.logWrite else none
  | .acquiresleep l => k.onCpu fun p => some (k.acquiresleep p l)
  | .releasesleep l => k.onCpu fun p =>
      if l ∈ (k.proc p).mypth.sleeplocks then some (k.releasesleep p l) else none

/-- The operation leads from one state to the other. -/
def Step (k : Kernel) (op : Op) (k' : Kernel) : Prop := step k op = some k'

/-- The states reachable from `pinit`. -/
def Reach : Kernel → Prop := Reachable (· = Kernel.pinit) Step

/-- A thread that the scheduler can still run. -/
def State.Live (s : State) : Prop := s = .sleeping ∨ s = .runnable ∨ s = .running

instance (s : State) : Decidable s.Live := inferInstanceAs (Decidable (_ ∨ _))

end Xv6Projects.Threads
