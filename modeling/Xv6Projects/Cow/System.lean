import Xv6Projects.Library.Transition
import Xv6Projects.Cow.Kernel

/-!
# The runs of the copy-on-write system (project04)

The operations of the kernel and its processes, and the states they reach from a free
list of pages.
-/

namespace Xv6Projects.Cow

open Library Vm

/-- The operations.  The slot is the process that performs the operation. -/
inductive Op
  | kvmalloc
  | userinit (init : List UInt8)
  | fork (c : Slot)
  | exec (c : Slot) (file : Option Elf) (argv : List (List UInt8))
  | sbrk (c : Slot) (n : ℤ)
  /-- A load or store, by user code or by the kernel on its behalf, with at most `n`
  attempts. -/
  | access (c : Slot) (va : ℕ) (user : Bool) (a : Access) (n : ℕ)
  | pipealloc (c : Slot) (files : Bool)
  | pipeclose (c : Slot) (f : ℕ) (writable : Bool)
  | exit (c : Slot)
  | wait (c : Slot)

/-- What an operation returns to its process. -/
inductive Reply
  | nothing
  | value (r : ℤ)
  | byte (b : UInt8)
deriving DecidableEq, Repr

variable [Layout]

/-- One operation. -/
def perform : Op → KM Reply
  | .kvmalloc => do
      kvmalloc
      return .nothing
  | .userinit init => do
      userinit init
      return .nothing
  | .fork c => return .value (← fork c)
  | .exec c file argv => return .value (← exec c file argv)
  | .sbrk c n => return .value (← growproc c n)
  | .access c va user a n => return ((← access c va user a n).map Reply.byte).getD .nothing
  | .pipealloc _ files => return .value (← pipealloc files)
  | .pipeclose _ f writable => do
      pipeclose f writable
      return .nothing
  | .exit c => do
      exit c
      return .nothing
  | .wait c => return ((← wait c).map Reply.value).getD .nothing

omit [Layout] in
/-- The end of the pipe in page `f` is open. -/
def EndOpen (k : Kernel) (f : ℕ) (writable : Bool) : Prop :=
  ∃ p, k.pipes f = some p ∧ (if writable then p.writeopen else p.readopen) = true

omit [Layout] in
/-- The operation can be performed: boot comes once, the process is there, addresses and
sizes are words, and a pipe is closed at an open end. -/
def Enabled (k : Kernel) : Op → Prop
  | .kvmalloc => k.kpgdir = none
  | .userinit _ => k.initproc = none
  | .fork c | .exec c _ _ | .pipealloc c _ | .exit c | .wait c => (k.proc c).state = .runnable
  | .sbrk c n => (k.proc c).state = .runnable ∧ -2 ^ 31 ≤ n ∧ n < 2 ^ 31
  | .access c va _ _ _ => (k.proc c).state = .runnable ∧ va < 2 ^ 32
  | .pipeclose c f writable => (k.proc c).state = .runnable ∧ EndOpen k f writable

/-- The operation leads from one state to the other. -/
def Step (k : Kernel) (op : Op) (k' : Kernel) : Prop :=
  Enabled k op ∧ ∃ r, perform op k = .ok (r, k')

omit [Layout] in
/-- The state before boot: the pages of the list `free` are free, and all counters are zero. -/
def Kernel.boot (free : List ℕ) (pages : ℕ → Page) : Kernel :=
  { mem := ⟨⟨free, fun _ => 0⟩, pages⟩
    proc := fun _ => Proc.zero
    kpgdir := none
    pipes := fun _ => none
    nextpid := 1
    initproc := none }

/-- A free list that `kinit1` and `kinit2` can make. -/
structure FreeList (free : List ℕ) : Prop where
  nodup : free.Nodup
  usable : ∀ f ∈ free, Kmem.Usable f

/-- The states in which the system starts, with the free list `free`. -/
def Boot (free : List ℕ) (k : Kernel) : Prop :=
  FreeList free ∧ ∃ pages, k = Kernel.boot free pages

end Xv6Projects.Cow
