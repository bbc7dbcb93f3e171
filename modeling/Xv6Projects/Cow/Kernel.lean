import Mathlib.Data.List.FinRange
import Xv6Projects.Cow.Allocator

/-!
# Processes with copy-on-write address spaces (project04)

The process table as far as memory is concerned, and the functions that create, change and
remove address spaces.  The processes run one at a time, and an operation runs to its end
before the next one starts; so a live process is always `RUNNABLE` here, and locks are not
modelled.
-/

namespace Xv6Projects.Cow

open Library Vm

def NPROC : ℕ := 64

instance : NeZero NPROC := ⟨by decide⟩

/-- A slot of the process table. -/
abbrev Slot := Fin NPROC

/-- `enum procstate`, without the states that only the scheduler tells apart. -/
inductive ProcState
  | unused | embryo | runnable | zombie
deriving DecidableEq, Repr

/-- The fields of `struct proc` that concern memory and process management. -/
structure Proc where
  state : ProcState
  pid : ℤ
  parent : Option Slot
  sz : ℕ
  kstack : Option ℕ
  pgdir : Option PageDir

/-- An unused table entry. -/
def Proc.zero : Proc := ⟨.unused, 0, none, 0, none, none⟩

/-- The ends of a pipe that are open. -/
structure Pipe where
  readopen : Bool
  writeopen : Bool

/-- Memory, `ptable`, the kernel's page directory, and the pipes by the page they occupy. -/
structure Kernel where
  mem : Mem Kmem
  proc : Slot → Proc
  kpgdir : Option PageDir
  pipes : ℕ → Option Pipe
  nextpid : ℤ
  initproc : Option Slot

namespace Kernel

def setMem (k : Kernel) (m : Mem Kmem) : Kernel := { k with mem := m }

def setProc (k : Kernel) (i : Slot) (p : Proc) : Kernel :=
  { k with proc := Function.update k.proc i p }

def setPipe (k : Kernel) (f : ℕ) (p : Option Pipe) : Kernel :=
  { k with pipes := Function.update k.pipes f p }

end Kernel

/-- Programs of the kernel. -/
abbrev KM (α : Type) := Prog Kernel Err α

/-- A computation on memory. -/
def vm {α : Type} (x : VmM Kmem α) : KM α := zoom Kernel.mem Kernel.setMem x

/-- Change a table entry. -/
def updProc (i : Slot) (f : Proc → Proc) : KM Unit := modify fun k => k.setProc i (f (k.proc i))

/-- The page directory of a process. -/
def pgdirOf (i : Slot) : KM PageDir := do
  match ((← get).proc i).pgdir with
  | none => throw .nullDeref
  | some d => return d

/-- The slots in the order of the loops over the table. -/
def slots : List Slot := List.finRange NPROC

/-- `incr_refc`. -/
def incrRefc (f : ℕ) : VmM Kmem Unit := fun m =>
  (m.alloc.incrRefc f).map fun a => ((), { m with alloc := a })

/-- `decr_refc`. -/
def decrRefc (f : ℕ) : VmM Kmem Unit := fun m =>
  (m.alloc.decrRefc f).map fun a => ((), { m with alloc := a })

/-- `get_refc`. -/
def getRefc (f : ℕ) : VmM Kmem ℤ := fun m => (m.alloc.getRefc f).map fun r => (r, m)

variable [Layout]

/-! ### Copy-on-write -/

/-- The loop of `copyuvm` over `n` pages from `v`, from page directory `d` to `c`: the child's
page directory, and the parent's. -/
def copyLoop (d c : PageDir) (v : ℕ) : ℕ → VmM Kmem (Option PageDir × PageDir)
  | 0 => pure (some c, d)
  | n + 1 =>
      match d.pde (PDX v) with
      | none => panic "copyuvm: pte should exist"
      | some _ =>
          match d.entry v with
          | none => panic "copyuvm: page not present"
          | some e => do
              let d := d.setEntry v (some { e with w := false })
              match ← mappages c (v * PGSIZE) PGSIZE (e.pfn * PGSIZE) false e.u with
              | (false, c) => do
                  freevm c
                  return (none, d)
              | (true, c) => do
                  incrRefc e.pfn
                  copyLoop d c (v + 1) n

/-- `copyuvm`: the child's page directory, and the parent's. -/
def copyuvm (d : PageDir) (sz : ℕ) : VmM Kmem (Option PageDir × PageDir) := do
  match ← setupkvm with
  | none => return (none, d)
  | some c => copyLoop d c 0 (PGROUNDUP sz)

/-- `CoW_handler` for a fault at `va` in page directory `d`. -/
def cowHandler (d : PageDir) (va : ℕ) : VmM Kmem PageDir :=
  match d.pde (PDX (va / PGSIZE)) with
  | none => panic "CoW_handler: pte should exist"
  | some _ =>
      match d.entry (va / PGSIZE) with
      | none => panic "CoW_handler: page not present"
      | some e => do
          let refc ← getRefc e.pfn
          if 1 < refc then
            match ← kalloc with
            | none => panic "CoW_handler: kalloc"
            | some f => do
                setPage f (← getPage e.pfn)
                decrRefc e.pfn
                return d.setEntry (va / PGSIZE) (some ⟨f, true, true⟩)
          else if refc = 1 then return d.setEntry (va / PGSIZE) (some { e with w := true })
          else return d

/-! ### Processes -/

/-- `allocproc`. -/
def allocproc : KM (Option Slot) := do
  let k ← get
  match slots.find? fun i => (k.proc i).state = .unused with
  | none => return none
  | some i => do
      updProc i fun p => { p with state := .embryo, pid := k.nextpid }
      modify fun k => { k with nextpid := k.nextpid + 1 }
      match ← vm kalloc with
      | none => do
          updProc i fun p => { p with state := .unused }
          return none
      | some f => do
          updProc i fun p => { p with kstack := some f }
          return some i

/-- `kvmalloc`. -/
def kvmalloc : KM Unit := do
  let d ← vm setupkvm
  modify fun k => { k with kpgdir := d }

/-- `userinit`, with the code of the first process. -/
def userinit (init : List UInt8) : KM Unit := do
  match ← allocproc with
  | none => throw .nullDeref
  | some i => do
      modify fun k => { k with initproc := some i }
      match ← vm setupkvm with
      | none => throw (.panic "userinit: out of memory?")
      | some d => do
          let d ← vm (inituvm d init)
          updProc i fun p => { p with pgdir := some d, sz := PGSIZE, state := .runnable }

/-- `growproc` for process `c`, with its return value. -/
def growproc (c : Slot) (n : ℤ) : KM ℤ := do
  let sz := ((← get).proc c).sz
  let newsz := (((sz : ℤ) + n) % 2 ^ 32).toNat
  let d ← pgdirOf c
  if 0 < n then
    let r ← vm (allocuvm d sz newsz)
    updProc c fun p => { p with pgdir := some r.2 }
    if r.1 = 0 then return -1
    else do
      updProc c fun p => { p with sz := r.1 }
      return 0
  else if n < 0 then
    let r ← vm (deallocuvm d sz newsz)
    updProc c fun p => { p with pgdir := some r.2 }
    if r.1 = 0 then return -1
    else do
      updProc c fun p => { p with sz := r.1 }
      return 0
  else return 0

/-- `kfree(p->kstack)`. -/
def freeKstack (i : Slot) : KM Unit := do
  match ((← get).proc i).kstack with
  | none => throw .nullDeref
  | some f => do
      vm (kfree f)
      updProc i fun p => { p with kstack := none }

/-- `fork` by process `c`, with its return value. -/
def fork (c : Slot) : KM ℤ := do
  match ← allocproc with
  | none => return -1
  | some i => do
      let d ← pgdirOf c
      let sz := ((← get).proc c).sz
      let r ← vm (copyuvm d sz)
      updProc c fun p => { p with pgdir := some r.2 }
      match r.1 with
      | none => do
          freeKstack i
          updProc i fun p => { p with state := .unused }
          return -1
      | some child => do
          updProc i fun p =>
            { p with pgdir := some child, sz := sz, parent := some c, state := .runnable }
          return ((← get).proc i).pid

/-- `exit` by process `c`: its children go to the first process. -/
def exit (c : Slot) : KM Unit := do
  if (← get).initproc = some c then throw (.panic "init exiting")
  else do
    modify fun k => { k with
      proc := fun i =>
        if (k.proc i).parent = some c then { k.proc i with parent := k.initproc } else k.proc i }
    updProc c fun p => { p with state := .zombie }

/-- `wait` by process `c`: the pid of the child it reaps, or nothing when it has no zombie
child (then it returns `-1` or sleeps). -/
def wait (c : Slot) : KM (Option ℤ) := do
  let k ← get
  match slots.find? fun i => (k.proc i).parent = some c ∧ (k.proc i).state = .zombie with
  | none => return none
  | some i => do
      freeKstack i
      vm (freevm (← pgdirOf i))
      updProc i fun p => { p with pgdir := none, pid := 0, parent := none, state := .unused }
      return some (k.proc i).pid

/-! ### exec -/

/-- A program header. -/
structure ProgHdr where
  load : Bool
  off : ℕ
  vaddr : ℕ
  filesz : ℕ
  memsz : ℕ

/-- A file with a valid ELF header: the program headers, up to one that cannot be read, and
the contents. -/
structure Elf where
  phs : List (Option ProgHdr)
  bytes : List UInt8

def MAXARG : ℕ := 32

/-- The loop of `exec` over the program headers: the size, or nothing on a failure. -/
def loadSegments (bytes : List UInt8) (d : PageDir) (sz : ℕ) :
    List (Option ProgHdr) → VmM Kmem (Option ℕ × PageDir)
  | [] => pure (some sz, d)
  | none :: _ => pure (none, d)
  | some ph :: phs =>
      if ph.load = false then loadSegments bytes d sz phs
      else if ph.memsz < ph.filesz then pure (none, d)
      else if (ph.vaddr + ph.memsz) % 2 ^ 32 < ph.vaddr then pure (none, d)
      else do
        let r ← allocuvm d sz (ph.vaddr + ph.memsz)
        if r.1 = 0 then return (none, r.2)
        else if ph.vaddr % PGSIZE ≠ 0 then return (none, r.2)
        else if ← loaduvm r.2 (ph.vaddr / PGSIZE) bytes ph.off ph.filesz then
          loadSegments bytes r.2 r.1 phs
        else return (none, r.2)

/-- `sp - n`, an unsigned difference. -/
def subSp (sp n : ℕ) : ℕ := (sp + 2 ^ 32 - n) % 2 ^ 32

/-- The loop of `exec` over the arguments: the stack pointer and the addresses of the
strings, or nothing on a failure. -/
def pushArgs (d : PageDir) : List (List UInt8) → ℕ → List ℕ → VmM Kmem (Option (ℕ × List ℕ))
  | [], sp, us => pure (some (sp, us))
  | s :: ss, sp, us =>
      if MAXARG ≤ us.length then pure none
      else
        let sp := subSp sp (s.length + 1) / 4 * 4
        do
          if ← copyout d sp (s ++ [0]) then pushArgs d ss sp (us ++ [sp]) else return none

/-- The bytes of a word. -/
def wordBytes (w : ℕ) : List UInt8 :=
  [UInt8.ofNat w, UInt8.ofNat (w / 2 ^ 8), UInt8.ofNat (w / 2 ^ 16), UInt8.ofNat (w / 2 ^ 24)]

/-- The words that `exec` pushes below the strings at the addresses `us`. -/
def ustackBytes (sp : ℕ) (us : List ℕ) : List UInt8 :=
  ([0xffffffff, us.length, subSp sp ((us.length + 1) * 4)] ++ us ++ [0]).flatMap wordBytes

/-- The part of `exec` that makes the stack above `sz`, which is rounded up: the size, or
nothing on a failure. -/
def buildStack (d : PageDir) (sz : ℕ) (argv : List (List UInt8)) :
    VmM Kmem (Option ℕ × PageDir) := do
  let r ← allocuvm d sz (sz + 2 * PGSIZE)
  if r.1 = 0 then return (none, r.2)
  else do
    let d ← clearpteu r.2 ((r.1 - 2 * PGSIZE) / PGSIZE)
    match ← pushArgs d argv r.1 [] with
    | none => return (none, d)
    | some (sp, us) => do
        if ← copyout d (subSp sp ((3 + us.length + 1) * 4)) (ustackBytes sp us) then
          return (some r.1, d)
        else return (none, d)

/-- The part of `exec` after `setupkvm`: the size, or nothing on a failure. -/
def buildImage (d : PageDir) (elf : Elf) (argv : List (List UInt8)) :
    VmM Kmem (Option ℕ × PageDir) := do
  match ← loadSegments elf.bytes d 0 elf.phs with
  | (none, d) => return (none, d)
  | (some sz, d) => buildStack d (PGROUNDUP sz * PGSIZE) argv

/-- `exec` by process `c` of a file (nothing when the file or its ELF header cannot be read),
with its return value. -/
def exec (c : Slot) (file : Option Elf) (argv : List (List UInt8)) : KM ℤ := do
  match file with
  | none => return -1
  | some elf => do
      match ← vm setupkvm with
      | none => return -1
      | some d => do
          match ← vm (buildImage d elf argv) with
          | (none, d) => do
              vm (freevm d)
              return -1
          | (some sz, d) => do
              let old ← pgdirOf c
              updProc c fun p => { p with pgdir := some d, sz := sz }
              vm (freevm old)
              return 0

/-! ### Pipes -/

/-- `pipealloc`; `files` tells whether two file structures are free. -/
def pipealloc (files : Bool) : KM ℤ := do
  if files = false then return -1
  else
    match ← vm kalloc with
    | none => return -1
    | some f => do
        modify fun k => k.setPipe f (some ⟨true, true⟩)
        return 0

/-- `pipeclose` of one end of the pipe in page `f`. -/
def pipeclose (f : ℕ) (writable : Bool) : KM Unit := do
  match (← get).pipes f with
  | none => throw .nullDeref
  | some p => do
      let p := if writable then { p with writeopen := false } else { p with readopen := false }
      if p.readopen = false ∧ p.writeopen = false then do
        modify fun k => k.setPipe f none
        vm (kfree f)
      else modify fun k => k.setPipe f (some p)

/-! ### Memory accesses -/

/-- What an access does: a load, or a store of a byte. -/
inductive Access
  | load
  | store (b : UInt8)
deriving DecidableEq, Repr

/-- The processor performs the access: user code needs `PTE_U`, a store needs `PTE_W` also in
the kernel (`CR0_WP`). -/
def Pte.allows (e : Pte) (user : Bool) : Access → Bool
  | .load => !user || e.u
  | .store _ => (!user || e.u) && e.w

/-- A page fault of process `c` at address `va`. -/
def fault (c : Slot) (va : ℕ) : KM Unit := do
  let d ← vm (cowHandler (← pgdirOf c) va)
  updProc c fun p => { p with pgdir := some d }

/-- An access of process `c` at address `va`, with at most `n` attempts; each page fault runs
the handler and the access is tried again.  The result is the byte at the address after the
access, or nothing when the last attempt faulted too. -/
def access (c : Slot) (va : ℕ) (user : Bool) (a : Access) : ℕ → KM (Option UInt8)
  | 0 => return none
  | n + 1 => do
      let d ← pgdirOf c
      match (d.entry (va / PGSIZE)).filter fun e => Pte.allows e user a with
      | some e => do
          let p ← vm (getPage e.pfn)
          match a with
          | .load => return some (p (va % PGSIZE))
          | .store b => do
              vm (setPage e.pfn (Function.update p (va % PGSIZE) b))
              return some b
      | none => do
          fault c va
          access c va user a n

end Xv6Projects.Cow
