import Xv6Projects.Cow.Space
import Xv6Projects.Cow.System

/-!
# Eager copying

The abstract machine that copy-on-write is to look like: every process has an address space of
its own, and `fork` gives the child a copy of all of it.  There are no page tables, no
reference counts and no page faults.
-/

namespace Xv6Projects.Cow

open Vm

/-- A slot of the process table. -/
structure EagerProc where
  state : ProcState
  pid : ℤ
  parent : Option Slot
  space : Space

/-- The processes. -/
structure Eager where
  proc : Slot → EagerProc
  nextpid : ℤ
  initproc : Option Slot

namespace Eager

def setProc (a : Eager) (i : Slot) (p : EagerProc) : Eager :=
  { a with proc := Function.update a.proc i p }

def setSpace (a : Eager) (c : Slot) (s : Space) : Eager :=
  a.setProc c { a.proc c with space := s }

/-- The first process, with the code `init`. -/
def initial (init : List UInt8) : Eager where
  proc := fun i => if i = 0 then ⟨.runnable, 1, none, Space.initial init⟩
    else ⟨.unused, 0, none, Space.empty⟩
  nextpid := 2
  initproc := some 0

/-- The child gets a copy of the address space. -/
def fork (a : Eager) (c : Slot) : Reply × Eager :=
  match slots.find? fun i => (a.proc i).state = .unused with
  | none => (.value (-1), a)
  | some i => (.value a.nextpid,
      { a.setProc i ⟨.runnable, a.nextpid, some c, (a.proc c).space⟩ with nextpid := a.nextpid + 1 })

def exec (a : Eager) (c : Slot) (file : Option Elf) (argv : List (List UInt8)) : Reply × Eager :=
  match file.bind fun elf => Space.image elf argv with
  | none => (.value (-1), a)
  | some s => (.value 0, a.setSpace c s)

def sbrk (a : Eager) (c : Slot) (n : ℤ) : Reply × Eager :=
  let s := (a.proc c).space
  let newsz := (s.sz + n).toNat
  if 0 < n then
    if KERNBASE ≤ newsz then (.value (-1), a) else (.value 0, a.setSpace c (s.grow newsz))
  else if n < 0 then (.value 0, a.setSpace c (s.shrink newsz))
  else (.value 0, a)

/-- A load or store of the process' own byte. -/
def access (a : Eager) (c : Slot) (va : ℕ) : Access → Reply × Eager
  | .load => (.byte ((a.proc c).space.bytes va), a)
  | .store b => (.byte b, a.setSpace c ((a.proc c).space.write va [b]))

def exit (a : Eager) (c : Slot) : Reply × Eager :=
  (.nothing, { a with
    proc := fun i =>
      let p := if (a.proc i).parent = some c then { a.proc i with parent := a.initproc } else a.proc i
      if i = c then { p with state := .zombie } else p })

def wait (a : Eager) (c : Slot) : Reply × Eager :=
  match slots.find? fun i => (a.proc i).parent = some c ∧ (a.proc i).state = .zombie with
  | none => (.nothing, a)
  | some i => (.value (a.proc i).pid,
      a.setProc i ⟨.unused, 0, none, (a.proc i).space⟩)

/-- One operation. -/
def next (a : Eager) : Op → Reply × Eager
  | .fork c => a.fork c
  | .exec c file argv => a.exec c file argv
  | .sbrk c n => a.sbrk c n
  | .access c va _ x _ => a.access c va x
  | .exit c => a.exit c
  | .wait c => a.wait c
  | _ => (.nothing, a)

/-- The operations of a run: the process is there; sizes stay positive; accesses are to
addresses below the size of the process, by user code not to the guard page, and are tried
again after a page fault; the first process does not exit. -/
def Allows (a : Eager) : Op → Prop
  | .fork c | .exec c _ _ | .wait c => (a.proc c).state = .runnable
  | .sbrk c n => (a.proc c).state = .runnable ∧ -2 ^ 31 ≤ n ∧ n < 2 ^ 31 ∧
      (n < 0 → 0 < (a.proc c).space.sz + n)
  | .access c va user _ n => (a.proc c).state = .runnable ∧ va < (a.proc c).space.sz ∧
      (user = true → (a.proc c).space.guard ≠ some (va / PGSIZE)) ∧ 2 ≤ n
  | .exit c => (a.proc c).state = .runnable ∧ a.initproc ≠ some c
  | _ => False

end Eager

end Xv6Projects.Cow
