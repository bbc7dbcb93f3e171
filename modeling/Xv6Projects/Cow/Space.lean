import Mathlib.Data.List.GetD
import Xv6Projects.Cow.Kernel

/-!
# Private address spaces

What a process sees of its memory: a size, bytes of its own, and a page that user code may not
access.  This is the memory that a process has when every page is copied eagerly; the
functions say what `sbrk` and `exec` are for, without page tables.
-/

namespace Xv6Projects.Cow

open Vm

/-- The address space of a process. -/
structure Space where
  sz : ℕ
  /-- The inaccessible page below the user stack. -/
  guard : Option ℕ
  bytes : ℕ → UInt8

namespace Space

/-- An address space without pages. -/
def empty : Space := ⟨0, none, fun _ => 0⟩

/-- The address space of the first process, with the code `init`. -/
def initial (init : List UInt8) : Space := ⟨PGSIZE, none, fun a => init.getD a 0⟩

/-- User code may access page `q`. -/
def Accessible (s : Space) (q : ℕ) : Prop := q < PGROUNDUP s.sz ∧ s.guard ≠ some q

instance (s : Space) (q : ℕ) : Decidable (s.Accessible q) := inferInstanceAs (Decidable (_ ∧ _))

/-- Write bytes from address `a` on. -/
def write (s : Space) (a : ℕ) (bs : List UInt8) : Space :=
  { s with bytes := writeBytes s.bytes a bs }

/-- A larger size; new pages are zero. -/
def grow (s : Space) (newsz : ℕ) : Space :=
  { s with
    sz := newsz
    bytes := fun a => if PGROUNDUP s.sz * PGSIZE ≤ a then 0 else s.bytes a }

/-- A smaller size. -/
def shrink (s : Space) (newsz : ℕ) : Space :=
  { s with sz := newsz, guard := s.guard.filter fun q => q < PGROUNDUP newsz }

/-- The size is to become `newsz` at least; nothing when that is too large. -/
def alloc (s : Space) (newsz : ℕ) : Option Space :=
  if KERNBASE ≤ newsz then none
  else if newsz < s.sz then some s
  else if newsz = 0 then none
  else some (s.grow newsz)

/-- Write bytes on behalf of user code; nothing when a page is not accessible. -/
def copyout (s : Space) (a : ℕ) (bs : List UInt8) : Option Space :=
  if bs = [] ∨ ∀ q < (a + bs.length - 1) / PGSIZE + 1, a / PGSIZE ≤ q → s.Accessible q then
    some (s.write a bs)
  else none

/-- Load a segment of the file `bytes` to address `a`. -/
def loadSegment (s : Space) (bytes : List UInt8) (a off n : ℕ) : Option Space :=
  if n = 0 ∨ readable bytes off n then some (s.write a ((bytes.drop off).take n)) else none

/-- Load the segments of a program. -/
def load (bytes : List UInt8) (s : Space) : List (Option ProgHdr) → Option Space
  | [] => some s
  | none :: _ => none
  | some ph :: phs =>
      if ph.load = false then load bytes s phs
      else if ph.memsz < ph.filesz ∨ (ph.vaddr + ph.memsz) % 2 ^ 32 < ph.vaddr then none
      else do
        let s ← s.alloc (ph.vaddr + ph.memsz)
        if ph.vaddr % PGSIZE ≠ 0 then none
        else
          let s ← s.loadSegment bytes ph.vaddr ph.off ph.filesz
          load bytes s phs

/-- Push the argument strings. -/
def pushArgs (s : Space) : List (List UInt8) → ℕ → List ℕ → Option (Space × ℕ × List ℕ)
  | [], sp, us => some (s, sp, us)
  | arg :: args, sp, us =>
      if MAXARG ≤ us.length then none
      else
        let sp := subSp sp (arg.length + 1) / 4 * 4
        (s.copyout sp (arg ++ [0])).bind fun s => pushArgs s args sp (us ++ [sp])

/-- Add the guard page and the stack with the arguments. -/
def stack (s : Space) (argv : List (List UInt8)) : Option Space :=
  (s.alloc (s.sz + 2 * PGSIZE)).bind fun s' =>
    (pushArgs { s' with guard := some (s.sz / PGSIZE) } argv s'.sz []).bind fun (s', sp, us) =>
      s'.copyout (subSp sp ((3 + us.length + 1) * 4)) (ustackBytes sp us)

/-- The address space that `exec` makes of a program and its arguments. -/
def image (elf : Elf) (argv : List (List UInt8)) : Option Space :=
  (load elf.bytes empty elf.phs).bind fun s =>
    { s with sz := PGROUNDUP s.sz * PGSIZE }.stack argv

@[simp] lemma write_sz (s : Space) (a : ℕ) (bs : List UInt8) : (s.write a bs).sz = s.sz := rfl
@[simp] lemma write_guard (s : Space) (a : ℕ) (bs : List UInt8) :
    (s.write a bs).guard = s.guard := rfl
@[simp] lemma grow_sz (s : Space) (n : ℕ) : (s.grow n).sz = n := rfl
@[simp] lemma shrink_sz (s : Space) (n : ℕ) : (s.shrink n).sz = n := rfl
@[simp] lemma grow_guard (s : Space) (n : ℕ) : (s.grow n).guard = s.guard := rfl

end Space

/-! ### Writing bytes in pieces -/

lemma writeBytes_append (p : ℕ → UInt8) (a : ℕ) (l l' : List UInt8) :
    writeBytes p a (l ++ l') = writeBytes (writeBytes p a l) (a + l.length) l' := by
  funext x
  simp only [writeBytes, List.length_append]
  by_cases h' : a + l.length ≤ x ∧ x < a + l.length + l'.length
  · rw [if_pos h', if_pos (by omega), List.getD_append_right _ _ _ _ (by omega)]
    congr 1
    omega
  · rw [if_neg h']
    by_cases h : a ≤ x ∧ x < a + l.length
    · rw [if_pos h, if_pos (by omega), List.getD_append _ _ _ _ (by omega)]
    · rw [if_neg h, if_neg (by omega)]

lemma writeBytes_of_not {p : ℕ → UInt8} {a x : ℕ} {l : List UInt8}
    (h : ¬(a ≤ x ∧ x < a + l.length)) : writeBytes p a l x = p x :=
  if_neg h

end Xv6Projects.Cow
