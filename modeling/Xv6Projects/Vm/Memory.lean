import Mathlib.Logic.Function.Basic
import Mathlib.Data.Nat.Basic
import Mathlib.Tactic
import Xv6Projects.Library.Wp

/-!
# Physical memory and page tables

The data that `vm.c` works on.  Physical memory is a collection of pages; a page directory
holds its page tables, and these hold their entries.  Addresses of pages are page
numbers: page `n` starts at address `n * PGSIZE`.
-/

namespace Xv6Projects.Vm

open Library

def PGSIZE : ℕ := 4096
def KERNBASE : ℕ := 0x80000000
def PHYSTOP : ℕ := 0xE000000
def EXTMEM : ℕ := 0x100000
def KERNLINK : ℕ := KERNBASE + EXTMEM
def DEVSPACE : ℕ := 0xFE000000

/-- The number of entries of a page directory and of a page table. -/
def NPTENTRIES : ℕ := 1024

/-- The symbols that the linker script defines. -/
class Layout where
  /-- The start of the data segment, at the beginning of a page. -/
  data : ℕ
  /-- The first address after the kernel. -/
  kend : ℕ
  data_aligned : data % PGSIZE = 0
  kernlink_lt : KERNLINK < data
  data_le : data ≤ kend
  kend_lt : kend < KERNBASE + PHYSTOP

/-- How a computation of the kernel can end other than by returning. -/
inductive Err
  | panic (msg : String)
  /-- A counter outside the table `pgRef` is read. -/
  | outOfTable (page : ℕ)
  /-- A null pointer is dereferenced. -/
  | nullDeref
deriving DecidableEq, Repr

/-- The bytes of a page, by offset. -/
abbrev Page := ℕ → UInt8

/-- The page that `memset(p, 0, PGSIZE)` leaves. -/
def zeroPage : Page := fun _ => 0

/-- The page that `kfree` leaves. -/
def junkPage : Page := fun _ => 1

/-- A present page table entry: the page number of its physical page, `PTE_W` and
`PTE_U`. -/
structure Pte where
  pfn : ℕ
  w : Bool
  u : Bool
deriving DecidableEq, Repr

/-- A page table, with the number of the page it occupies.  An entry without `PTE_P` is
`none`. -/
structure PageTable where
  frame : ℕ
  pte : ℕ → Option Pte

/-- A page directory, with the number of the page it occupies. -/
structure PageDir where
  frame : ℕ
  pde : ℕ → Option PageTable

/-! The index in the page directory and in the page table of virtual page `v`. -/

def PDX (v : ℕ) : ℕ := v / NPTENTRIES
def PTX (v : ℕ) : ℕ := v % NPTENTRIES

namespace PageDir

/-- A zeroed page directory. -/
def empty (f : ℕ) : PageDir := ⟨f, fun _ => none⟩

/-- The entry of virtual page `v`. -/
def entry (d : PageDir) (v : ℕ) : Option Pte := (d.pde (PDX v)).bind fun t => t.pte (PTX v)

/-- The page that page table `i` occupies. -/
def table (d : PageDir) (i : ℕ) : Option ℕ := (d.pde i).map PageTable.frame

/-- Write the entry of virtual page `v`, in a page table that is there. -/
def setEntry (d : PageDir) (v : ℕ) (e : Option Pte) : PageDir :=
  match d.pde (PDX v) with
  | none => d
  | some t => { d with
      pde := Function.update d.pde (PDX v) (some { t with pte := Function.update t.pte (PTX v) e }) }

/-- Install a zeroed page table. -/
def addTable (d : PageDir) (i f : ℕ) : PageDir :=
  { d with pde := Function.update d.pde i (some ⟨f, fun _ => none⟩) }

variable (d : PageDir)

@[simp] lemma empty_frame (f : ℕ) : (empty f).frame = f := rfl
@[simp] lemma empty_entry (f v : ℕ) : (empty f).entry v = none := rfl
@[simp] lemma empty_table (f i : ℕ) : (empty f).table i = none := rfl

@[simp] lemma setEntry_frame (v : ℕ) (e : Option Pte) : (d.setEntry v e).frame = d.frame := by
  unfold setEntry
  cases d.pde (PDX v) <;> rfl

@[simp] lemma setEntry_table (v : ℕ) (e : Option Pte) : (d.setEntry v e).table = d.table := by
  unfold setEntry
  cases h : d.pde (PDX v) with
  | none => rfl
  | some t =>
    funext i
    by_cases hi : i = PDX v
    · subst hi
      simp [table, h]
    · simp [table, Function.update_of_ne hi]

lemma PDX_PTX_inj {v v' : ℕ} (h : PDX v = PDX v') (h' : PTX v = PTX v') : v = v' := by
  rw [← Nat.div_add_mod v NPTENTRIES, ← Nat.div_add_mod v' NPTENTRIES]
  exact congrArg₂ (fun a b => NPTENTRIES * a + b) h h'

lemma setEntry_entry {v : ℕ} (hv : (d.table (PDX v)).isSome) (e : Option Pte) :
    (d.setEntry v e).entry = Function.update d.entry v e := by
  funext q
  unfold setEntry
  cases h : d.pde (PDX v) with
  | none => simp [table, h] at hv
  | some t =>
    by_cases hq : q = v
    · subst hq
      simp [entry]
    · rw [Function.update_of_ne hq]
      by_cases hpdx : PDX q = PDX v
      · have hptx : PTX q ≠ PTX v := fun hptx => hq (PDX_PTX_inj hpdx hptx)
        simp [entry, hpdx, h, Function.update_of_ne hptx]
      · simp [entry, Function.update_of_ne hpdx]

@[simp] lemma addTable_frame (i f : ℕ) : (d.addTable i f).frame = d.frame := rfl

lemma addTable_table (i f : ℕ) : (d.addTable i f).table = Function.update d.table i (some f) := by
  funext j
  by_cases hj : j = i
  · subst hj
    simp [addTable, table]
  · simp [addTable, table, Function.update_of_ne hj]

lemma addTable_entry {i : ℕ} (hi : d.table i = none) (f : ℕ) :
    (d.addTable i f).entry = d.entry := by
  have hnone : d.pde i = none := Option.map_eq_none_iff.mp hi
  funext v
  by_cases hv : PDX v = i
  · simp [addTable, entry, hv, hnone]
  · simp [addTable, entry, Function.update_of_ne hv]

/-- A present entry is in a page table that is there. -/
lemma table_isSome_of_entry {v : ℕ} {e : Pte} (h : d.entry v = some e) :
    (d.table (PDX v)).isSome := by
  unfold entry at h
  unfold table
  cases hp : d.pde (PDX v) with
  | none => rw [hp] at h; exact absurd h (by simp)
  | some t => rfl

end PageDir

/-! ### Memory with an allocator -/

/-- The errors that come from the allocator. -/
def Err.FromAllocator : Err → Prop
  | .panic msg => msg = "kfree" ∨ msg = "kfree: page reference" ∨ msg = "kalloc: not freelist" ∨
      msg = "can't decrease pgRef"
  | .outOfTable _ => True
  | .nullDeref => False

/-- A page allocator: `kalloc`, and `kfree`, which tells whether the page went back to the
free list. -/
class Allocator (A : Type) where
  kalloc : A → Except Err (Option ℕ × A)
  kfree : A → ℕ → Except Err (Bool × A)
  kalloc_error : ∀ {a e}, kalloc a = .error e → e.FromAllocator
  kfree_error : ∀ {a f e}, kfree a f = .error e → e.FromAllocator

/-- Physical memory. -/
structure Mem (A : Type) where
  alloc : A
  pages : ℕ → Page

/-- Replace the contents of page `f`. -/
def Mem.put {A : Type} (m : Mem A) (f : ℕ) (p : Page) : Mem A :=
  { m with pages := Function.update m.pages f p }

@[simp] lemma Mem.put_alloc {A : Type} (m : Mem A) (f : ℕ) (p : Page) :
    (m.put f p).alloc = m.alloc := rfl

@[simp] lemma Mem.put_pages {A : Type} (m : Mem A) (f : ℕ) (p : Page) :
    (m.put f p).pages = Function.update m.pages f p := rfl

/-- Computations of the kernel on memory. -/
abbrev VmM (A α : Type) := Prog (Mem A) Err α

variable {A : Type} [Allocator A]

/-- `kalloc`. -/
def kalloc : VmM A (Option ℕ) := fun m =>
  (Allocator.kalloc m.alloc).map fun r => (r.1, { m with alloc := r.2 })

/-- `kfree` of page `f`, which is filled with junk when it becomes free. -/
def kfree (f : ℕ) : VmM A Unit := fun m =>
  (Allocator.kfree m.alloc f).map fun r => ((),
    { m with
      alloc := r.2
      pages := if r.1 then Function.update m.pages f junkPage else m.pages })

omit [Allocator A] in
/-- Replace the contents of page `f`. -/
def setPage (f : ℕ) (p : Page) : VmM A Unit :=
  modify fun m => m.put f p

omit [Allocator A] in
/-- The contents of page `f`. -/
def getPage (f : ℕ) : VmM A Page := do return (← get).pages f

omit [Allocator A] in
/-- `panic`. -/
def panic {α : Type} (msg : String) : VmM A α := throw (.panic msg)

section
variable {B : Type} {E : Err → Prop} {m : Mem B}

lemma wp_getPage {Q : Page → Mem B → Prop} {f : ℕ} (h : Q (m.pages f) m) :
    Wp (getPage f) E Q m :=
  wp_bind (wp_get (wp_pure h))

lemma wp_setPage {Q : Unit → Mem B → Prop} {f : ℕ} {p : Page} (h : Q () (m.put f p)) :
    Wp (setPage f p) E Q m :=
  wp_modify h

end

end Xv6Projects.Vm
