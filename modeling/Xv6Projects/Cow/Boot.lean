import Xv6Projects.Library.Simulation
import Xv6Projects.Cow.RefCounts

/-!
# The start of the allocator

`kinit1` and `kinit2` give the pages above the kernel to the free list.  `freerange` clears the
counter of each page first, and takes the number of the counter from the virtual address of the
page; so already the first counter it clears is outside the table.
-/

namespace Xv6Projects.Cow

open Library Vm

/-- The number of the page at address `x`. -/
def P2PG (x : ℕ) : ℕ := x / PGSIZE

/-- `pgRef.pgRef[i] = 0`. -/
def clearRefc (i : ℕ) : VmM Kmem Unit := fun m =>
  if i < NPAGE then
    .ok ((), { m with alloc := { m.alloc with pgRef := Function.update m.alloc.pgRef i 0 } })
  else .error (.outOfTable i)

/-- Every counter that the computation reads or writes is in the table. -/
def InTable {α : Type} (x : KM α) (k : Kernel) : Prop := ∀ i, x k ≠ .error (.outOfTable i)

variable [Layout]

/-- The loop of `freerange` over `n` pages from the virtual address `p`. -/
def freerangeLoop (p : ℕ) : ℕ → VmM Kmem Unit
  | 0 => pure ()
  | n + 1 => do
      clearRefc (P2PG p)
      kfree ((p - KERNBASE) / PGSIZE)
      freerangeLoop (p + PGSIZE) n

/-- `freerange`. -/
def freerange (vstart vend : ℕ) : VmM Kmem Unit :=
  freerangeLoop (PGROUNDUP vstart * PGSIZE) (vend / PGSIZE - PGROUNDUP vstart)

/-- The end of the pages that `entrypgdir` maps. -/
def entryEnd : ℕ := KERNBASE + 4 * 1024 * 1024

/-- `kinit1`, as `main` calls it. -/
def kinit1 : VmM Kmem Unit := freerange Layout.kend entryEnd

/-- `kinit2`, as `main` calls it. -/
def kinit2 : VmM Kmem Unit := freerange entryEnd (KERNBASE + PHYSTOP)

/-- A run from boot: `main` up to `kinit2`, and any operations after it. -/
def bootRun (ops : List Op) : KM (List Reply) := do
  vm kinit1
  kvmalloc
  vm kinit2
  performAll perform ops

/-! ### `freerange` -/

omit [Layout] in
/-- The counters have the numbers of physical pages. -/
lemma NPAGE_le_P2PG {p : ℕ} (hp : KERNBASE ≤ p) : NPAGE ≤ P2PG p := by
  have hle : KERNBASE / PGSIZE ≤ p / PGSIZE := Nat.div_le_div_right hp
  have hconst : NPAGE ≤ KERNBASE / PGSIZE := by decide
  exact hconst.trans hle

/-- The first page of the range is already outside the table. -/
lemma freerange_error {vstart vend : ℕ} (hstart : KERNBASE ≤ vstart)
    (hpages : PGROUNDUP vstart < vend / PGSIZE) (m : Mem Kmem) :
    freerange vstart vend m = .error (.outOfTable (PGROUNDUP vstart)) := by
  have hup : vstart ≤ PGROUNDUP vstart * PGSIZE := by
    simp only [PGROUNDUP, PGSIZE]
    omega
  have hindex : P2PG (PGROUNDUP vstart * PGSIZE) = PGROUNDUP vstart :=
    Nat.mul_div_cancel _ (by decide)
  have hout : NPAGE ≤ PGROUNDUP vstart := by
    rw [← hindex]
    exact NPAGE_le_P2PG (hstart.trans hup)
  obtain ⟨n, hn⟩ := Nat.exists_eq_succ_of_ne_zero (Nat.sub_pos_of_lt hpages).ne'
  have hclear : clearRefc (P2PG (PGROUNDUP vstart * PGSIZE)) m =
      .error (.outOfTable (PGROUNDUP vstart)) := by
    rw [hindex]
    exact if_neg (not_lt.mpr hout)
  unfold freerange
  rw [hn, freerangeLoop]
  exact bind_error hclear

/-- A range that has no whole page changes nothing. -/
lemma freerange_empty {vstart vend : ℕ} (hpages : vend / PGSIZE ≤ PGROUNDUP vstart)
    (m : Mem Kmem) : freerange vstart vend m = .ok ((), m) := by
  unfold freerange
  rw [Nat.sub_eq_zero_of_le hpages]
  rfl

/-! ### Runs from boot -/

lemma le_kend : KERNBASE ≤ Layout.kend := by
  have h₁ := Layout.kernlink_lt
  have h₂ := Layout.data_le
  simp only [KERNLINK] at h₁
  omega

/-- Without a free page `setupkvm` indexes the counter of the null pointer. -/
lemma setupkvm_nil {m : Mem Kmem} (h : m.alloc.freelist = []) :
    setupkvm m = .error (.outOfTable nullPage) := by
  have hkalloc : kalloc m = .error (.outOfTable nullPage) := by
    show Except.map _ (Kmem.kalloc m.alloc) = _
    rw [Kmem.kalloc_nil h]
    rfl
  exact bind_error hkalloc

/-- Every run from boot ends at a counter outside the table: in `kinit1`, or, when the kernel
fills the pages that `kinit1` gives to the allocator, in `kvmalloc`. -/
lemma bootRun_error (pages : ℕ → Page) (ops : List Op) : ∃ i, NPAGE ≤ i ∧
    bootRun ops (Kernel.boot [] pages) = .error (.outOfTable i) := by
  rcases lt_or_ge (PGROUNDUP Layout.kend) (entryEnd / PGSIZE) with hlt | hge
  · have hout : NPAGE ≤ PGROUNDUP Layout.kend := by
      have hle : P2PG Layout.kend ≤ PGROUNDUP Layout.kend := by
        simp only [P2PG, PGROUNDUP, PGSIZE]
        omega
      exact (NPAGE_le_P2PG le_kend).trans hle
    exact ⟨_, hout, bind_error (zoom_error (freerange_error le_kend hlt _))⟩
  · have hnull : NPAGE ≤ nullPage := by decide
    refine ⟨nullPage, hnull, ?_⟩
    have hempty : vm kinit1 (Kernel.boot [] pages) = .ok ((), Kernel.boot [] pages) :=
      zoom_ok (freerange_empty hge _)
    have hkvmalloc : kvmalloc (Kernel.boot [] pages) = .error (.outOfTable nullPage) :=
      bind_error (zoom_error (setupkvm_nil rfl))
    exact (bind_ok hempty).trans (bind_error hkvmalloc)

/-- **No run from boot stays in the table**, whatever the kernel's size, the contents of memory
and the operations after boot. -/
theorem bootRun_not_inTable (pages : ℕ → Page) (ops : List Op) :
    ¬InTable (bootRun ops) (Kernel.boot [] pages) := by
  obtain ⟨i, -, herr⟩ := bootRun_error pages ops
  exact fun h => h i herr

omit [Layout] in
/-- The first page that `kinit1` gives to the allocator is the page at `0x80115000`. -/
theorem bootRun_outOfTable : NPAGE ≤ 0x80115 ∧
    @bootRun Layout.sample [] (Kernel.boot [] fun _ => zeroPage) = .error (.outOfTable 0x80115) := by
  refine ⟨by decide, ?_⟩
  have hkend : @PGROUNDUP (@Layout.kend Layout.sample) = 0x80115 := by decide
  have hlt : PGROUNDUP (@Layout.kend Layout.sample) < entryEnd / PGSIZE := by
    rw [hkend]
    decide
  have herr := @freerange_error Layout.sample _ _ (@le_kend Layout.sample) hlt
    (Kernel.boot [] fun _ => zeroPage).mem
  rw [hkend] at herr
  exact bind_error (zoom_error herr)

variable {R : Set ℕ} {k : Kernel}

/-- After boot a counter outside the table is read in two ways only: by a `kalloc` that finds no
free page, and by a page fault at a kernel address. -/
theorem outOfTable_cases (hR : ∀ f ∈ R, Kmem.Usable f) (h : Inv R k) {op : Op}
    (he : Enabled k op) {i : ℕ} (hp : perform op k = .error (.outOfTable i)) :
    i = nullPage ∨ ∃ c va user a n, op = .access c va user a n ∧ NUPAGE ≤ va / PGSIZE := by
  by_cases hs : FaultOk k op
  · have hno : NoPage (.outOfTable i) := (h.perform hR he hs).error hp trivial
    exact Or.inl (Err.outOfTable.inj hno)
  · cases op with
    | access c va user a n =>
      refine Or.inr ⟨c, va, user, a, n, rfl, not_lt.mp fun hlt => hs fun d _ => Or.inl hlt⟩
    | _ => exact absurd trivial hs

end Xv6Projects.Cow
