import Xv6Projects.Vm.Memory

/-!
# The functions of `vm.c` that both projects share

Loops over addresses `a += PGSIZE` are loops over page numbers.  A function that writes a
page directory returns it.  The contents of the pages that a page directory and its page
tables occupy are the directory itself, and are not kept in `Mem.pages`.
-/

namespace Xv6Projects.Vm

open Library

variable {A : Type} [Allocator A]

/-- The number of the first page at or after address `a`. -/
def PGROUNDUP (a : ℕ) : ℕ := (a + PGSIZE - 1) / PGSIZE

lemma PGROUNDUP_mul (v : ℕ) : PGROUNDUP (v * PGSIZE) = v := by
  simp only [PGROUNDUP, PGSIZE]
  omega

lemma PGROUNDUP_mul_add (v : ℕ) : PGROUNDUP (v * PGSIZE + PGSIZE) = v + 1 := by
  rw [← Nat.succ_mul]
  exact PGROUNDUP_mul (v + 1)

/-- `walkpgdir` for virtual page `v`: the page directory in which the page table of `v` is
there, or a null pointer. -/
def walkpgdir (d : PageDir) (v : ℕ) (alloc : Bool) : VmM A (Option PageDir) :=
  match d.pde (PDX v) with
  | some _ => pure (some d)
  | none =>
      if alloc = false then pure none
      else do
        match ← kalloc with
        | none => pure none
        | some f => pure (some (d.addTable (PDX v) f))

/-- The loop of `mappages` over `n` pages from virtual page `v` and physical page `pa`:
whether it succeeded, and the page directory. -/
def mapLoop (d : PageDir) (v pa : ℕ) (w u : Bool) : ℕ → VmM A (Bool × PageDir)
  | 0 => pure (true, d)
  | n + 1 => do
      match ← walkpgdir d v true with
      | none => pure (false, d)
      | some d =>
          if (d.entry v).isSome then panic "remap"
          else mapLoop (d.setEntry v (some ⟨pa, w, u⟩)) (v + 1) (pa + 1) w u n

/-- `mappages`. -/
def mappages (d : PageDir) (va size pa : ℕ) (w u : Bool) : VmM A (Bool × PageDir) :=
  mapLoop d (va / PGSIZE) (pa / PGSIZE) w u ((va + size - 1) / PGSIZE - va / PGSIZE + 1)

/-- The loop of `deallocuvm`: the pages from `v` up to `last`. -/
def deallocLoop (d : PageDir) (v last : ℕ) : VmM A PageDir :=
  if v < last then
    match d.pde (PDX v) with
    -- `a = PGADDR(PDX(a) + 1, 0, 0) - PGSIZE`, then `a += PGSIZE`
    | none => deallocLoop d ((PDX v + 1) * NPTENTRIES) last
    | some _ =>
        match d.entry v with
        | none => deallocLoop d (v + 1) last
        | some e =>
            if e.pfn = 0 then panic "kfree"
            else do
              kfree e.pfn
              deallocLoop (d.setEntry v none) (v + 1) last
  else pure d
termination_by last - v
decreasing_by
  · have hlt := Nat.lt_mul_div_succ v (b := NPTENTRIES) (by decide)
    rw [Nat.mul_comm] at hlt
    simp only [PDX]
    omega
  · omega
  · omega

/-- `deallocuvm`, with its return value. -/
def deallocuvm (d : PageDir) (oldsz newsz : ℕ) : VmM A (ℕ × PageDir) :=
  if oldsz ≤ newsz then pure (oldsz, d)
  else do
    let d ← deallocLoop d (PGROUNDUP newsz) (PGROUNDUP oldsz)
    return (newsz, d)

/-- The loop of `allocuvm` over `n` pages from `v`. -/
def allocLoop (oldsz newsz : ℕ) (d : PageDir) (v : ℕ) : ℕ → VmM A (ℕ × PageDir)
  | 0 => pure (newsz, d)
  | n + 1 => do
      match ← kalloc with
      | none => do
          let r ← deallocuvm d newsz oldsz
          return (0, r.2)
      | some f => do
          setPage f zeroPage
          match ← mappages d (v * PGSIZE) PGSIZE (f * PGSIZE) true true with
          | (false, d) => do
              let r ← deallocuvm d newsz oldsz
              kfree f
              return (0, r.2)
          | (true, d) => allocLoop oldsz newsz d (v + 1) n

/-- `allocuvm`, with its return value. -/
def allocuvm (d : PageDir) (oldsz newsz : ℕ) : VmM A (ℕ × PageDir) :=
  if KERNBASE ≤ newsz then pure (0, d)
  else if newsz < oldsz then pure (oldsz, d)
  else allocLoop oldsz newsz d (PGROUNDUP oldsz) (PGROUNDUP newsz - PGROUNDUP oldsz)

/-- The page tables of `freevm`: those with index below `n` that are still there, from the
first one on. -/
def freeTables (d : PageDir) : List ℕ → VmM A Unit
  | [] => pure ()
  | i :: is => do
      match d.pde i with
      | none => pure ()
      | some t => kfree t.frame
      freeTables d is

/-- `freevm`. -/
def freevm (d : PageDir) : VmM A Unit := do
  let r ← deallocuvm d KERNBASE 0
  freeTables r.2 (List.range NPTENTRIES)
  kfree d.frame

/-- A line of `kmap`: the first virtual address, the physical range, and `PTE_W`. -/
structure Kmap where
  virt : ℕ
  physStart : ℕ
  physEnd : ℕ
  w : Bool

/-- `kmap`. -/
def kmap [Layout] : List Kmap :=
  [⟨KERNBASE, 0, EXTMEM, true⟩,
    ⟨KERNLINK, KERNLINK - KERNBASE, Layout.data - KERNBASE, false⟩,
    ⟨Layout.data, Layout.data - KERNBASE, PHYSTOP, true⟩,
    ⟨DEVSPACE, DEVSPACE, 0, true⟩]

/-- `phys_end - phys_start`, an unsigned difference. -/
def Kmap.size (k : Kmap) : ℕ := (k.physEnd + 2 ^ 32 - k.physStart) % 2 ^ 32

/-- The loop of `setupkvm`. -/
def mapKernel (d : PageDir) : List Kmap → VmM A (Option PageDir)
  | [] => pure (some d)
  | k :: ks => do
      match ← mappages d k.virt k.size k.physStart k.w false with
      | (false, d) => do
          freevm d
          return none
      | (true, d) => mapKernel d ks

/-- `setupkvm`. -/
def setupkvm [Layout] : VmM A (Option PageDir) := do
  match ← kalloc with
  | none => return none
  | some f => mapKernel (PageDir.empty f) kmap

/-- `inituvm` for code `init`. -/
def inituvm (d : PageDir) (init : List UInt8) : VmM A PageDir := do
  if PGSIZE ≤ init.length then panic "inituvm: more than a page"
  else
    match ← kalloc with
    | none => throw .nullDeref
    | some f => do
        let r ← mappages d 0 PGSIZE (f * PGSIZE) true true
        setPage f fun o => init.getD o 0
        return r.2

/-- `clearpteu` for virtual page `v`. -/
def clearpteu (d : PageDir) (v : ℕ) : VmM A PageDir :=
  match d.pde (PDX v) with
  | none => panic "clearpteu"
  | some _ => pure (d.setEntry v ((d.entry v).map fun e => { e with u := false }))

/-- The contents of a page after `bytes` are written at offset `o`. -/
def writeBytes (p : Page) (o : ℕ) (bytes : List UInt8) : Page := fun x =>
  if o ≤ x ∧ x < o + bytes.length then bytes.getD (x - o) 0 else p x

/-- `uva2ka` for virtual page `v`: the physical page, when user code may access it. -/
def uva2ka (d : PageDir) (v : ℕ) : VmM A (Option ℕ) :=
  match d.pde (PDX v) with
  -- `*pte` for the null pointer of `walkpgdir`
  | none => throw .nullDeref
  | some _ =>
      match d.entry v with
      | none => pure none
      | some e => if e.u then pure (some e.pfn) else pure none

/-- `copyout`: whether all bytes were copied. -/
def copyout (d : PageDir) (va : ℕ) (bytes : List UInt8) : VmM A Bool :=
  if bytes = [] then pure true
  else do
    match ← uva2ka d (va / PGSIZE) with
    | none => return false
    | some f => do
        let n := PGSIZE - va % PGSIZE
        let p ← getPage f
        setPage f (writeBytes p (va % PGSIZE) (bytes.take n))
        copyout d ((va / PGSIZE + 1) * PGSIZE % 2 ^ 32) (bytes.drop n)
termination_by bytes.length
decreasing_by
  have hlt := Nat.mod_lt va (show 0 < PGSIZE by decide)
  have hpos := List.length_pos_iff.mpr ‹_›
  simp only [List.length_drop]
  omega

/-- `readi(ip, dst, off, n) == n`, for a file with contents `file`. -/
def readable (file : List UInt8) (off n : ℕ) : Bool := off + n < 2 ^ 32 ∧ off + n ≤ file.length

/-- The loop of `loaduvm` over the pages from `i` on: whether all reads succeeded. -/
def loadLoop (d : PageDir) (file : List UInt8) (v off sz : ℕ) (i : ℕ) : ℕ → VmM A Bool
  | 0 => pure true
  | k + 1 => do
      match d.pde (PDX v) with
      | none => panic "loaduvm: address should exist"
      | some _ => do
          -- an entry without `PTE_P` is zero
          let f := ((d.entry v).map Pte.pfn).getD 0
          let n := min (sz - i) PGSIZE
          if readable file (off + i) n then do
            let p ← getPage f
            setPage f (writeBytes p 0 ((file.drop (off + i)).take n))
            loadLoop d file (v + 1) off sz (i + PGSIZE) k
          else return false

/-- `loaduvm` at the beginning of virtual page `v`. -/
def loaduvm (d : PageDir) (v : ℕ) (file : List UInt8) (off sz : ℕ) : VmM A Bool :=
  loadLoop d file v off sz 0 (PGROUNDUP sz)

end Xv6Projects.Vm
