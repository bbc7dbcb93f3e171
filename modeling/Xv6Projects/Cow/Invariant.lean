import Xv6Projects.Cow.Image
import Xv6Projects.Cow.Sharing

/-!
# The holders of the whole system

The holders of a page are the page directories, with their tables and user entries, the kernel
stacks, and the pipes.  Between two operations the counters of the allocator say how many
holders each page has.
-/

namespace Xv6Projects.Cow

open Library Vm Finset

/-- The holders that a process is. -/
def Proc.holders (p : Proc) : ℕ → ℕ := one p.kstack + p.pgdir.elim 0 holds

/-- The holders that the pipes are. -/
def pipeHolders (pipes : ℕ → Option Pipe) : ℕ → ℕ := fun f => if (pipes f).isSome then 1 else 0

namespace Kernel

/-- **The holders** of each page. -/
def holders (k : Kernel) : ℕ → ℕ :=
  k.kpgdir.elim 0 holds + ∑ i, (k.proc i).holders + pipeHolders k.pipes

/-- The holders of each page other than process `c`. -/
def others (k : Kernel) (c : Slot) : ℕ → ℕ :=
  k.kpgdir.elim 0 holds + ∑ i ∈ univ.erase c, (k.proc i).holders + pipeHolders k.pipes

@[simp] lemma setMem_mem (k : Kernel) (m : Mem Kmem) : (k.setMem m).mem = m := rfl
@[simp] lemma setMem_proc (k : Kernel) (m : Mem Kmem) : (k.setMem m).proc = k.proc := rfl
@[simp] lemma setMem_holders (k : Kernel) (m : Mem Kmem) : (k.setMem m).holders = k.holders := rfl
@[simp] lemma setMem_others (k : Kernel) (m : Mem Kmem) : (k.setMem m).others = k.others := rfl
@[simp] lemma setProc_mem (k : Kernel) (i : Slot) (p : Proc) : (k.setProc i p).mem = k.mem := rfl
@[simp] lemma setProc_proc (k : Kernel) (i : Slot) (p : Proc) :
    (k.setProc i p).proc = Function.update k.proc i p := rfl

lemma holders_eq (k : Kernel) (c : Slot) : k.holders = k.others c + (k.proc c).holders := by
  have hsum := Finset.add_sum_erase univ (fun i => (k.proc i).holders) (mem_univ c)
  rw [holders, others, ← hsum]
  abel

lemma others_setProc (k : Kernel) (c : Slot) (p : Proc) :
    (k.setProc c p).others c = k.others c := by
  have hsum : ∑ i ∈ univ.erase c, ((k.setProc c p).proc i).holders =
      ∑ i ∈ univ.erase c, (k.proc i).holders :=
    sum_congr rfl fun i hi => by rw [setProc_proc, Function.update_of_ne (ne_of_mem_erase hi)]
  rw [others, hsum]
  rfl

/-- One process changes. -/
lemma holders_setProc (k : Kernel) (c : Slot) (p : Proc) :
    (k.setProc c p).holders = k.others c + p.holders := by
  rw [holders_eq _ c, others_setProc, setProc_proc, Function.update_self]

lemma proc_le_others (k : Kernel) {c j : Slot} (hj : j ≠ c) (g : ℕ) :
    (k.proc j).holders g ≤ k.others c g := by
  have hle := single_le_sum (f := fun i => (k.proc i).holders g) (fun i _ => Nat.zero_le _)
    (mem_erase.mpr ⟨hj, mem_univ j⟩)
  simp only [others, Pi.add_apply, Finset.sum_apply]
  omega

lemma proc_le_holders (k : Kernel) (c : Slot) (g : ℕ) : (k.proc c).holders g ≤ k.holders g := by
  rw [k.holders_eq c]
  exact Nat.le_add_left _ _

end Kernel

/-! ### The invariant -/

section
variable [Layout]

/-- A page directory for an address space of size `sz`. -/
structure DirOk (d : PageDir) (sz : ℕ) : Prop where
  le : sz ≤ KERNBASE
  unmapped : ∀ q, PGROUNDUP sz ≤ q → q < NUPAGE → d.entry q = none
  kernel : ∀ q, NUPAGE ≤ q → d.entry q = kernelEntry kmap q

/-- A table entry between two operations. -/
def ProcOk (p : Proc) : Prop :=
  match p.state with
  | .unused => p.kstack = none ∧ p.pgdir = none
  | .embryo => False
  | .runnable | .zombie =>
      ∃ f d, p.kstack = some f ∧ p.pgdir = some d ∧ DirOk d p.sz

/-- **The invariant**: the counters are right, and each process has an address space. -/
structure Inv (R : Set ℕ) (k : Kernel) : Prop where
  counts : k.mem.alloc.Counts R k.holders
  proc : ∀ i, ProcOk (k.proc i)
  kpgdir : ∀ d, k.kpgdir = some d → d.entry = kernelEntry kmap

variable {R : Set ℕ} {k : Kernel} {c : Slot}

lemma Inv.unused (h : Inv R k) {i : Slot} (hi : (k.proc i).state = .unused) :
    (k.proc i).kstack = none ∧ (k.proc i).pgdir = none := by
  have hp := h.proc i
  rwa [ProcOk, hi] at hp

lemma Inv.holders_unused (h : Inv R k) {i : Slot} (hi : (k.proc i).state = .unused) :
    (k.proc i).holders = 0 := by
  obtain ⟨hk, hd⟩ := h.unused hi
  rw [Proc.holders, hk, hd]
  exact add_zero _

/-- A process that is there has a kernel stack and a page directory. -/
lemma Inv.live (h : Inv R k) (hc : (k.proc c).state ≠ .unused) :
    ∃ f d, (k.proc c).kstack = some f ∧ (k.proc c).pgdir = some d ∧ DirOk d (k.proc c).sz := by
  have hp := h.proc c
  rw [ProcOk] at hp
  cases hs : (k.proc c).state with
  | unused => exact absurd hs hc
  | embryo => rw [hs] at hp; exact hp.elim
  | runnable => rw [hs] at hp; exact hp
  | zombie => rw [hs] at hp; exact hp

omit [Layout] in
lemma Proc.holders_of {p : Proc} {f : ℕ} {d : PageDir} (hf : p.kstack = some f)
    (hd : p.pgdir = some d) : p.holders = Pi.single f 1 + holds d := by
  rw [Proc.holders, hf, hd, one_some, Option.elim_some]

lemma ProcOk.of_live {p : Proc} {f : ℕ} {d : PageDir} (hs : p.state = .runnable ∨ p.state = .zombie)
    (hf : p.kstack = some f) (hd : p.pgdir = some d) (hok : DirOk d p.sz) : ProcOk p := by
  rcases hs with hs | hs
  · rw [ProcOk, hs]
    exact ⟨f, d, hf, hd, hok⟩
  · rw [ProcOk, hs]
    exact ⟨f, d, hf, hd, hok⟩

/-- Process `c` gets page directory `d` and size `sz`, and the memory becomes `m`. -/
def Kernel.setSpace (k : Kernel) (c : Slot) (m : Mem Kmem) (d : PageDir) (sz : ℕ) : Kernel :=
  (k.setMem m).setProc c { k.proc c with pgdir := some d, sz := sz }

omit [Layout] in
lemma setSpace_proc (m : Mem Kmem) (d : PageDir) (sz : ℕ) :
    (k.setSpace c m d sz).proc c = { k.proc c with pgdir := some d, sz := sz } :=
  Function.update_self _ _ _

omit [Layout] in
lemma setSpace_other {i : Slot} (hi : i ≠ c) (m : Mem Kmem) (d : PageDir) (sz : ℕ) :
    (k.setSpace c m d sz).proc i = k.proc i :=
  Function.update_of_ne hi _ _

omit [Layout] in
lemma setSpace_self {d : PageDir} (hd : (k.proc c).pgdir = some d) :
    k.setSpace c k.mem d (k.proc c).sz = k := by
  have hp : ({ k.proc c with pgdir := some d, sz := (k.proc c).sz } : Proc) = k.proc c := by
    rw [← hd]
  rw [Kernel.setSpace, hp, Kernel.setProc, Kernel.setMem, Function.update_eq_self]

/-- The page table entry of process `c` at page `v`. -/
def Kernel.pte (k : Kernel) (c : Slot) (v : ℕ) : Option Pte :=
  (k.proc c).pgdir.bind fun d => d.entry v

omit [Layout] in
lemma pte_of_pgdir {d : PageDir} (hd : (k.proc c).pgdir = some d) (v : ℕ) :
    k.pte c v = d.entry v := by
  rw [Kernel.pte, hd]
  rfl

omit [Layout] in
/-- The entries after process `c` got page directory `d'`. -/
lemma pte_setSpace (k : Kernel) (c i : Slot) (m : Mem Kmem) (d' : PageDir) (sz v : ℕ) :
    (k.setSpace c m d' sz).pte i v = if i = c then d'.entry v else k.pte i v := by
  by_cases hi : i = c
  · subst hi
    rw [if_pos rfl, Kernel.pte, setSpace_proc]
    rfl
  · rw [if_neg hi, Kernel.pte, setSpace_other hi]
    rfl

omit [Layout] in
lemma holders_setSpace {f : ℕ} (hf : (k.proc c).kstack = some f) (m : Mem Kmem) (d : PageDir)
    (sz : ℕ) : (k.setSpace c m d sz).holders = k.others c + Pi.single f 1 + holds d := by
  rw [Kernel.setSpace, Kernel.holders_setProc, Proc.holders_of (p := { k.proc c with
    pgdir := some d, sz := sz }) hf rfl, ← add_assoc]
  rfl

omit [Layout] in
lemma holders_of_live {f : ℕ} {d : PageDir} (hf : (k.proc c).kstack = some f)
    (hd : (k.proc c).pgdir = some d) : k.holders = k.others c + Pi.single f 1 + holds d := by
  rw [k.holders_eq c, Proc.holders_of hf hd, add_assoc]

/-- A process changes its own address space. -/
lemma Inv.setSpace (h : Inv R k) (hc : (k.proc c).state = .runnable) {f : ℕ}
    (hf : (k.proc c).kstack = some f) {m : Mem Kmem} {d : PageDir} {sz : ℕ}
    (hm : m.alloc.Counts R (k.others c + Pi.single f 1 + holds d)) (hd : DirOk d sz) :
    Inv R (k.setSpace c m d sz) := by
  refine ⟨?_, fun i => ?_, h.kpgdir⟩
  · rw [holders_setSpace hf]
    exact hm
  · rcases eq_or_ne i c with rfl | hi
    · rw [Kernel.setSpace, Kernel.setProc_proc, Function.update_self]
      exact ProcOk.of_live (Or.inl hc) hf rfl hd
    · rw [Kernel.setSpace, Kernel.setProc_proc, Function.update_of_ne hi]
      exact h.proc i

end

end Xv6Projects.Cow
