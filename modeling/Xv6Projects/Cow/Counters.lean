import Xv6Projects.Cow.Demand

/-!
# The page counters of a process

The system calls `countvp`, `countpp` and `countptp` of project04: the pages below the size of the
process, the pages that user code may access, and the pages of the page directory with its page
tables.
-/

namespace Xv6Projects.Cow

open Library Vm Finset

/-- A loop over `n` indices from `i` that adds one to `cnt` at each index with `p`. -/
def countLoop (p : ℕ → Bool) (i cnt : ℕ) : ℕ → ℕ
  | 0 => cnt
  | n + 1 => countLoop p (i + 1) (if p i then cnt + 1 else cnt) n

/-- The loop of `countvp` over `n` pages from `v`. -/
def countvpLoop (d : PageDir) (v cnt : ℕ) : ℕ → KM ℕ
  | 0 => pure cnt
  | n + 1 =>
      match d.pde (PDX v) with
      -- the text is that of `copyuvm`
      | none => throw (.panic "copyuvm: pte should exist")
      | some _ => countvpLoop d (v + 1) (if (d.entry v).isSome then cnt + 1 else cnt) n

/-- `countvp` of process `c`. -/
def countvp (c : Slot) : KM ℕ := do
  let sz := ((← get).proc c).sz
  let d ← pgdirOf c
  countvpLoop d 0 0 (PGROUNDUP sz)

/-- The outer loop of `countpp` over `n` page tables from `i`. -/
def countppLoop (d : PageDir) (i cnt : ℕ) : ℕ → ℕ
  | 0 => cnt
  | n + 1 =>
      match d.pde i with
      | none => countppLoop d (i + 1) cnt n
      | some t =>
          countppLoop d (i + 1) (countLoop (fun j => (t.pte j).any Pte.u) 0 cnt NPTENTRIES) n

/-- `countpp` of process `c`. -/
def countpp (c : Slot) : KM ℕ := do
  let d ← pgdirOf c
  -- one more, because of `clearpteu` in `exec`
  return countppLoop d 0 0 NPTENTRIES + 1

/-- `countptp` of process `c`. -/
def countptp (c : Slot) : KM ℕ := do
  let d ← pgdirOf c
  -- the page directory is the first of them
  return countLoop (fun i => (d.pde i).isSome) 0 1 NPTENTRIES

/-! ### What the loops count -/

variable {d d' : PageDir} {k : Kernel} {c : Slot} {s : Finset ℕ}

lemma countLoop_eq (p : ℕ → Bool) (n : ℕ) :
    ∀ i cnt, countLoop p i cnt n = cnt + ((range n).filter fun j => p (i + j) = true).card := by
  induction n with
  | zero => exact fun i cnt => rfl
  | succ n ih =>
    intro i cnt
    have hshift : ∀ j, i + 1 + j = i + (j + 1) := fun j => by omega
    rw [countLoop, ih, card_filter, card_filter, sum_range_succ']
    simp only [hshift, Nat.add_zero]
    split_ifs <;> omega

/-- Where all page tables are there, `countvp` counts the present pages. -/
lemma countvpLoop_eq (n : ℕ) :
    ∀ v cnt, (∀ q, v ≤ q → q < v + n → (d.pde (PDX q)).isSome) →
      countvpLoop d v cnt n = pure (countLoop (fun q => (d.entry q).isSome) v cnt n) := by
  induction n with
  | zero => exact fun v cnt _ => rfl
  | succ n ih =>
    intro v cnt hthere
    obtain ⟨t, ht⟩ := Option.isSome_iff_exists.mp (hthere v le_rfl (by omega))
    rw [countvpLoop, ht]
    exact ih _ _ fun q hq hq' => hthere q (by omega) (by omega)

lemma countvp_ok (hd : (k.proc c).pgdir = some d)
    (hthere : ∀ q, q < PGROUNDUP (k.proc c).sz → (d.pde (PDX q)).isSome) :
    countvp c k = .ok
      (((range (PGROUNDUP (k.proc c).sz)).filter fun q => (d.entry q).isSome = true).card, k) := by
  have hloop := countvpLoop_eq (PGROUNDUP (k.proc c).sz) 0 0 fun q _ hq => hthere q (by omega)
  rw [countLoop_eq, Nat.zero_add] at hloop
  simp only [Nat.zero_add] at hloop
  show (pgdirOf c >>= fun d => countvpLoop d 0 0 (PGROUNDUP (k.proc c).sz)) k = _
  rw [bind_ok (pgdirOf_ok hd), hloop]
  rfl

lemma entry_table {i j : ℕ} (hj : j < NPTENTRIES) :
    d.entry (i * NPTENTRIES + j) = (d.pde i).bind fun t => t.pte j := by
  have hpdx : PDX (i * NPTENTRIES + j) = i := by
    simp only [PDX, NPTENTRIES] at hj ⊢
    omega
  have hptx : PTX (i * NPTENTRIES + j) = j := by
    simp only [PTX, NPTENTRIES] at hj ⊢
    omega
  rw [PageDir.entry, hpdx, hptx]

/-- `countpp` counts the entries of consecutive pages. -/
lemma countppLoop_eq (n : ℕ) :
    ∀ i cnt, countppLoop d i cnt n = cnt + ((range (n * NPTENTRIES)).filter fun q =>
      (d.entry (i * NPTENTRIES + q)).any Pte.u = true).card := by
  induction n with
  | zero => exact fun i cnt => by rw [Nat.zero_mul]; rfl
  | succ n ih =>
    intro i cnt
    -- the pages of the first table, and those of the others
    have hsplit : ((range ((n + 1) * NPTENTRIES)).filter fun q =>
        (d.entry (i * NPTENTRIES + q)).any Pte.u = true).card =
        ((range NPTENTRIES).filter fun q =>
          (d.entry (i * NPTENTRIES + q)).any Pte.u = true).card +
        ((range (n * NPTENTRIES)).filter fun q =>
          (d.entry ((i + 1) * NPTENTRIES + q)).any Pte.u = true).card := by
      have hpages : (n + 1) * NPTENTRIES = NPTENTRIES + n * NPTENTRIES := by
        rw [Nat.succ_mul, Nat.add_comm]
      simp only [card_filter]
      rw [hpages, sum_range_add]
      refine congrArg _ (sum_congr rfl fun q _ => ?_)
      rw [Nat.succ_mul, Nat.add_assoc]
    rw [hsplit]
    cases hp : d.pde i with
    | none =>
      have hzero : ((range NPTENTRIES).filter fun q =>
          (d.entry (i * NPTENTRIES + q)).any Pte.u = true) = ∅ := by
        refine filter_eq_empty_iff.mpr fun q hq => ?_
        rw [entry_table (mem_range.mp hq), hp]
        simp
      simp only [countppLoop, hp]
      rw [ih, hzero, card_empty, Nat.zero_add]
    | some t =>
      have htable : ((range NPTENTRIES).filter fun q =>
          (d.entry (i * NPTENTRIES + q)).any Pte.u = true) =
          (range NPTENTRIES).filter fun j => (t.pte (0 + j)).any Pte.u = true := by
        refine filter_congr fun q hq => ?_
        rw [entry_table (mem_range.mp hq), hp, Nat.zero_add]
        rfl
      simp only [countppLoop, hp]
      rw [ih, countLoop_eq, htable, Nat.add_assoc]

lemma countpp_ok (hd : (k.proc c).pgdir = some d) :
    countpp c k =
      .ok (((range NVPAGE).filter fun q => (d.entry q).any Pte.u = true).card + 1, k) := by
  have hloop := countppLoop_eq (d := d) NPTENTRIES 0 0
  simp only [Nat.zero_mul, Nat.zero_add] at hloop
  rw [countpp, bind_ok (pgdirOf_ok hd), hloop]
  rfl

/-- The number of page tables that are there. -/
def tableCount (d : PageDir) : ℕ := ((range NPTENTRIES).filter fun i => d.table i ≠ none).card

lemma countptp_ok (hd : (k.proc c).pgdir = some d) :
    countptp c k = .ok (1 + tableCount d, k) := by
  have htables : ((range NPTENTRIES).filter fun j => (d.pde (0 + j)).isSome = true) =
      (range NPTENTRIES).filter fun i => d.table i ≠ none := by
    refine filter_congr fun i _ => ?_
    rw [Nat.zero_add, PageDir.table]
    cases d.pde i <;> simp
  rw [countptp, bind_ok (pgdirOf_ok hd), countLoop_eq, htables]
  rfl

/-- The page tables that are new are those that were missing. -/
lemma AddsTables.tableCount (h : AddsTables d d' s) (hs : s ⊆ range NPTENTRIES) :
    Cow.tableCount d' = Cow.tableCount d + missingIn d s := by
  have hsplit : (range NPTENTRIES).filter (fun i => d'.table i ≠ none) =
      (range NPTENTRIES).filter (fun i => d.table i ≠ none) ∪
        s.filter (fun i => d.table i = none) := by
    ext i
    have hi : i ∈ s → i ∈ range NPTENTRIES := fun hi => hs hi
    rw [mem_union, mem_filter, mem_filter, mem_filter, Ne, h i]
    generalize (i ∈ range NPTENTRIES) = p at hi ⊢
    tauto
  have hdisj : Disjoint ((range NPTENTRIES).filter fun i => d.table i ≠ none)
      (s.filter fun i => d.table i = none) := by
    rw [disjoint_left]
    intro i hi hi'
    exact (mem_filter.mp hi).2 (mem_filter.mp hi').2
  rw [Cow.tableCount, hsplit, card_union_of_disjoint hdisj]
  rfl

end Xv6Projects.Cow
