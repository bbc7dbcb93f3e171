import Xv6Projects.Library.Cost
import Xv6Projects.Cow.RefCounts

/-!
# How many pages a call takes

The exact number of pages that `fork` and a growing `sbrk` take from the free list: one for each
page they make, and one for each page table that is missing.
-/

namespace Xv6Projects.Cow

open Library Vm Finset

/-- The number of free pages. -/
def free (m : Mem Kmem) : ℕ := m.alloc.freelist.length

/-- The indices in the page directory of the `n` pages from `v`. -/
def dirs (v n : ℕ) : Finset ℕ := (range n).image fun j => PDX (v + j)

/-- The number of page tables with an index in `s` that page directory `d` does not have. -/
def missingIn (d : PageDir) (s : Finset ℕ) : ℕ := (s.filter fun i => d.table i = none).card

/-- Page directory `d'` has the page tables of `d` and those with an index in `s`. -/
def AddsTables (d d' : PageDir) (s : Finset ℕ) : Prop :=
  ∀ i, d'.table i = none ↔ d.table i = none ∧ i ∉ s

/-! ### Sets of page tables -/

variable {d d' d'' : PageDir} {s t : Finset ℕ} {v n : ℕ}

lemma AddsTables.refl (d : PageDir) : AddsTables d d ∅ := fun i => by simp

lemma AddsTables.trans (h : AddsTables d d' s) (h' : AddsTables d' d'' t) :
    AddsTables d d'' (s ∪ t) := by
  intro i
  rw [h' i, h i, mem_union, not_or, and_assoc]

lemma AddsTables.setEntry (h : AddsTables d d' s) (v : ℕ) (e : Option Pte) :
    AddsTables d (d'.setEntry v e) s := by
  intro i
  rw [PageDir.setEntry_table]
  exact h i

/-- The page tables of the second part are counted after those of the first are there. -/
lemma missingIn_union (h : AddsTables d d' s) (t : Finset ℕ) :
    missingIn d (s ∪ t) = missingIn d s + missingIn d' t := by
  have hsplit : (s ∪ t).filter (fun i => d.table i = none) =
      s.filter (fun i => d.table i = none) ∪ t.filter (fun i => d'.table i = none) := by
    ext i
    simp only [mem_union, mem_filter, h i]
    tauto
  have hdisj : Disjoint (s.filter fun i => d.table i = none)
      (t.filter fun i => d'.table i = none) := by
    rw [disjoint_left]
    intro i hi hi'
    exact ((h i).mp (mem_filter.mp hi').2).2 (mem_filter.mp hi).1
  rw [missingIn, hsplit, card_union_of_disjoint hdisj]
  rfl

lemma missingIn_le (d : PageDir) (s t : Finset ℕ) : missingIn d s ≤ missingIn d (s ∪ t) :=
  card_le_card (filter_subset_filter _ subset_union_left)

/-- What the second part still counts. -/
lemma missingIn_sub (h : AddsTables d d' s) (t : Finset ℕ) :
    missingIn d (s ∪ t) - missingIn d s = missingIn d' t := by
  rw [missingIn_union h, Nat.add_sub_cancel_left]

lemma missingIn_congr (h : ∀ i ∈ s, d.table i = none ↔ d'.table i = none) :
    missingIn d s = missingIn d' s := by
  rw [missingIn, missingIn, filter_congr h]

@[simp] lemma missingIn_empty (d : PageDir) : missingIn d ∅ = 0 := rfl

lemma missingIn_singleton (d : PageDir) (i : ℕ) :
    missingIn d {i} = if d.table i = none then 1 else 0 := by
  rw [missingIn, filter_singleton]
  split_ifs <;> rfl

lemma dirs_zero (v : ℕ) : dirs v 0 = ∅ := rfl

lemma dirs_succ (v n : ℕ) : dirs v (n + 1) = {PDX v} ∪ dirs (v + 1) n := by
  ext i
  simp only [dirs, mem_image, mem_range, mem_union, mem_singleton]
  constructor
  · rintro ⟨j, hj, rfl⟩
    rcases Nat.eq_zero_or_pos j with rfl | hpos
    · exact Or.inl rfl
    · exact Or.inr ⟨j - 1, by omega, by congr 1; omega⟩
  · rintro (rfl | ⟨j, hj, rfl⟩)
    · exact ⟨0, by omega, rfl⟩
    · exact ⟨j + 1, by omega, by congr 1; omega⟩

lemma dirs_one (v : ℕ) : dirs v 1 = {PDX v} := by
  rw [dirs_succ, dirs_zero, union_empty]

/-- The indices of a range of pages are consecutive. -/
lemma dirs_eq_Ico (hn : 0 < n) : dirs v n = Ico (PDX v) (PDX (v + n - 1) + 1) := by
  ext i
  simp only [dirs, mem_image, mem_range, mem_Ico, PDX, NPTENTRIES]
  constructor
  · rintro ⟨j, hj, rfl⟩
    omega
  · rintro ⟨hlo, hhi⟩
    rcases Nat.lt_or_ge (v / 1024) i with hlt | hge
    · exact ⟨i * 1024 - v, by omega, by omega⟩
    · exact ⟨0, hn, by omega⟩

/-! ### Page tables -/

/-- The free pages have counters. -/
def Ready (m : Mem Kmem) : Prop := ∀ f ∈ m.alloc.freelist, f < NPAGE

variable {m : Mem Kmem}

/-- The error of a `kalloc` that finds an empty free list. -/
lemma kalloc_of_nil [Layout] (hl : m.alloc.freelist = []) :
    kalloc m = .error (.outOfTable nullPage) := by
  show Except.map _ (Kmem.kalloc m.alloc) = _
  rw [Kmem.kalloc_nil hl]
  rfl

lemma kalloc_takes [Layout] (h : Ready m) :
    Takes free NoPage kalloc 1 (fun r m' => (∃ f, r = some f) ∧ Ready m') m := by
  unfold Takes
  cases hl : m.alloc.freelist with
  | nil =>
    have herr : kalloc m = .error (.outOfTable nullPage) := kalloc_of_nil hl
    rw [Wp, herr]
    intro _
    simp [free, hl]
  | cons f l =>
    have hlt : f < NPAGE := h f (by rw [hl]; simp)
    rcases eq_or_ne (m.alloc.pgRef f) 0 with hzero | hne
    · have hok : kalloc m = .ok (some f, { m with
          alloc := ⟨l, Function.update m.alloc.pgRef f (m.alloc.pgRef f + 1)⟩ }) := by
        show Except.map _ (Kmem.kalloc m.alloc) = _
        rw [Kmem.kalloc_cons hl hlt hzero]
        rfl
      rw [Wp, hok]
      refine ⟨by simp [free, hl], ⟨f, rfl⟩, fun g hg => h g ?_⟩
      rw [hl]
      exact List.mem_cons_of_mem _ hg
    · have herr : kalloc m = .error (.panic "kalloc: not freelist") := by
        have hk : Kmem.kalloc m.alloc = .error (.panic "kalloc: not freelist") := by
          simp only [Kmem.kalloc, hl, List.head?_cons, Option.getD_some, Kmem.getRefc_of_lt hlt]
          exact if_neg hne
        show Except.map _ (Kmem.kalloc m.alloc) = _
        rw [hk]
        rfl
      rw [Wp, herr]
      intro ho
      simp [NoPage] at ho

/-- `NoPage` is the error of a `kalloc` that finds an empty free list. -/
lemma kalloc_noPage_iff [Layout] (h : Ready m) :
    (∃ e, kalloc m = .error e ∧ NoPage e) ↔ m.alloc.freelist = [] := by
  constructor
  · rintro ⟨e, herr, he⟩
    have hempty : free m < 1 := (kalloc_takes h).error herr he
    exact List.length_eq_zero_iff.mp (Nat.lt_one_iff.mp hempty)
  · exact fun hl => ⟨_, kalloc_of_nil hl, rfl⟩

variable [Layout]

lemma walkpgdir_takes (d : PageDir) (v : ℕ) (h : Ready m) :
    Takes free NoPage (walkpgdir d v true) (missingIn d {PDX v})
      (fun o m' => ∃ d', o = some d' ∧ AddsTables d d' {PDX v} ∧ Ready m') m := by
  unfold walkpgdir
  cases hp : d.pde (PDX v) with
  | some t =>
    have hthere : d.table (PDX v) ≠ none := by simp [PageDir.table, hp]
    rw [missingIn_singleton, if_neg hthere]
    refine takes_pure ⟨d, rfl, fun i => ?_, h⟩
    rw [mem_singleton]
    constructor
    · intro hi
      refine ⟨hi, ?_⟩
      rintro rfl
      exact hthere hi
    · exact fun hi => hi.1
  | none =>
    have hnone : d.table (PDX v) = none := by simp [PageDir.table, hp]
    rw [missingIn_singleton, if_pos hnone]
    dsimp only
    rw [if_neg (by simp)]
    refine (kalloc_takes h).bind_sub le_rfl fun o m' ho => ?_
    obtain ⟨⟨f, rfl⟩, h'⟩ := ho
    refine takes_pure ⟨_, rfl, fun i => ?_, h'⟩
    rw [PageDir.addTable_table, mem_singleton]
    rcases eq_or_ne i (PDX v) with rfl | hi
    · simp
    · simp [hi]

lemma mapLoop_takes (w u : Bool) (k : ℕ) :
    ∀ (d : PageDir) (v pa : ℕ) (m : Mem Kmem), Ready m →
      Takes free NoPage (mapLoop d v pa w u k) (missingIn d (dirs v k))
        (fun o m' => o.1 = true ∧ AddsTables d o.2 (dirs v k) ∧ Ready m') m := by
  induction k with
  | zero => exact fun d v pa m h => takes_pure ⟨rfl, AddsTables.refl d, h⟩
  | succ k ih =>
    intro d v pa m h
    unfold mapLoop
    rw [dirs_succ]
    refine (walkpgdir_takes d v h).bind_sub (missingIn_le d _ _) fun o m' ho => ?_
    obtain ⟨d', rfl, hadds, h'⟩ := ho
    rw [missingIn_sub hadds]
    dsimp only
    split_ifs with hmapped
    · exact wp_throw fun ho => by simp [NoPage] at ho
    · have hset : missingIn d' (dirs (v + 1) k) =
          missingIn (d'.setEntry v (some ⟨pa, w, u⟩)) (dirs (v + 1) k) :=
        missingIn_congr fun i _ => by rw [PageDir.setEntry_table]
      rw [hset]
      refine (ih _ (v + 1) (pa + 1) m' h').post fun o m'' ho => ⟨ho.1, ?_, ho.2.2⟩
      exact (hadds.setEntry v _).trans ho.2.1

/-- One page is mapped. -/
lemma mappages_page_takes (d : PageDir) (v pa : ℕ) (w u : Bool) (h : Ready m) :
    Takes free NoPage (mappages d (v * PGSIZE) PGSIZE pa w u) (missingIn d {PDX v})
      (fun o m' => o.1 = true ∧ AddsTables d o.2 {PDX v} ∧ Ready m') m := by
  have hcount : (v * PGSIZE + PGSIZE - 1) / PGSIZE - v * PGSIZE / PGSIZE + 1 = 1 := by
    simp only [PGSIZE]
    omega
  have hstart : v * PGSIZE / PGSIZE = v := Nat.mul_div_cancel v (by decide)
  unfold mappages
  rw [hcount, hstart, ← dirs_one]
  exact mapLoop_takes w u 1 d v _ m h

/-- The indices of the page tables for a line of `kmap`. -/
def Kmap.dirs (k : Kmap) : Finset ℕ :=
  Cow.dirs (k.virt / PGSIZE) ((k.virt + k.size - 1) / PGSIZE - k.virt / PGSIZE + 1)

lemma mapKernel_takes (ks : List Kmap) :
    ∀ (d : PageDir) (m : Mem Kmem), Ready m →
      Takes free NoPage (mapKernel d ks) (missingIn d (ks.foldr (fun k s => Kmap.dirs k ∪ s) ∅))
        (fun o m' => ∃ d', o = some d' ∧
          AddsTables d d' (ks.foldr (fun k s => Kmap.dirs k ∪ s) ∅) ∧ Ready m') m := by
  induction ks with
  | nil => exact fun d m h => takes_pure ⟨d, rfl, AddsTables.refl d, h⟩
  | cons k ks ih =>
    intro d m h
    rw [List.foldr_cons]
    unfold mapKernel mappages
    refine Takes.bind_sub (missingIn_le d _ _) (mapLoop_takes k.w false _ d _ _ m h)
      fun o m' ho => ?_
    obtain ⟨ok, d'⟩ := o
    obtain ⟨rfl, hadds, h'⟩ := ho
    change AddsTables d d' (Kmap.dirs k) at hadds
    have hrest := missingIn_sub hadds (ks.foldr (fun k s => Kmap.dirs k ∪ s) ∅)
    change Takes free NoPage (mapKernel d' ks) (missingIn d (Kmap.dirs k ∪ _) -
      missingIn d (Kmap.dirs k)) _ m'
    rw [hrest]
    refine (ih d' m' h').post fun o m'' ho => ?_
    obtain ⟨d'', rfl, hadds', h''⟩ := ho
    exact ⟨d'', rfl, hadds.trans hadds', h''⟩

/-- The indices of the page tables of the kernel: 56 for the physical memory, 8 for devices. -/
def kernelDirs : Finset ℕ := Ico 512 568 ∪ Ico 1016 1024

omit [Layout] in
lemma card_kernelDirs : kernelDirs.card = 64 := by
  have hdisj : Disjoint (Ico 512 568) (Ico 1016 1024) := by
    rw [disjoint_left]
    intro i hi hi'
    rw [mem_Ico] at hi hi'
    omega
  rw [kernelDirs, card_union_of_disjoint hdisj, Nat.card_Ico, Nat.card_Ico]

lemma kmap_dirs : kmap.foldr (fun k s => Kmap.dirs k ∪ s) ∅ = kernelDirs := by
  have h₁ := Layout.kernlink_lt
  have h₂ := Layout.data_le
  have h₃ := Layout.kend_lt
  simp only [KERNLINK, KERNBASE, EXTMEM, PHYSTOP] at h₁ h₂ h₃
  ext i
  simp only [kmap, List.foldr_cons, List.foldr_nil, mem_union, Kmap.dirs, kernelDirs,
    dirs_eq_Ico (Nat.succ_pos _), mem_Ico, notMem_empty, or_false]
  simp only [Kmap.size, PDX, PGSIZE, NPTENTRIES, KERNLINK, KERNBASE, EXTMEM, PHYSTOP, DEVSPACE]
  omega

omit [Layout] in
lemma missingIn_empty_dir (f : ℕ) (s : Finset ℕ) : missingIn (PageDir.empty f) s = s.card := by
  rw [missingIn, filter_true_of_mem fun i _ => PageDir.empty_table f i]

/-- **`setupkvm`** takes 65 pages. -/
lemma setupkvm_takes (h : Ready m) :
    Takes free NoPage setupkvm 65 (fun o m' => ∃ d, o = some d ∧
      (∀ i, d.table i = none ↔ i ∉ kernelDirs) ∧ Ready m') m := by
  unfold setupkvm
  refine Takes.bind_sub (by decide) (kalloc_takes h) fun o m₁ ho => ?_
  obtain ⟨⟨f, rfl⟩, h₁⟩ := ho
  have hmap := mapKernel_takes kmap (PageDir.empty f) m₁ h₁
  rw [kmap_dirs, missingIn_empty_dir, card_kernelDirs] at hmap
  refine hmap.post fun o m₂ ho => ?_
  obtain ⟨d, rfl, hadds, h₂⟩ := ho
  refine ⟨d, rfl, fun i => ?_, h₂⟩
  rw [hadds i]
  simp

/-! ### New pages -/

/-- **`allocuvm`** takes each new page and the missing page tables. -/
lemma allocLoop_takes (oldsz newsz : ℕ) (k : ℕ) :
    ∀ (d : PageDir) (v : ℕ) (m : Mem Kmem), Ready m →
      Takes free NoPage (allocLoop oldsz newsz d v k) (k + missingIn d (dirs v k))
        (fun o _ => o.1 = newsz) m := by
  induction k with
  | zero => exact fun d v m h => takes_pure rfl
  | succ k ih =>
    intro d v m h
    unfold allocLoop
    refine Takes.bind_sub (by omega) (kalloc_takes h) fun o m₁ ho => ?_
    obtain ⟨⟨f, rfl⟩, h₁⟩ := ho
    have hsub : k + 1 + missingIn d (dirs v (k + 1)) - 1 = missingIn d (dirs v (k + 1)) + k := by
      omega
    rw [hsub]
    refine takes_bind_free (wp_setPage ⟨rfl, ?_⟩)
    have hle := missingIn_le d {PDX v} (dirs (v + 1) k)
    rw [← dirs_succ] at hle
    refine Takes.bind_sub (by omega) (mappages_page_takes (m := m₁.put f zeroPage) d v _ true true h₁)
      fun o m₂ ho => ?_
    obtain ⟨ok, d'⟩ := o
    obtain ⟨rfl, hadds, h₂⟩ := ho
    dsimp only at hadds
    have hrest : missingIn d (dirs v (k + 1)) + k - missingIn d {PDX v} =
        k + missingIn d' (dirs (v + 1) k) := by
      rw [dirs_succ, missingIn_union hadds]
      omega
    rw [hrest]
    exact ih d' (v + 1) m₂ h₂

/-- The pages and page tables that `allocuvm` makes. -/
def growDemand (d : PageDir) (oldsz newsz : ℕ) : ℕ :=
  if KERNBASE ≤ newsz ∨ newsz < oldsz then 0
  else
    PGROUNDUP newsz - PGROUNDUP oldsz +
      missingIn d (dirs (PGROUNDUP oldsz) (PGROUNDUP newsz - PGROUNDUP oldsz))

lemma allocuvm_takes (d : PageDir) (oldsz newsz : ℕ) (h : Ready m) :
    Takes free NoPage (allocuvm d oldsz newsz) (growDemand d oldsz newsz) (fun _ _ => True) m := by
  unfold allocuvm growDemand
  split_ifs with h₁ h₂ h₃ h₄ h₅
  · exact takes_pure trivial
  · exact absurd (Or.inl h₁) h₂
  · exact takes_pure trivial
  · exact absurd (Or.inr h₃) h₄
  · exact (h₅.elim h₁ h₃).elim
  · exact (allocLoop_takes oldsz newsz _ d _ m h).post fun _ _ _ => trivial

/-! ### Sharing -/

omit [Layout] in
lemma incrRefc_free {f : ℕ} {Q : Unit → Mem Kmem → Prop} (hf : f < NPAGE)
    (hQ : ∀ m', m'.alloc.freelist = m.alloc.freelist → Q () m') :
    Wp (incrRefc f) (fun e => ¬NoPage e) Q m := by
  have hok : incrRefc f m = .ok ((), { m with
      alloc := { m.alloc with pgRef := Function.update m.alloc.pgRef f (m.alloc.pgRef f + 1) } }) := by
    rw [incrRefc, Kmem.incrRefc_of_lt hf]
    rfl
  rw [Wp, hok]
  exact hQ _ rfl

/-- The loop of `copyuvm` takes the missing page tables of the child. -/
lemma copyLoop_takes (k : ℕ) :
    ∀ (d c : PageDir) (v : ℕ) (m : Mem Kmem),
      (∀ q e, v ≤ q → q < v + k → d.entry q = some e → e.pfn < NPAGE) → Ready m →
      Takes free NoPage (copyLoop d c v k) (missingIn c (dirs v k))
        (fun r _ => ∃ c', r.1 = some c' ∧ AddsTables c c' (dirs v k)) m := by
  induction k with
  | zero => exact fun d c v m _ h => takes_pure ⟨c, rfl, AddsTables.refl c⟩
  | succ k ih =>
    intro d c v m hpfn h
    unfold copyLoop
    cases hp : d.pde (PDX v) with
    | none => exact wp_throw fun ho => by simp [NoPage] at ho
    | some t =>
      cases he : d.entry v with
      | none => exact wp_throw fun ho => by simp [NoPage] at ho
      | some e =>
        rw [dirs_succ]
        refine Takes.bind_sub (missingIn_le c _ _) (mappages_page_takes c v _ false e.u h)
          fun o m₁ ho => ?_
        obtain ⟨ok, c'⟩ := o
        obtain ⟨rfl, hadds, h₁⟩ := ho
        rw [missingIn_sub hadds]
        refine takes_bind_free (incrRefc_free (hpfn v e le_rfl (by omega) he) fun m₂ hm₂ => ?_)
        refine ⟨by rw [free, hm₂, free], (ih _ c' (v + 1) m₂ (fun q e' hq hq' he' => ?_) ?_).post
          fun r _ hr => ?_⟩
        · rw [PageDir.setEntry_entry d (d.table_isSome_of_entry he),
            Function.update_of_ne (by omega)] at he'
          exact hpfn q e' (by omega) (by omega) he'
        · intro f hf
          rw [hm₂] at hf
          exact h₁ f hf
        · obtain ⟨c'', hr, hadds'⟩ := hr
          exact ⟨c'', hr, hadds.trans hadds'⟩

end Xv6Projects.Cow
