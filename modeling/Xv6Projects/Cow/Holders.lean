import Mathlib.Tactic
import Xv6Projects.Library.Count
import Xv6Projects.Cow.Allocator

/-!
# The holders of a page directory

A page directory holds the page it occupies, the pages of its page tables, and, through its
user entries, the pages it maps.  The functions of `vm.c` are specified by how these holders
change; `h` stands for all holders, `hr` for those outside the page directory at hand.
-/

namespace Xv6Projects.Cow

open Library Vm Finset

/-- The number of user pages of an address space. -/
def NUPAGE : ℕ := KERNBASE / PGSIZE

/-- A holder of a page, if there is one. -/
def one : Option ℕ → ℕ → ℕ
  | none => 0
  | some f => Pi.single f 1

@[simp] lemma one_none : one none = 0 := rfl
@[simp] lemma one_some (f : ℕ) : one (some f) = Pi.single f 1 := rfl

/-- The holders that a page directory is itself: its own page and its page tables. -/
def dirHolds (d : PageDir) : ℕ → ℕ := Pi.single d.frame 1 + ∑ i ∈ range NPTENTRIES, one (d.table i)

/-- The holders that the user entries of a page directory are. -/
def userHolds (d : PageDir) : ℕ → ℕ := ∑ v ∈ range NUPAGE, one ((d.entry v).map Pte.pfn)

/-- All holders of a page directory. -/
def holds (d : PageDir) : ℕ → ℕ := dirHolds d + userHolds d

variable {d d' : PageDir}

lemma dirHolds_setEntry (v : ℕ) (e : Option Pte) : dirHolds (d.setEntry v e) = dirHolds d := by
  simp only [dirHolds, PageDir.setEntry_frame, PageDir.setEntry_table]

lemma dirHolds_addTable {i : ℕ} (hi : i < NPTENTRIES) (hnone : d.table i = none) (f : ℕ) :
    dirHolds (d.addTable i f) = dirHolds d + Pi.single f 1 := by
  have hsum := sum_add_of_eq_off (mem_range.mpr hi) (f := fun j => one ((d.addTable i f).table j))
    (g := fun j => one (d.table j)) fun j _ hj => by
      rw [PageDir.addTable_table, Function.update_of_ne hj]
  simp only [hnone, one_none, add_zero, PageDir.addTable_table, Function.update_self,
    one_some] at hsum
  rw [dirHolds, dirHolds, PageDir.addTable_frame, PageDir.addTable_table, hsum, add_assoc]

lemma userHolds_congr (h : d'.entry = d.entry) : userHolds d' = userHolds d := by
  rw [userHolds, userHolds, h]

/-- One user entry changes. -/
lemma userHolds_update {v : ℕ} (hv : v < NUPAGE) {e : Option Pte}
    (h : d'.entry = Function.update d.entry v e) :
    userHolds d' + one ((d.entry v).map Pte.pfn) = userHolds d + one (e.map Pte.pfn) := by
  have hsum := sum_add_of_eq_off (mem_range.mpr hv)
    (f := fun q => one ((d'.entry q).map Pte.pfn)) (g := fun q => one ((d.entry q).map Pte.pfn))
    fun q _ hq => by rw [h, Function.update_of_ne hq]
  have hself : d'.entry v = e := by rw [h, Function.update_self]
  rw [hself] at hsum
  exact hsum

/-- A mapped page is held. -/
lemma one_le_userHolds {v : ℕ} (hv : v < NUPAGE) {e : Pte} (he : d.entry v = some e) :
    1 ≤ userHolds d e.pfn := by
  have hle := single_le_sum (f := fun q => one ((d.entry q).map Pte.pfn) e.pfn)
    (fun q _ => Nat.zero_le _) (mem_range.mpr hv)
  have hone : one ((d.entry v).map Pte.pfn) e.pfn = 1 := by simp [he]
  rw [hone] at hle
  rw [userHolds, Finset.sum_apply]
  exact hle

lemma userHolds_eq_zero (h : ∀ q, q < NUPAGE → d.entry q = none) : userHolds d = 0 := by
  refine sum_eq_zero fun q hq => ?_
  rw [h q (mem_range.mp hq)]
  rfl

/-! ### Specifications -/

/-- No error of the allocator other than the end of the free pages. -/
def Clean (e : Err) : Prop := e.FromAllocator → NoPage e

lemma NoPage.clean {e : Err} (h : NoPage e) : Clean e := fun _ => h

/-- What is known about the entries and what is known about the holders. -/
lemma wp_clean {α : Type} {x : VmM Kmem α} {m : Mem Kmem} {Q Q' : α → Mem Kmem → Prop}
    (h : Wp x Err.FromAllocator Q m) (h' : Wp x Clean Q' m) :
    Wp x NoPage (fun a s => Q a s ∧ Q' a s) m :=
  (h.and h').mono (fun _ _ hQ => hQ) fun _ he => he.2 he.1

lemma allowsAllocator_fromAllocator : AllowsAllocator Err.FromAllocator := fun _ he => he

/-- The pages that had holders keep these holders and their contents. -/
structure Grows (h h' : ℕ → ℕ) (m m' : Mem Kmem) : Prop where
  count : ∀ g, 0 < h g → h' g = h g
  pages : ∀ g, 0 < h g → m'.pages g = m.pages g

lemma Grows.refl (h : ℕ → ℕ) (m : Mem Kmem) : Grows h h m m := ⟨fun _ _ => rfl, fun _ _ => rfl⟩

lemma Grows.trans {h₀ h₁ h₂ : ℕ → ℕ} {m₀ m₁ m₂ : Mem Kmem} (h : Grows h₀ h₁ m₀ m₁)
    (h' : Grows h₁ h₂ m₁ m₂) : Grows h₀ h₂ m₀ m₂ := by
  have hpos : ∀ g, 0 < h₀ g → 0 < h₁ g := fun g hg => by rw [h.count g hg]; exact hg
  exact ⟨fun g hg => (h'.count g (hpos g hg)).trans (h.count g hg),
    fun g hg => (h'.pages g (hpos g hg)).trans (h.pages g hg)⟩

/-- A page without a holder gets one. -/
lemma Grows.alloc {h : ℕ → ℕ} {m m' : Mem Kmem} {f : ℕ} (hf : h f = 0)
    (hpages : ∀ g, 0 < h g → m'.pages g = m.pages g) : Grows h (h + Pi.single f 1) m m' := by
  refine ⟨fun g hg => ?_, hpages⟩
  have hgf : g ≠ f := by
    rintro rfl
    omega
  simp [hgf]

variable [Layout] {R : Set ℕ} {m : Mem Kmem} {hr : ℕ → ℕ}

/-- The number of virtual pages. -/
def NVPAGE : ℕ := 2 ^ 20

omit [Layout] in
lemma PDX_lt {v : ℕ} (hv : v < NVPAGE) : PDX v < NPTENTRIES := by
  simp only [NVPAGE] at hv
  simp only [PDX, NPTENTRIES]
  omega

lemma walkpgdir_counts (hR : ∀ f ∈ R, Kmem.Usable f) {v : ℕ} (hv : v < NVPAGE)
    (hc : m.alloc.Counts R (hr + dirHolds d)) :
    Wp (walkpgdir d v true) NoPage (fun r m' => ∃ d', r = some d' ∧
      m'.alloc.Counts R (hr + dirHolds d') ∧
      Grows (hr + dirHolds d) (hr + dirHolds d') m m') m := by
  unfold walkpgdir
  cases hp : d.pde (PDX v) with
  | some t => exact wp_pure ⟨d, rfl, hc, Grows.refl _ _⟩
  | none =>
    refine wp_ite (fun h => absurd h (by simp)) fun _ => ?_
    refine (kalloc_counts hR hc).bind fun r m' hr' => ?_
    obtain ⟨f, rfl, -, hf, hc', hpages⟩ := hr'
    have hadd : hr + dirHolds (d.addTable (PDX v) f) = hr + dirHolds d + Pi.single f 1 := by
      rw [dirHolds_addTable (PDX_lt hv) (by simp [PageDir.table, hp]), add_assoc]
    refine wp_pure ⟨_, rfl, by rwa [hadd], ?_⟩
    rw [hadd]
    exact Grows.alloc hf fun g _ => by rw [hpages]

lemma mapLoop_counts (hR : ∀ f ∈ R, Kmem.Usable f) (w u : Bool) (n : ℕ) :
    ∀ (d : PageDir) (v pa : ℕ) (m : Mem Kmem), v + n ≤ NVPAGE →
      m.alloc.Counts R (hr + dirHolds d) →
      Wp (mapLoop d v pa w u n) Clean (fun r m' => r.1 = true ∧
        m'.alloc.Counts R (hr + dirHolds r.2) ∧
        Grows (hr + dirHolds d) (hr + dirHolds r.2) m m') m := by
  induction n with
  | zero => exact fun d v pa m _ hc => wp_pure ⟨rfl, hc, Grows.refl _ _⟩
  | succ n ih =>
    intro d v pa m hv hc
    unfold mapLoop
    refine ((walkpgdir_counts hR (by omega) hc).mono (fun _ _ h => h)
      fun _ => NoPage.clean).bind fun r m' hr' => ?_
    obtain ⟨d₁, rfl, hc₁, hg₁⟩ := hr'
    refine wp_ite (fun _ => wp_throw fun h => ?_) fun _ => ?_
    · exact absurd h (by simp [Err.FromAllocator])
    · have hset := dirHolds_setEntry (d := d₁) v (some ⟨pa, w, u⟩)
      refine (ih _ (v + 1) (pa + 1) m' (by omega) (by rwa [hset])).post fun r m'' hr' => ?_
      obtain ⟨hok, hc₂, hg₂⟩ := hr'
      rw [hset] at hg₂
      exact ⟨hok, hc₂, hg₁.trans hg₂⟩

/-- One page is mapped. -/
lemma mappages_page_counts (hR : ∀ f ∈ R, Kmem.Usable f) {v f : ℕ} (w u : Bool) (hv : v < NVPAGE)
    (hnone : d.entry v = none) (hc : m.alloc.Counts R (hr + dirHolds d)) :
    Wp (mappages d (v * PGSIZE) PGSIZE (f * PGSIZE) w u) NoPage (fun r m' => r.1 = true ∧
      r.2.entry = Function.update d.entry v (some ⟨f, w, u⟩) ∧
      m'.alloc.Counts R (hr + dirHolds r.2) ∧
      Grows (hr + dirHolds d) (hr + dirHolds r.2) m m') m := by
  have hentry := mappages_page_entry (m := m) (f := f) allowsAllocator_fromAllocator w u hnone
  have hcount : Wp (mappages d (v * PGSIZE) PGSIZE (f * PGSIZE) w u) Clean (fun r m' =>
      r.1 = true ∧ m'.alloc.Counts R (hr + dirHolds r.2) ∧
        Grows (hr + dirHolds d) (hr + dirHolds r.2) m m') m := by
    refine mapLoop_counts hR w u _ d _ _ m ?_ hc
    simp only [NVPAGE, PGSIZE] at hv ⊢
    omega
  refine (wp_clean hentry hcount).post fun r m' h => ?_
  exact ⟨h.2.1, h.1.1 h.2.1, h.2.2⟩

/-! ### Page directories come and go -/

omit [Layout] in
lemma dirHolds_empty (f : ℕ) : dirHolds (PageDir.empty f) = Pi.single f 1 := by
  rw [dirHolds, PageDir.empty_frame]
  have hzero : ∑ i ∈ range NPTENTRIES, one ((PageDir.empty f).table i) = 0 :=
    sum_eq_zero fun _ _ => rfl
  rw [hzero, add_zero]

lemma mapKernel_counts (hR : ∀ f ∈ R, Kmem.Usable f) (ks : List Kmap)
    (hks : ∀ k ∈ ks, k.virt / PGSIZE ≤ (k.virt + k.size - 1) / PGSIZE ∧
      (k.virt + k.size - 1) / PGSIZE < NVPAGE) :
    ∀ (d : PageDir) (m : Mem Kmem), m.alloc.Counts R (hr + dirHolds d) →
      Wp (mapKernel d ks) Clean (fun r m' => ∃ d', r = some d' ∧
        m'.alloc.Counts R (hr + dirHolds d') ∧
        Grows (hr + dirHolds d) (hr + dirHolds d') m m') m := by
  induction ks with
  | nil => exact fun d m hc => wp_pure ⟨d, rfl, hc, Grows.refl _ _⟩
  | cons k ks ih =>
    intro d m hc
    obtain ⟨hk₁, hk₂⟩ := hks k (by simp)
    unfold mapKernel mappages
    refine (mapLoop_counts hR k.w false _ d _ _ m (by omega) hc).bind fun r m' hr' => ?_
    obtain ⟨ok, d₁⟩ := r
    obtain ⟨rfl, hc₁, hg₁⟩ := hr'
    refine (ih (fun k' hk' => hks k' (by simp [hk'])) d₁ m' hc₁).post fun r m'' hr' => ?_
    obtain ⟨d', hd', hc', hg'⟩ := hr'
    exact ⟨d', hd', hc', hg₁.trans hg'⟩

lemma kmap_lt : ∀ k ∈ kmap, k.virt / PGSIZE ≤ (k.virt + k.size - 1) / PGSIZE ∧
    (k.virt + k.size - 1) / PGSIZE < NVPAGE := by
  intro k hk
  refine ⟨kmap_size k hk, ?_⟩
  have h1 := Layout.kernlink_lt
  have h2 := Layout.data_le
  have h3 := Layout.kend_lt
  simp only [KERNLINK, KERNBASE, EXTMEM, PHYSTOP] at h1 h2 h3
  simp only [kmap, List.mem_cons, List.not_mem_nil, or_false] at hk
  rcases hk with rfl | rfl | rfl | rfl <;>
    simp only [Kmap.size, PGSIZE, KERNLINK, KERNBASE, EXTMEM, PHYSTOP, DEVSPACE, NVPAGE] <;> omega

/-- **`setupkvm`** returns a page directory that maps the kernel and no user page. -/
lemma setupkvm_counts (hR : ∀ f ∈ R, Kmem.Usable f) (hc : m.alloc.Counts R hr) :
    Wp setupkvm NoPage (fun r m' => ∃ d, r = some d ∧ d.entry = kernelEntry kmap ∧
      m'.alloc.Counts R (hr + dirHolds d) ∧ Grows hr (hr + dirHolds d) m m') m := by
  have hcount : Wp setupkvm Clean (fun r m' => ∃ d, r = some d ∧
      m'.alloc.Counts R (hr + dirHolds d) ∧ Grows hr (hr + dirHolds d) m m') m := by
    unfold setupkvm
    refine ((kalloc_counts hR hc).mono (fun _ _ h => h) fun _ => NoPage.clean).bind
      fun r m' hr' => ?_
    obtain ⟨f, rfl, -, hf, hc', hpages⟩ := hr'
    have hg : Grows hr (hr + Pi.single f 1) m m' := Grows.alloc hf fun g _ => by rw [hpages]
    rw [← dirHolds_empty] at hc' hg
    refine (mapKernel_counts hR kmap kmap_lt _ m' hc').post fun r m'' hr' => ?_
    obtain ⟨d, hd, hc'', hg'⟩ := hr'
    exact ⟨d, hd, hc'', hg.trans hg'⟩
  refine (wp_clean (setupkvm_entry allowsAllocator_fromAllocator) hcount).post fun r m' h => ?_
  obtain ⟨hentry, d, hd, hrest⟩ := h
  exact ⟨d, hd, hentry d hd, hrest⟩

/-- Holders are taken away; the pages that keep one keep their contents. -/
structure Shrinks (h h' : ℕ → ℕ) (m m' : Mem Kmem) : Prop where
  count : ∀ g, h' g ≤ h g
  pages : ∀ g, 0 < h' g → m'.pages g = m.pages g

omit [Layout] in
lemma Shrinks.refl (h : ℕ → ℕ) (m : Mem Kmem) : Shrinks h h m m :=
  ⟨fun _ => le_rfl, fun _ _ => rfl⟩

omit [Layout] in
lemma Shrinks.trans {h₀ h₁ h₂ : ℕ → ℕ} {m₀ m₁ m₂ : Mem Kmem} (h : Shrinks h₀ h₁ m₀ m₁)
    (h' : Shrinks h₁ h₂ m₁ m₂) : Shrinks h₀ h₂ m₀ m₂ :=
  ⟨fun g => (h'.count g).trans (h.count g),
    fun g hg => (h'.pages g hg).trans (h.pages g (hg.trans_le (h'.count g)))⟩

/-- `kfree` of a page with a holder `h` tells apart. -/
lemma kfree_shrinks (hR : ∀ f ∈ R, Kmem.Usable f) {f : ℕ}
    (hc : m.alloc.Counts R (hr + Pi.single f 1)) :
    Wp (kfree f) NoPage (fun _ m' => m'.alloc.Counts R hr ∧
      Shrinks (hr + Pi.single f 1) hr m m') m :=
  (kfree_counts hR hc).post fun _ _ h => ⟨h.1, fun _ => Nat.le_add_right _ _, h.2⟩

lemma deallocLoop_counts (hR : ∀ f ∈ R, Kmem.Usable f) (d : PageDir) (v last : ℕ)
    (hlast : last ≤ NUPAGE) :
    ∀ m : Mem Kmem, m.alloc.Counts R (hr + holds d) →
      Wp (deallocLoop d v last) Clean (fun d' m' => m'.alloc.Counts R (hr + holds d') ∧
        Shrinks (hr + holds d) (hr + holds d') m m' ∧ dirHolds d' = dirHolds d ∧
        d'.frame = d.frame ∧ d'.table = d.table) m := by
  induction d, v using deallocLoop.induct last with
  | case1 d v hlt hpde ih =>
    intro m hc
    rw [deallocLoop, if_pos hlt]
    simp only [hpde]
    exact ih m hc
  | case2 d v hlt t hpde hnone ih =>
    intro m hc
    rw [deallocLoop, if_pos hlt]
    simp only [hpde, hnone]
    exact ih m hc
  | case3 d v hlt t hpde e hsome hzero =>
    intro m hc
    -- page `0` belongs to the kernel and is never held
    have hheld : e.pfn ∈ R := by
      refine hc.held _ ?_
      have hle := one_le_userHolds (hlt.trans_le hlast) hsome
      simp only [holds, Pi.add_apply]
      omega
    exact absurd hzero (hR _ hheld).ne_zero
  | case4 d v hlt t hpde e hsome hpfn ih =>
    intro m hc
    rw [deallocLoop, if_pos hlt]
    simp only [hpde, hsome]
    rw [if_neg hpfn]
    have hset := PageDir.setEntry_entry d (d.table_isSome_of_entry hsome) none
    have huser : userHolds (d.setEntry v none) + Pi.single e.pfn 1 = userHolds d := by
      have hupd := userHolds_update (hlt.trans_le hlast) hset
      rwa [hsome, Option.map_none, one_none, add_zero] at hupd
    have hsplit : hr + holds d = hr + holds (d.setEntry v none) + Pi.single e.pfn 1 := by
      rw [holds, holds, dirHolds_setEntry, ← huser, add_assoc, add_assoc]
    rw [hsplit] at hc ⊢
    refine ((kfree_shrinks hR hc).mono (fun _ _ h => h) fun _ => NoPage.clean).bind
      fun _ m' hm' => ?_
    refine (ih m' hm'.1).post fun d' m'' hm'' => ?_
    obtain ⟨hc', hs, hdir, hframe, htable⟩ := hm''
    rw [dirHolds_setEntry] at hdir
    rw [PageDir.setEntry_frame] at hframe
    rw [PageDir.setEntry_table] at htable
    exact ⟨hc', hm'.2.trans hs, hdir, hframe, htable⟩
  | case5 d v hle =>
    intro m hc
    rw [deallocLoop, if_neg hle]
    exact wp_pure ⟨hc, Shrinks.refl _ _, rfl, rfl, rfl⟩

omit [Layout] in
lemma PGROUNDUP_le {a : ℕ} (ha : a ≤ KERNBASE) : PGROUNDUP a ≤ NUPAGE := by
  simp only [KERNBASE] at ha
  simp only [PGROUNDUP, NUPAGE, KERNBASE, PGSIZE]
  omega

/-- **`deallocuvm`** takes the pages between the sizes away. -/
lemma deallocuvm_counts (hR : ∀ f ∈ R, Kmem.Usable f) {oldsz newsz : ℕ} (hle : oldsz ≤ KERNBASE)
    (hc : m.alloc.Counts R (hr + holds d)) :
    Wp (deallocuvm d oldsz newsz) NoPage (fun r m' =>
      r.1 = (if oldsz ≤ newsz then oldsz else newsz) ∧
      Cleared d r.2 (PGROUNDUP newsz) (PGROUNDUP oldsz) ∧
      m'.alloc.Counts R (hr + holds r.2) ∧ Shrinks (hr + holds d) (hr + holds r.2) m m' ∧
      r.2.frame = d.frame ∧ r.2.table = d.table) m := by
  have hcount : Wp (deallocuvm d oldsz newsz) Clean (fun r m' =>
      m'.alloc.Counts R (hr + holds r.2) ∧ Shrinks (hr + holds d) (hr + holds r.2) m m' ∧
      r.2.frame = d.frame ∧ r.2.table = d.table) m := by
    unfold deallocuvm
    refine wp_ite (fun _ => wp_pure ⟨hc, Shrinks.refl _ _, rfl, rfl⟩) fun _ => ?_
    refine (deallocLoop_counts hR d _ _ (PGROUNDUP_le hle) m hc).bind fun d' m' h => ?_
    exact wp_pure ⟨h.1, h.2.1, h.2.2.2⟩
  refine (wp_clean (deallocuvm_entry allowsAllocator_fromAllocator oldsz newsz) hcount).post
    fun r m' h => ?_
  exact ⟨h.1.1, h.1.2, h.2⟩

lemma freeTables_counts (hR : ∀ f ∈ R, Kmem.Usable f) (d : PageDir) (is : List ℕ) :
    ∀ (m : Mem Kmem), m.alloc.Counts R (hr + (is.map fun i => one (d.table i)).sum) →
      Wp (freeTables d is) NoPage (fun _ m' => m'.alloc.Counts R hr ∧
        Shrinks (hr + (is.map fun i => one (d.table i)).sum) hr m m') m := by
  induction is with
  | nil =>
    intro m hc
    simp only [List.map_nil, List.sum_nil, add_zero] at hc ⊢
    exact wp_pure ⟨hc, Shrinks.refl _ _⟩
  | cons i is ih =>
    intro m hc
    unfold freeTables
    simp only [List.map_cons, List.sum_cons] at hc ⊢
    cases hp : d.pde i with
    | none =>
      have htable : d.table i = none := by simp [PageDir.table, hp]
      rw [htable, one_none, zero_add] at hc ⊢
      exact wp_bind (wp_pure (ih m hc))
    | some t =>
      have htable : d.table i = some t.frame := by simp [PageDir.table, hp]
      have hsplit : hr + (one (d.table i) + (is.map fun i => one (d.table i)).sum) =
          hr + (is.map fun i => one (d.table i)).sum + Pi.single t.frame 1 := by
        rw [htable, one_some, add_comm (Pi.single t.frame 1), add_assoc]
      rw [hsplit] at hc ⊢
      refine (kfree_shrinks hR hc).bind fun _ m' hm' => ?_
      exact (ih m' hm'.1).post fun _ _ h => ⟨h.1, hm'.2.trans h.2⟩

omit [Layout] in
lemma dirHolds_eq_list (d : PageDir) : dirHolds d =
    Pi.single d.frame 1 + ((List.range NPTENTRIES).map fun i => one (d.table i)).sum := by
  have hlist : ∀ n, ((List.range n).map fun i => one (d.table i)).sum =
      ∑ i ∈ range n, one (d.table i) := by
    intro n
    induction n with
    | zero => rfl
    | succ n ih => rw [List.range_succ, List.map_append, List.sum_append, ih, sum_range_succ,
        List.map_singleton, List.sum_singleton]
  rw [dirHolds, hlist]

/-- **`freevm`** gives back everything a page directory holds. -/
lemma freevm_counts (hR : ∀ f ∈ R, Kmem.Usable f) (hc : m.alloc.Counts R (hr + holds d)) :
    Wp (freevm d) NoPage (fun _ m' => m'.alloc.Counts R hr ∧
      Shrinks (hr + holds d) hr m m') m := by
  have hdir := dirHolds_eq_list
  unfold freevm
  generalize List.range NPTENTRIES = is at hdir ⊢
  refine (deallocuvm_counts hR le_rfl hc).bind fun r m' h => ?_
  obtain ⟨-, hclear, hc', hs, hframe, htable⟩ := h
  have huser : userHolds r.2 = 0 := by
    refine userHolds_eq_zero fun q hq => ?_
    have hq' := hclear q
    have hlast : PGROUNDUP KERNBASE = NUPAGE := by decide
    rwa [hlast, if_pos ⟨Nat.zero_le _, hq⟩] at hq'
  have hsplit : hr + holds r.2 =
      hr + Pi.single d.frame 1 + (is.map fun i => one (r.2.table i)).sum := by
    rw [holds, huser, add_zero, hdir, hframe, add_assoc]
  rw [hsplit] at hc' hs
  refine (freeTables_counts hR r.2 is m' hc').bind fun _ m'' h' => ?_
  refine (kfree_shrinks hR h'.1).post fun _ m₃ h'' => ?_
  exact ⟨h''.1, (hs.trans h'.2).trans h''.2⟩

/-! ### Growing an address space -/

/-- The pages from `v` up to `last` are mapped to zeroed pages of their own. -/
def GrownFresh (h' : ℕ → ℕ) (d d' : PageDir) (v last : ℕ) (m' : Mem Kmem) : Prop :=
  ∀ q, if v ≤ q ∧ q < last then
      ∃ f, d'.entry q = some ⟨f, true, true⟩ ∧ h' f = 1 ∧ m'.pages f = zeroPage
    else d'.entry q = d.entry q

lemma allocLoop_counts (hR : ∀ f ∈ R, Kmem.Usable f) (oldsz newsz : ℕ) (n : ℕ) :
    ∀ (d : PageDir) (v : ℕ) (m : Mem Kmem), v + n ≤ NUPAGE →
      (∀ q, v ≤ q → q < v + n → d.entry q = none) → m.alloc.Counts R (hr + holds d) →
      Wp (allocLoop oldsz newsz d v n) NoPage (fun r m' => r.1 = newsz ∧
        m'.alloc.Counts R (hr + holds r.2) ∧ Grows (hr + holds d) (hr + holds r.2) m m' ∧
        GrownFresh (hr + holds r.2) d r.2 v (v + n) m') m := by
  induction n with
  | zero =>
    intro d v m _ _ hc
    refine wp_pure ⟨rfl, hc, Grows.refl _ _, fun q => ?_⟩
    rw [if_neg (by omega)]
  | succ n ih =>
    intro d v m hv hnone hc
    unfold allocLoop
    refine (kalloc_counts hR hc).bind fun r m₁ hr₁ => ?_
    obtain ⟨f, rfl, -, hf, hc₁, hpages⟩ := hr₁
    refine wp_bind (wp_setPage ?_)
    have hvlt : v < NUPAGE := by omega
    have hv' : v < NVPAGE := hvlt.trans (by decide)
    have hc₁' : m₁.alloc.Counts R (hr + userHolds d + Pi.single f 1 + dirHolds d) := by
      have heq : hr + userHolds d + Pi.single f 1 + dirHolds d =
          hr + holds d + Pi.single f 1 := by
        rw [holds]
        abel
      rwa [heq]
    refine (mappages_page_counts (m := m₁.put f zeroPage)
      hR true true hv' (hnone v le_rfl (by omega)) hc₁').bind fun r m₂ hr₂ => ?_
    obtain ⟨ok, d₂⟩ := r
    obtain ⟨rfl, hentry, hc₂, hg₂⟩ := hr₂
    -- the new page is now held by the entry of `v`
    have huser : userHolds d₂ = userHolds d + Pi.single f 1 := by
      have hupd := userHolds_update hvlt hentry
      rwa [hnone v le_rfl (by omega), Option.map_none, one_none, add_zero] at hupd
    have hsum : hr + userHolds d + Pi.single f 1 + dirHolds d₂ = hr + holds d₂ := by
      rw [holds, huser]
      abel
    have hstart : hr + userHolds d + Pi.single f 1 + dirHolds d =
        hr + holds d + Pi.single f 1 := by
      rw [holds]
      abel
    rw [hsum] at hc₂
    rw [hsum, hstart] at hg₂
    have hg₁ : Grows (hr + holds d) (hr + holds d + Pi.single f 1) m
        (m₁.put f zeroPage) := by
      refine Grows.alloc hf fun g hg => ?_
      have hgf : g ≠ f := by
        rintro rfl
        omega
      rw [Mem.put_pages, Function.update_of_ne hgf, hpages]
    refine (ih d₂ (v + 1) m₂ (by omega) (fun q hq hq' => ?_) hc₂).post fun r m₃ hr₃ => ?_
    · rw [hentry, Function.update_of_ne (by omega)]
      exact hnone q (by omega) (by omega)
    · obtain ⟨hsz, hc₃, hg₃, hfresh⟩ := hr₃
      refine ⟨hsz, hc₃, (hg₁.trans hg₂).trans hg₃, fun q => ?_⟩
      have hq₃ := hfresh q
      by_cases hq : q = v
      · subst hq
        have hone : (hr + holds d + Pi.single f 1 : ℕ → ℕ) f = 1 := by
          rw [Pi.add_apply, hf, Pi.single_eq_same]
        have hone₂ : (hr + holds d₂) f = 1 := by
          rw [hg₂.count f (by omega), hone]
        rw [if_neg (by omega)] at hq₃
        rw [if_pos (by omega), hq₃, hentry, Function.update_self]
        refine ⟨f, rfl, ?_, ?_⟩
        · rw [hg₃.count f (by omega), hone₂]
        · rw [hg₃.pages f (by omega), hg₂.pages f (by omega), Mem.put_pages,
            Function.update_self]
      · by_cases hin : v + 1 ≤ q ∧ q < v + 1 + n
        · rw [if_pos hin] at hq₃
          rwa [if_pos (by omega)]
        · rw [if_neg hin] at hq₃
          rw [if_neg (by omega), hq₃, hentry, Function.update_of_ne hq]

/-- **`allocuvm`** adds zeroed pages that nobody else holds. -/
lemma allocuvm_counts (hR : ∀ f ∈ R, Kmem.Usable f) {oldsz newsz : ℕ}
    (hfree : ∀ q, PGROUNDUP oldsz ≤ q → q < NUPAGE → d.entry q = none)
    (hc : m.alloc.Counts R (hr + holds d)) :
    Wp (allocuvm d oldsz newsz) NoPage (fun r m' =>
      m'.alloc.Counts R (hr + holds r.2) ∧ Grows (hr + holds d) (hr + holds r.2) m m' ∧
      ((r.1 = newsz ∧ oldsz ≤ newsz ∧ newsz < KERNBASE ∧
          GrownFresh (hr + holds r.2) d r.2 (PGROUNDUP oldsz) (PGROUNDUP newsz) m') ∨
        (r.1 = 0 ∧ KERNBASE ≤ newsz ∧ r.2 = d) ∨
        (r.1 = oldsz ∧ newsz < oldsz ∧ newsz < KERNBASE ∧ r.2 = d))) m := by
  unfold allocuvm
  refine wp_ite (fun h => ?_) fun hk => ?_
  · exact wp_pure ⟨hc, Grows.refl _ _, Or.inr (Or.inl ⟨rfl, h, rfl⟩)⟩
  refine wp_ite (fun h => ?_) fun hlt => ?_
  · exact wp_pure ⟨hc, Grows.refl _ _, Or.inr (Or.inr ⟨rfl, h, not_le.mp hk, rfl⟩)⟩
  have hle := PGROUNDUP_mono (not_lt.mp hlt)
  have hup := PGROUNDUP_le (not_le.mp hk).le
  refine (allocLoop_counts hR oldsz newsz _ d _ m (by omega)
    (fun q hq hq' => hfree q hq (by omega)) hc).post fun r m' h => ?_
  obtain ⟨hsz, hc', hg, hfresh⟩ := h
  rw [Nat.add_sub_cancel' hle] at hfresh
  exact ⟨hc', hg, Or.inl ⟨hsz, not_lt.mp hlt, not_le.mp hk, hfresh⟩⟩

end Xv6Projects.Cow
