import Xv6Projects.Cow.Demand

/-!
# Running out of pages

When `kalloc` finds no free page it takes the null pointer for a page and counts a user of it, at
a place outside the table of counters.  So `fork` and a growing `sbrk` fail cleanly only when they
do not run out of pages; and this depends on how many pages they take.
-/

namespace Xv6Projects.Cow

open Library Vm Finset

/-- The number of pages from the first on that page directory `d` maps, at most `n`. -/
def mappedPrefix (d : PageDir) : ℕ → ℕ
  | 0 => 0
  | n + 1 => if mappedPrefix d n = n ∧ (d.entry n).isSome then n + 1 else mappedPrefix d n

/-- The number of page tables for the first `n` pages. -/
def tablesFor (n : ℕ) : ℕ := (n + NPTENTRIES - 1) / NPTENTRIES

/-- The pages that `fork` by process `c` takes: one for the kernel stack, one for the page
directory, 64 for the page tables of the kernel, and one for each page table of the pages that the
process has up to the first that is missing. -/
def forkDemand (k : Kernel) (c : Slot) : ℕ :=
  match firstUnused k, (k.proc c).pgdir with
  | none, _ => 0
  | some _, none => 1
  | some _, some d => 66 + tablesFor (mappedPrefix d (PGROUNDUP (k.proc c).sz))

/-- The pages that `sbrk` by `n` takes. -/
def sbrkDemand (k : Kernel) (c : Slot) (n : ℤ) : ℕ :=
  match (k.proc c).pgdir with
  | none => 0
  | some d =>
      if 0 < n then growDemand d (k.proc c).sz ((((k.proc c).sz : ℤ) + n) % 2 ^ 32).toNat else 0

/-! ### The mapped pages in front -/

variable {d : PageDir} {n v : ℕ}

lemma mappedPrefix_le (d : PageDir) (n : ℕ) : mappedPrefix d n ≤ n := by
  induction n with
  | zero => exact le_rfl
  | succ n ih =>
    rw [mappedPrefix]
    split_ifs
    · exact le_rfl
    · exact ih.trans (Nat.le_succ n)

lemma mappedPrefix_mapped (d : PageDir) (n : ℕ) : ∀ q, q < mappedPrefix d n → (d.entry q).isSome := by
  induction n with
  | zero => exact fun q hq => absurd hq (Nat.not_lt_zero q)
  | succ n ih =>
    intro q hq
    rw [mappedPrefix] at hq
    split_ifs at hq with h
    · rcases Nat.lt_succ_iff_lt_or_eq.mp hq with hlt | rfl
      · exact ih q (by rw [h.1]; exact hlt)
      · exact h.2
    · exact ih q hq

lemma mappedPrefix_hole (d : PageDir) (n : ℕ) (h : mappedPrefix d n < n) :
    d.entry (mappedPrefix d n) = none := by
  induction n with
  | zero => exact absurd h (Nat.not_lt_zero _)
  | succ n ih =>
    rw [mappedPrefix] at h ⊢
    split_ifs at h ⊢ with hfull
    · exact absurd h (lt_irrefl _)
    · rcases lt_or_eq_of_le (mappedPrefix_le d n) with hlt | heq
      · exact ih hlt
      · rw [heq]
        rw [not_and_or, Option.not_isSome_iff_eq_none] at hfull
        exact hfull.resolve_left (not_not.mpr heq)

/-- A child that has the page tables of the kernel misses those of all user pages. -/
lemma missingIn_child {c : PageDir} (hc : ∀ i, c.table i = none ↔ i ∉ kernelDirs) (hn : n ≤ NUPAGE) :
    missingIn c (dirs 0 n) = tablesFor n := by
  have hbound : n ≤ 524288 := hn
  rcases Nat.eq_zero_or_pos n with rfl | hpos
  · rfl
  · have hnone : ∀ i ∈ dirs 0 n, c.table i = none := by
      intro i hi
      rw [dirs_eq_Ico hpos, mem_Ico] at hi
      rw [hc i, kernelDirs, mem_union, mem_Ico, mem_Ico]
      simp only [PDX, NPTENTRIES] at hi
      omega
    rw [missingIn, filter_true_of_mem hnone, dirs_eq_Ico hpos, Nat.card_Ico]
    simp only [PDX, NPTENTRIES, tablesFor]
    omega

/-! ### copyuvm -/

variable [Layout] {R : Set ℕ} {m : Mem Kmem} {hr : ℕ → ℕ}

/-- The loop of `copyuvm` in two parts. -/
lemma copyLoop_add (a b : ℕ) : ∀ (d c : PageDir) (v : ℕ), copyLoop d c v (a + b) =
    copyLoop d c v a >>= fun r => match r.1 with
      | none => pure (none, r.2)
      | some c => copyLoop r.2 c (v + a) b := by
  induction a with
  | zero =>
    intro d c v
    rw [Nat.zero_add]
    rfl
  | succ a ih =>
    intro d c v
    rw [Nat.succ_add, copyLoop, copyLoop]
    cases d.pde (PDX v) with
    | none => rfl
    | some t =>
      cases d.entry v with
      | none => rfl
      | some e =>
        dsimp only
        rw [bind_assoc]
        congr 1
        funext r
        obtain ⟨ok, c'⟩ := r
        cases ok with
        | false =>
          dsimp only
          rw [bind_assoc]
          rfl
        | true =>
          dsimp only
          rw [bind_assoc]
          congr 1
          funext _
          rw [ih]
          congr 1
          funext r
          rw [show v + 1 + a = v + (a + 1) by omega]

lemma Kmem.Counts.ready (hR : ∀ f ∈ R, Kmem.Usable f) {h : ℕ → ℕ} (hc : m.alloc.Counts R h) :
    Ready m :=
  fun f hf => (hR f ((hc.free f).mp hf).1).2

/-- **`copyuvm`** runs out of pages exactly when there are fewer than it takes, up to the first
page that is missing. -/
lemma copyuvm_exactly (hR : ∀ f ∈ R, Kmem.Usable f) {sz : ℕ} (hsz : sz ≤ KERNBASE)
    (hc : m.alloc.Counts R (hr + holds d)) :
    Exactly free NoPage (copyuvm d sz) (65 + tablesFor (mappedPrefix d (PGROUNDUP sz)))
      (fun r _ => ∃ c, r.1 = some c) m := by
  unfold copyuvm
  have hlast := PGROUNDUP_le hsz
  have hle := mappedPrefix_le d (PGROUNDUP sz)
  have hmapped := mappedPrefix_mapped d (PGROUNDUP sz)
  have hhole := mappedPrefix_hole d (PGROUNDUP sz)
  generalize mappedPrefix d (PGROUNDUP sz) = a at hle hmapped hhole
  generalize PGROUNDUP sz = last at hlast hle hhole ⊢
  refine (setupkvm_takes (hc.ready hR)).bind_exactly (setupkvm_counts hR hc) fun o m₁ ho ho' => ?_
  obtain ⟨c, rfl, htable, hready⟩ := ho
  obtain ⟨c', hc', hentry, hc₁, -⟩ := ho'
  obtain rfl := Option.some.inj hc'
  have huser : userHolds c = 0 := userHolds_eq_zero fun q hq => by
    rw [hentry]
    exact kernelEntry_user hq
  have hholds : holds c = dirHolds c := by rw [holds, huser, add_zero]
  rw [← hholds] at hc₁
  have hpfn : ∀ q e, 0 ≤ q → q < 0 + a → d.entry q = some e → e.pfn < NPAGE := by
    intro q e _ hq he
    have hone := one_le_userHolds (show q < NUPAGE by omega) he
    refine (hR _ (hc₁.held e.pfn ?_)).2
    simp only [Pi.add_apply, holds.eq_1 d]
    omega
  -- the pages up to the first missing one are copied, or no page is left
  have htakes := copyLoop_takes a d c 0 m₁ hpfn hready
  rw [missingIn_child htable (hle.trans hlast)] at htakes
  have hcopy := copyLoop_counts (E := NoPage) hR a d c 0 m₁ (by omega)
    (fun q _ hq => by
      rw [hentry]
      exact kernelEntry_user (lt_of_lt_of_le (by omega) (hle.trans hlast)))
    ⟨fun _ h => h, fun hmiss => by
      obtain ⟨q, -, hq, hnone⟩ := hmiss
      have hsome := hmapped q (by omega)
      rw [hnone] at hsome
      exact absurd hsome (by simp)⟩ hc₁
  rcases hle.eq_or_lt with rfl | hlt
  · refine (htakes.exactly hcopy).post fun r m₂ hr => ?_
    obtain ⟨-, c₁, hr, -⟩ := hr
    exact ⟨c₁, hr⟩
  · obtain ⟨b, rfl⟩ := Nat.exists_eq_add_of_lt hlt
    dsimp only
    rw [Nat.add_assoc, copyLoop_add, ← Nat.add_zero (tablesFor a)]
    refine htakes.bind_exactly hcopy fun r m₂ _ hr => ?_
    obtain ⟨o, d'⟩ := r
    obtain ⟨c₁, rfl, hcopied, -⟩ := hr
    have hnone : d'.entry a = none := by
      have hparent := hcopied.parent a
      rw [if_neg (by omega), hhole hlt] at hparent
      exact hparent
    have hpanic : ∀ msg, Exactly free NoPage (panic msg : VmM Kmem (Option PageDir × PageDir)) 0
        (fun r _ => ∃ c, r.1 = some c) m₂ := by
      intro msg
      refine wp_throw (iff_of_false ?_ (Nat.not_lt_zero _))
      simp [NoPage]
    dsimp only
    rw [Nat.zero_add, copyLoop]
    cases hp : d'.pde (PDX a) with
    | none => exact hpanic _
    | some t =>
      rw [hnone]
      exact hpanic _

/-! ### fork and sbrk -/

variable {k : Kernel} {c : Slot}

lemma Inv.ready (hR : ∀ f ∈ R, Kmem.Usable f) (h : Inv R k) : Ready k.mem := h.counts.ready hR

/-- The number of free pages of the kernel. -/
def Kernel.free (k : Kernel) : ℕ := Cow.free k.mem

lemma allocproc_takes (h : Ready k.mem) :
    Takes Kernel.free NoPage allocproc (if (firstUnused k).isSome then 1 else 0)
      (fun _ _ => True) k := by
  unfold allocproc firstUnused
  refine takes_bind_free (wp_get ⟨rfl, ?_⟩)
  cases slots.find? fun i => decide ((k.proc i).state = .unused) with
  | none => exact takes_pure trivial
  | some i =>
    refine takes_bind_free (wp_updProc ⟨rfl, takes_bind_free (wp_modify ⟨rfl, ?_⟩)⟩)
    have hkalloc : ∀ {k' : Kernel}, k'.mem = k.mem → Takes Kernel.free NoPage (vm kalloc) 1
        (fun o _ => ∃ f, o = some f) k' := fun hk' => by
      refine takes_zoom (fun _ _ => rfl) ?_
      rw [hk']
      exact (kalloc_takes h).post fun _ _ ho => ho.1
    rw [if_pos (show (some i).isSome = true from rfl)]
    refine Takes.bind_sub le_rfl (hkalloc rfl) fun o k' ho => ?_
    obtain ⟨f, rfl⟩ := ho
    exact takes_bind_free (wp_updProc ⟨rfl, takes_pure trivial⟩)

/-- **`fork`** runs out of pages exactly when there are fewer than it takes. -/
lemma fork_exactly (hR : ∀ f ∈ R, Kmem.Usable f) (h : Inv R k) (hc : (k.proc c).state = .runnable) :
    Exactly Kernel.free NoPage (fork c) (forkDemand k c) (fun _ _ => True) k := by
  obtain ⟨fc, d, hfc, hd, hok⟩ := h.live (c := c) (by rw [hc]; simp)
  have hholds := holders_of_live hfc hd
  have htakes := allocproc_takes (h.ready hR)
  have hspec := allocproc_spec hR h
  unfold forkDemand fork
  rw [hd]
  cases hfirst : firstUnused k with
  | none =>
    rw [hfirst] at htakes
    change Exactly Kernel.free NoPage _ (0 + 0) _ k
    refine htakes.bind_exactly hspec fun r k₁ _ hr => ?_
    rcases hr with ⟨rfl, -, -⟩ | ⟨i, f, m', -, hsome, -⟩
    · exact exactly_pure trivial
    · exact absurd (hfirst.symm.trans hsome) (by simp)
  | some i =>
    rw [hfirst] at htakes
    have hsum : 66 + tablesFor (mappedPrefix d (PGROUNDUP (k.proc c).sz)) =
        1 + (65 + tablesFor (mappedPrefix d (PGROUNDUP (k.proc c).sz))) := by omega
    dsimp only
    rw [hsum]
    refine htakes.bind_exactly hspec fun r k₁ _ hr => ?_
    rcases hr with ⟨-, hnone, -⟩ | ⟨i', f, m', rfl, hi', rfl, -, hc₁, -⟩
    · exact absurd (hfirst.symm.trans hnone) (by simp)
    have hunused : (k.proc i').state = .unused := slots_find hi'
    have hic := ne_of_unused hc hunused
    have hproc : (k.allocated i' f m').proc c = k.proc c := Function.update_of_ne hic.symm _ _
    have hd₁ : ((k.allocated i' f m').proc c).pgdir = some d := by rw [hproc, hd]
    refine exactly_bind_free (wp_pgdirOf hd₁ ⟨rfl, exactly_bind_free (wp_get ⟨rfl, ?_⟩)⟩)
    rw [hproc]
    have hsplit : k.holders + Pi.single f 1 =
        k.others c + Pi.single fc 1 + Pi.single f 1 + holds d := by
      rw [hholds]
      abel
    rw [hsplit] at hc₁
    have hcopy : Exactly Kernel.free NoPage (vm (copyuvm d (k.proc c).sz))
        (65 + tablesFor (mappedPrefix d (PGROUNDUP (k.proc c).sz))) (fun r _ => ∃ c, r.1 = some c)
        (k.allocated i' f m') :=
      exactly_zoom (copyuvm_exactly hR hok.le hc₁)
    refine Exactly.bind_free hcopy fun r k₂ hr => ?_
    obtain ⟨o, d'⟩ := r
    obtain ⟨child, rfl⟩ := hr
    refine wp_bind (wp_updProc ?_)
    exact wp_bind (wp_updProc (wp_bind (wp_get (wp_pure trivial))))

/-- **`sbrk`** runs out of pages exactly when there are fewer than it takes. -/
lemma growproc_exactly (hR : ∀ f ∈ R, Kmem.Usable f) (h : Inv R k)
    (hc : (k.proc c).state = .runnable) {n : ℤ} (hlo : -2 ^ 31 ≤ n) (hhi : n < 2 ^ 31)
    (hpos : 0 < n) :
    Exactly Kernel.free NoPage (growproc c n) (sbrkDemand k c n) (fun _ _ => True) k := by
  obtain ⟨f, d, -, hd, -⟩ := h.live (c := c) (by rw [hc]; simp)
  unfold sbrkDemand
  rw [hd]
  dsimp only
  rw [if_pos hpos]
  have htakes : Takes Kernel.free NoPage (growproc c n)
      (growDemand d (k.proc c).sz ((((k.proc c).sz : ℤ) + n) % 2 ^ 32).toNat) (fun _ _ => True) k := by
    unfold growproc
    refine takes_bind_free (wp_get ⟨rfl, takes_bind_free (wp_pgdirOf hd ⟨rfl, ?_⟩)⟩)
    rw [if_pos hpos]
    have halloc : ∀ newsz, Takes Kernel.free NoPage (vm (allocuvm d (k.proc c).sz newsz))
        (growDemand d (k.proc c).sz newsz) (fun _ _ => True) k :=
      fun newsz => takes_zoom (fun _ _ => rfl) (allocuvm_takes d _ _ (h.ready hR))
    refine Takes.bind_sub le_rfl (halloc _) fun r k₁ _ => ?_
    rw [Nat.sub_self]
    refine takes_bind_free (wp_updProc ⟨rfl, ?_⟩)
    split_ifs
    · exact takes_pure trivial
    · exact takes_bind_free (wp_updProc ⟨rfl, takes_pure trivial⟩)
  exact (htakes.exactly (growproc_spec hR h hc hlo hhi)).post fun _ _ _ => trivial

/-! ### Clean failures -/

/-- The byte that process `c` has at address `va`. -/
def Kernel.byteAt (k : Kernel) (c : Slot) (va : ℕ) : Option UInt8 :=
  (k.proc c).pgdir.bind fun d =>
    (d.entry (va / PGSIZE)).map fun e => k.mem.pages e.pfn (va % PGSIZE)

/-- The call of process `c` fails cleanly: it returns `-1`, and the free pages, the counters, the
size and the memory of the process, and the slot that `fork` would take are as before. -/
def FailsClean (k : Kernel) (op : Op) (c : Slot) : Prop :=
  ∃ k', perform op k = .ok (.value (-1), k') ∧
    (∀ f, f ∈ k'.mem.alloc.freelist ↔ f ∈ k.mem.alloc.freelist) ∧
    k'.mem.alloc.pgRef = k.mem.alloc.pgRef ∧ (k'.proc c).sz = (k.proc c).sz ∧
    (∀ va, va < (k.proc c).sz → k'.byteAt c va = k.byteAt c va) ∧
    ∀ i, firstUnused k = some i → (k'.proc i).state = .unused

/-- A `kalloc` of the call finds an empty free list: the call ends where such a `kalloc` ends. -/
def MeetsEmpty (k : Kernel) (op : Op) : Prop := ∃ e, perform op k = .error e ∧ NoPage e

/-- If the call meets an empty free list, it fails cleanly. -/
def CleanWhenEmpty (k : Kernel) (op : Op) (c : Slot) : Prop :=
  MeetsEmpty k op → FailsClean k op c

/-- The calls that need pages: `fork`, and `sbrk` by a positive number. -/
inductive NeedsPages (c : Slot) : Op → Prop
  | fork : NeedsPages c (.fork c)
  | sbrk {n : ℤ} : 0 < n → NeedsPages c (.sbrk c n)

omit [Layout] in
/-- The pages that a call takes. -/
def demand (k : Kernel) : Op → ℕ
  | .fork c => forkDemand k c
  | .sbrk c n => sbrkDemand k c n
  | _ => 0

/-- A call that meets an empty list does not fail cleanly: it ends at the counter of the null
pointer. -/
lemma cleanWhenEmpty_iff {op : Op} {n : ℕ}
    (hx : Exactly Kernel.free NoPage (perform op) n (fun _ _ => True) k) :
    CleanWhenEmpty k op c ↔ n ≤ k.free := by
  constructor
  · intro hclean
    by_contra hlt
    obtain ⟨e, herr, he⟩ := hx.iff.mpr (not_le.mp hlt)
    obtain ⟨k', hok, -⟩ := hclean ⟨e, herr, he⟩
    exact absurd (hok.symm.trans herr) (by simp)
  · intro hle hempty
    exact absurd (hx.iff.mp hempty) (not_lt.mpr hle)

/-- The exact cost of a call. -/
lemma perform_exactly (hR : ∀ f ∈ R, Kmem.Usable f) (h : Inv R k) {op : Op} (he : Enabled k op)
    (hop : NeedsPages c op) :
    Exactly Kernel.free NoPage (perform op) (demand k op) (fun _ _ => True) k := by
  cases hop with
  | fork => exact (fork_exactly hR h he).bind_free fun r k' _ => wp_pure trivial
  | sbrk hpos =>
    exact (growproc_exactly hR h he.1 he.2.1 he.2.2 hpos).bind_free fun r k' _ => wp_pure trivial

/-- The states that the system reaches from the free list `free`, with page faults in the user
half or at pages with a low counter. -/
def FaultReach (free : List ℕ) : Kernel → Prop := Reachable (Boot free) (Guarded Step FaultOk)

lemma FaultReach.inv {free : List ℕ} (hfree : FreeList free) (h : FaultReach free k) :
    Inv {f | f ∈ free} k := by
  refine h.invariant (I := Inv {f | f ∈ free}) (fun _ => Inv.boot) (fun k op k' hk hs => ?_)
  obtain ⟨⟨he, r, hr⟩, hfault⟩ := hs
  exact (hk.perform hfree.usable he hfault).ok hr

/-- **A call that needs pages fails cleanly on an empty free list exactly when it never meets
one**: when there are as many free pages as it takes. -/
theorem cleanWhenEmpty_iff_demand_le {free : List ℕ} (hfree : FreeList free) (h : FaultReach free k)
    {op : Op} (he : Enabled k op) (hop : NeedsPages c op) :
    CleanWhenEmpty k op c ↔ demand k op ≤ k.free :=
  cleanWhenEmpty_iff (perform_exactly hfree.usable (h.inv hfree) he hop)

/-- There are fewer than `57344` pages. -/
lemma Inv.free_le {free : List ℕ} (hfree : FreeList free) (h : Inv {f | f ∈ free} k) :
    k.free ≤ NPAGE := by
  have hsub : k.mem.alloc.freelist ⊆ List.range NPAGE := by
    intro f hf
    exact List.mem_range.mpr (hfree.usable f ((h.counts.free f).mp hf).1).2
  have hle := (h.counts.nodup.subperm hsub).length_le
  rwa [List.length_range] at hle

omit [Layout] in
/-- A process of one page asks for `2 ^ 30` bytes. -/
lemma one_page_demand (hd : (k.proc c).pgdir.isSome) (hsz : (k.proc c).sz = PGSIZE) :
    NPAGE < demand k (.sbrk c (2 ^ 30)) := by
  obtain ⟨d, hd⟩ := Option.isSome_iff_exists.mp hd
  have hnew : ((((k.proc c).sz : ℤ) + 2 ^ 30) % 2 ^ 32).toNat = PGSIZE + 2 ^ 30 := by
    rw [hsz]
    decide
  have hsmall : ¬(KERNBASE ≤ PGSIZE + 2 ^ 30 ∨ PGSIZE + 2 ^ 30 < PGSIZE) := by decide
  have hpages : NPAGE < PGROUNDUP (PGSIZE + 2 ^ 30) - PGROUNDUP PGSIZE := by decide
  rw [demand, sbrkDemand, hd]
  dsimp only
  rw [if_pos (by decide), hnew, hsz, growDemand, if_neg hsmall]
  omega

/-- The first process of a system that has just started, with one page. -/
lemma FaultReach.exists_first {free : List ℕ} (hfree : FreeList free)
    (hn : NPTENTRIES + 3 ≤ free.length) : ∃ k, FaultReach free k ∧
      (k.proc 0).state = .runnable ∧ (k.proc 0).pgdir.isSome ∧ (k.proc 0).sz = PGSIZE := by
  have hboot : Boot free (Kernel.boot free fun _ => zeroPage) := ⟨hfree, _, rfl⟩
  obtain ⟨k, hstep, -, ⟨f, d, m, rfl, -⟩, -⟩ :=
    userinit_ok (n := 0) hboot (Inv.boot hboot) [] (by decide) (by omega)
  refine ⟨_, (Reachable.start hboot).next ⟨hstep, trivial⟩, ?_⟩
  rw [booted_self]
  exact ⟨rfl, rfl, rfl⟩

omit [Layout] in
/-- The first process forks, and it asks for more memory than there is. -/
theorem cleanWhenEmpty_iff_demand_le_fork : ∃ k, @FaultReach Layout.sample sampleFree k ∧
    (@CleanWhenEmpty Layout.sample k (.fork 0) 0 ↔ demand k (.fork 0) ≤ k.free) ∧
    k.free < demand k (.sbrk 0 (2 ^ 30)) ∧
    ¬@CleanWhenEmpty Layout.sample k (.sbrk 0 (2 ^ 30)) 0 := by
  obtain ⟨k, hk, hrun, hd, hsz⟩ := @FaultReach.exists_first Layout.sample _ sampleFree_freeList
    (by rw [sampleFree, List.length_range']; decide)
  have hfew := @Inv.free_le Layout.sample k _ sampleFree_freeList
    (@FaultReach.inv Layout.sample _ _ sampleFree_freeList hk)
  have hshort : k.free < demand k (.sbrk 0 (2 ^ 30)) := hfew.trans_lt (one_page_demand hd hsz)
  have he : Enabled k (.sbrk 0 (2 ^ 30)) := ⟨hrun, by decide, by decide⟩
  refine ⟨k, hk, @cleanWhenEmpty_iff_demand_le Layout.sample k 0 _ sampleFree_freeList hk _ hrun
    .fork, hshort, fun hclean => ?_⟩
  exact absurd ((@cleanWhenEmpty_iff_demand_le Layout.sample k 0 _ sampleFree_freeList hk _
    he (.sbrk (by decide))).mp hclean) (not_le.mpr hshort)

omit [Layout] in
/-- The first process asks for more memory than there is. -/
theorem not_cleanWhenEmpty : ∃ k, @FaultReach Layout.sample sampleFree k ∧
    Enabled k (.sbrk 0 (2 ^ 30)) ∧ ¬@CleanWhenEmpty Layout.sample k (.sbrk 0 (2 ^ 30)) 0 := by
  obtain ⟨k, hk, hrun, hd, hsz⟩ := @FaultReach.exists_first Layout.sample _ sampleFree_freeList
    (by rw [sampleFree, List.length_range']; decide)
  have he : Enabled k (.sbrk 0 (2 ^ 30)) := ⟨hrun, by decide, by decide⟩
  have hinv := @FaultReach.inv Layout.sample _ _ sampleFree_freeList hk
  have hexact := @perform_exactly Layout.sample _ _ 0 (@FreeList.usable Layout.sample _ sampleFree_freeList)
    hinv _ he
    (.sbrk (by decide))
  refine ⟨k, hk, he, fun hclean => ?_⟩
  have hle := (@cleanWhenEmpty_iff Layout.sample k 0 _ _ hexact).mp hclean
  have hfew := @Inv.free_le Layout.sample k _ sampleFree_freeList hinv
  exact absurd (hle.trans hfew) (not_le.mpr (one_page_demand hd hsz))

end Xv6Projects.Cow
