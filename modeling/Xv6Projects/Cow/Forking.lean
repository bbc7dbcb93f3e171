import Xv6Projects.Cow.Counters
import Xv6Projects.Cow.Faults
import Xv6Projects.Cow.UserPages

/-!
# What `fork` shares and what it takes

A `fork` that succeeds takes the kernel stack of the child, and its page directory with the page
tables; all user pages of the parent get one more user each, and both processes may only read
them.
-/

namespace Xv6Projects.Cow

open Library Vm Finset

/-- **`fork` shares the user pages**: process `c` has a child in slot `i`. -/
structure ForkShares (k k' : Kernel) (c i : Slot) : Prop where
  /-- The slot was unused, and the child is as large as its parent. -/
  child : (k.proc i).state = .unused ∧ (k'.proc i).state = .runnable ∧
    (k'.proc i).parent = some c ∧ (k'.proc i).sz = (k.proc c).sz
  /-- The free pages that are gone: one, and those of the child's page directory. -/
  cost : ∃ n, countptp i k' = .ok (n, k') ∧
    k'.mem.alloc.countfp + (1 + n) = k.mem.alloc.countfp
  /-- Each user page of the parent has one more user. -/
  shared : ∀ q, q < PGROUNDUP (k.proc c).sz → ∃ e, k.pte c q = some e ∧
    k'.mem.alloc.pgRef e.pfn = k.mem.alloc.pgRef e.pfn + 1
  /-- Any other page in use has as many users as before. -/
  others : ∀ g, 0 < k.mem.alloc.pgRef g →
    (∀ q e, q < PGROUNDUP (k.proc c).sz → k.pte c q = some e → e.pfn ≠ g) →
    k'.mem.alloc.pgRef g = k.mem.alloc.pgRef g
  /-- The child has the frames of its parent at their addresses, and the parent keeps them. -/
  frames : ∀ j, j = i ∨ j = c → ∀ q, q < PGROUNDUP (k.proc c).sz →
    (k'.pte j q).map Pte.pfn = (k.pte c q).map Pte.pfn
  /-- Neither may write to them. -/
  readOnly : ∀ j, j = i ∨ j = c → ∀ q e, q < PGROUNDUP (k.proc c).sz → k'.pte j q = some e →
    e.w = false

/-! ### The pages that `fork` takes -/

lemma dirs_subset {n : ℕ} (hn : n ≤ NUPAGE) : dirs 0 n ⊆ range NPTENTRIES := by
  intro i hi
  obtain ⟨j, hj, rfl⟩ := mem_image.mp hi
  have hlt := mem_range.mp hj
  refine mem_range.mpr (PDX_lt ?_)
  have hpages : NUPAGE ≤ NVPAGE := by decide
  omega

/-- The page tables of the kernel. -/
lemma tableCount_kernel {d : PageDir} (h : ∀ i, d.table i = none ↔ i ∉ kernelDirs) :
    tableCount d = 64 := by
  have heq : ((range NPTENTRIES).filter fun i => d.table i ≠ none) = kernelDirs := by
    ext i
    have hlt : i ∈ kernelDirs → i ∈ range NPTENTRIES := by
      rw [kernelDirs, mem_union, mem_Ico, mem_Ico, mem_range, NPTENTRIES]
      omega
    rw [mem_filter, Ne, h i, not_not]
    exact and_iff_right_of_imp hlt
  rw [tableCount, heq, card_kernelDirs]

variable [Layout] {R : Set ℕ} {k k' : Kernel} {c i : Slot} {m : Mem Kmem} {d : PageDir}

/-- **`copyuvm`** takes the pages of the child's page directory, and no others. -/
lemma copyuvm_takes {sz : ℕ} (hsz : sz ≤ KERNBASE)
    (hpfn : ∀ q e, q < PGROUNDUP sz → d.entry q = some e → e.pfn < NPAGE) (h : Ready m) :
    Takes free NoPage (copyuvm d sz) (65 + tablesFor (PGROUNDUP sz))
      (fun r _ => ∃ child, r.1 = some child ∧ tableCount child = 64 + tablesFor (PGROUNDUP sz))
      m := by
  have hlast := PGROUNDUP_le hsz
  unfold copyuvm
  refine (setupkvm_takes h).bind fun o m₁ ho => ?_
  obtain ⟨child₀, rfl, htable, hready⟩ := ho
  have hloop := copyLoop_takes (PGROUNDUP sz) d child₀ 0 m₁
    (fun q e _ hq he => hpfn q e (by omega) he) hready
  have hmissing := missingIn_child htable hlast
  rw [hmissing] at hloop
  refine hloop.post fun r m₂ hr => ?_
  obtain ⟨child, hr, hadds⟩ := hr
  refine ⟨child, hr, ?_⟩
  rw [hadds.tableCount (dirs_subset hlast), tableCount_kernel htable, hmissing]

/-- **`fork`** takes a page for the kernel stack and those that `countptp` counts for the
child. -/
lemma fork_takes (hR : ∀ f ∈ R, Kmem.Usable f) (h : Inv R k) (hc : (k.proc c).state = .runnable)
    (hi : firstUnused k = some i) :
    Takes Kernel.free NoPage (fork c) (1 + (65 + tablesFor (PGROUNDUP (k.proc c).sz)))
      (fun _ k' => countptp i k' = .ok (65 + tablesFor (PGROUNDUP (k.proc c).sz), k')) k := by
  obtain ⟨-, d, -, hd, hok⟩ := h.live (c := c) (by rw [hc]; simp)
  have hup := PGROUNDUP_le hok.le
  have halloc := (allocproc_takes (h.ready hR)).known (allocproc_spec hR h)
  rw [hi, if_pos (show (some i).isSome = true from rfl)] at halloc
  unfold fork
  refine halloc.bind fun r k₁ hr => ?_
  obtain ⟨-, ⟨-, hnone, -⟩ | ⟨i', f, m', rfl, hi', rfl, -, hcounts, -⟩⟩ := hr
  · exact absurd hnone (by simp)
  obtain rfl := Option.some.inj hi'
  have hproc : (k.allocated i f m').proc c = k.proc c :=
    Function.update_of_ne (ne_of_unused hc (slots_find hi)).symm _ _
  have hd₁ : ((k.allocated i f m').proc c).pgdir = some d := by rw [hproc, hd]
  refine takes_bind_free (wp_pgdirOf hd₁ ⟨rfl, takes_bind_free (wp_get ⟨rfl, ?_⟩)⟩)
  rw [hproc]
  have hcopy : Takes Kernel.free NoPage (vm (copyuvm d (k.proc c).sz))
      (65 + tablesFor (PGROUNDUP (k.proc c).sz))
      (fun r _ => ∃ child, r.1 = some child ∧
        tableCount child = 64 + tablesFor (PGROUNDUP (k.proc c).sz)) (k.allocated i f m') :=
    takes_zoom (fun _ _ => rfl) (copyuvm_takes hok.le
      (fun q e hq he => h.pfn_lt hR hd (hq.trans_le hup) he) (hcounts.ready hR))
  refine Takes.bind_sub le_rfl hcopy fun r k₂ hr => ?_
  obtain ⟨o, d'⟩ := r
  obtain ⟨child, rfl, htables⟩ := hr
  rw [Nat.sub_self]
  refine takes_bind_free (wp_updProc ⟨rfl, takes_bind_free (wp_updProc ⟨rfl, ?_⟩)⟩)
  refine takes_bind_free (wp_get ⟨rfl, takes_pure ?_⟩)
  rw [countptp_ok (d := child) (by rw [Kernel.setProc_proc, Function.update_self]), htables,
    ← Nat.add_assoc]

/-! ### The pages that `fork` shares -/

omit [Layout] in
/-- A process names each of its user pages once. -/
lemma UserPages.userHolds_eq (hu : UserPages k) (hd : (k.proc c).pgdir = some d) {q : ℕ} {e : Pte}
    (hq : q < NUPAGE) (he : d.entry q = some e) : userHolds d e.pfn = 1 := by
  have hle := hu.proc_userHolds_le_one c e.pfn
  rw [proc_userHolds_of_pgdir hd] at hle
  exact le_antisymm hle (one_le_userHolds hq he)

lemma Forked.shares {f : ℕ} {d' child : PageDir} {m' : Mem Kmem} (h : Inv R k) (h' : Inv R k')
    (hu : UserPages k) (hc : (k.proc c).state = .runnable)
    (hi : (k.proc i).state = .unused)
    (hfork : Forked k k' c i f d d' child m')
    (hcost : ∃ n, countptp i k' = .ok (n, k') ∧
      k'.mem.alloc.countfp + (1 + n) = k.mem.alloc.countfp) : ForkShares k k' c i := by
  have hd := hfork.pgdir
  have hic := ne_of_unused hc hi
  obtain ⟨-, d₀, -, hd₀, hok⟩ := h.live (c := c) (by rw [hc]; simp)
  have hup := PGROUNDUP_le hok.le
  -- the counters are the numbers of holders, before and after
  have hcount : ∀ g, 0 < k.mem.alloc.pgRef g →
      k'.mem.alloc.pgRef g = k.mem.alloc.pgRef g + Cow.userHolds d g := fun g hg => by
    rw [h.counts.count] at hg
    rw [h'.counts.count, h.counts.count, hfork.count g (by omega)]
    push_cast
    rfl
  have hself := hfork.proc_child
  refine ⟨⟨hi, by rw [hself], by rw [hself], by rw [hself]⟩, hcost, fun q hq => ?_,
    fun g hg hother => ?_, fun j hj q hq => ?_, fun j hj q e hq he => ?_⟩
  · obtain ⟨e, he⟩ := Option.isSome_iff_exists.mp (hfork.present q hq)
    have hone := hu.userHolds_eq hd (hq.trans_le hup) he
    have hheld := k.proc_le_holders c e.pfn
    have hpos := proc_userHolds_le (k := k) c e.pfn
    rw [proc_userHolds_of_pgdir hd, hone] at hpos
    refine ⟨e, by rw [pte_of_pgdir hd, he], ?_⟩
    rw [hcount e.pfn (by rw [h.counts.count]; omega), hone]
    rfl
  · have hzero : Cow.userHolds d g = 0 := by
      by_contra hne
      obtain ⟨q, e, hq, he, hpfn⟩ := userHolds_pos_iff.mp (Nat.pos_of_ne_zero hne)
      obtain rfl := Option.some.inj (hd.symm.trans hd₀)
      refine hother q e ?_ (by rw [pte_of_pgdir hd, he]) hpfn
      by_contra hge
      rw [hok.unmapped q (not_lt.mp hge) hq] at he
      exact absurd he (by simp)
    rw [hcount g hg, hzero]
    exact add_zero _
  · rw [hfork.pte hic hj hq]
    cases k.pte c q <;> rfl
  · rw [hfork.pte hic hj hq] at he
    obtain ⟨e₀, -, rfl⟩ := Option.map_eq_some_iff.mp he
    rfl

/-- What `fork` returns: the number of the child, or minus one. -/
lemma fork_reply (hR : ∀ f ∈ R, Kmem.Usable f) (h : Inv R k) (hc : (k.proc c).state = .runnable)
    {r : Reply} (hr : perform (.fork c) k = .ok (r, k')) : Inv R k' ∧
    ((r = .value (-1) ∧ firstUnused k = none) ∨ ∃ i f d d' child m', r = .value k.nextpid ∧
      firstUnused k = some i ∧ Forked k k' c i f d d' child m') := by
  obtain ⟨-, d, -, hd, -⟩ := h.live (c := c) (by rw [hc]; simp)
  have hspec := (fork_spec hR h hc hd ⟨fun _ _ => trivial, fun _ _ _ => trivial⟩).bind
    (f := fun r => (pure (.value r) : KM Reply)) (Q := fun r k' => Inv R k' ∧
      ((r = .value (-1) ∧ firstUnused k = none) ∨ ∃ i f d d' child m', r = .value k.nextpid ∧
        firstUnused k = some i ∧ Forked k k' c i f d d' child m')) fun r k' hk' => wp_pure ?_
  · exact hspec.ok hr
  · obtain ⟨hinv, ⟨rfl, hnone, -⟩ | ⟨i, f, d', child, m', rfl, hi, hfork⟩⟩ := hk'
    · exact ⟨hinv, Or.inl ⟨rfl, hnone⟩⟩
    · exact ⟨hinv, Or.inr ⟨i, f, d, d', child, m', rfl, hi, hfork⟩⟩

/-- **`fork` shares every user page**: in every reachable state a `fork` that succeeds takes one
page and those of the child's page directory, gives one more user to each page of the parent and
to no other page in use, and leaves parent and child with the same pages, which neither may
write. -/
theorem fork_shares {free : List ℕ} (hfree : FreeList free) (h : FaultReach free k)
    (he : Enabled k (.fork c)) {pid : ℤ} (hr : perform (.fork c) k = .ok (.value pid, k'))
    (hpid : pid ≠ -1) : ∃ i, (k'.proc i).pid = pid ∧ ForkShares k k' c i := by
  have hR := hfree.usable
  have hinv := h.inv hfree
  obtain ⟨hinv', ⟨hp, -⟩ | ⟨i, f, d, d', child, m', hp, hi, hfork⟩⟩ := fork_reply hR hinv he hr
  · injection hp with hp
    exact absurd hp hpid
  · injection hp with hp
    have htakes : Takes Kernel.free NoPage (perform (.fork c))
        (1 + (65 + tablesFor (PGROUNDUP (k.proc c).sz)) + 0)
        (fun _ k' => countptp i k' = .ok (65 + tablesFor (PGROUNDUP (k.proc c).sz), k')) k :=
      (fork_takes hR hinv he hi).bind fun r k' hk' => takes_pure hk'
    obtain ⟨hfp, hptp⟩ := Wp.ok htakes hr
    refine ⟨i, ?_, hfork.shares hinv hinv' (h.userPages hfree) he (slots_find hi)
      ⟨_, hptp, hfp⟩⟩
    rw [hfork.proc_child]
    exact hp.symm

omit [Layout] in
/-- The first process forks. -/
theorem fork_shares_first : ∃ k k', @FaultReach Layout.sample sampleFree k ∧
    @perform Layout.sample (.fork 0) k = .ok (.value 2, k') ∧
    ∃ i, (k'.proc i).pid = 2 ∧ ForkShares k k' 0 i := by
  have hfree := sampleFree_freeList
  have hboot : @Boot Layout.sample sampleFree (Kernel.boot sampleFree fun _ => zeroPage) :=
    ⟨hfree, _, rfl⟩
  obtain ⟨_, k₂, f, d, m, f', d', child, m', rfl, hstep₁, ⟨he, r, hr⟩, -⟩ :=
    @firstFork_ok Layout.sample 0 _ hfree (by rw [sampleFree, List.length_range']; decide)
  have hk : @FaultReach Layout.sample sampleFree _ :=
    (Reachable.start hboot).next ⟨hstep₁, trivial⟩
  have hinv := @FaultReach.inv Layout.sample _ _ hfree hk
  obtain ⟨-, ⟨-, hnone⟩ | ⟨-, -, -, -, -, -, rfl, -⟩⟩ :=
    @fork_reply Layout.sample _ _ _ _ (@FreeList.usable Layout.sample _ hfree) hinv he _ hr
  · exact absurd rfl (slots_find_none hnone 1)
  · exact ⟨_, k₂, hk, hr,
      @fork_shares Layout.sample _ _ _ _ hfree hk he 2 hr (by decide)⟩

end Xv6Projects.Cow
