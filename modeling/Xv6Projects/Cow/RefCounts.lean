import Xv6Projects.Cow.Effect
import Xv6Projects.Cow.Supply

/-!
# Reference counts are exact

Every operation keeps the invariant; so in every state between two operations the counter of a
page is the number of its holders, and the free list has the pages without one.
-/

namespace Xv6Projects.Cow

open Library Vm Finset

variable [Layout] {R : Set ℕ} {k : Kernel} {c : Slot} {E : Err → Prop}

/-- **The loop rule of an access**: what every page fault keeps holds until an attempt
succeeds. -/
lemma access_rule {va : ℕ} {user : Bool} {a : Access} {P : Kernel → Prop}
    {Q : Option UInt8 → Kernel → Prop}
    (hpgdir : ∀ k, P k → ∃ d, (k.proc c).pgdir = some d)
    (hfault : ∀ k d, P k → (k.proc c).pgdir = some d →
      (∀ e, d.entry (va / PGSIZE) = some e → Pte.allows e user a = false) →
      Wp (fault c va) E (fun _ k' => P k') k)
    (hload : ∀ k d e, P k → (k.proc c).pgdir = some d → d.entry (va / PGSIZE) = some e →
      Pte.allows e user a = true → a = .load → Q (some (k.mem.pages e.pfn (va % PGSIZE))) k)
    (hstore : ∀ k d e b, P k → (k.proc c).pgdir = some d → d.entry (va / PGSIZE) = some e →
      Pte.allows e user a = true → a = .store b → Q (some b) (k.setMem (k.mem.put e.pfn
        (Function.update (k.mem.pages e.pfn) (va % PGSIZE) b))))
    (hnone : ∀ k, P k → Q none k) (n : ℕ) :
    ∀ k, P k → Wp (access c va user a n) E Q k := by
  induction n with
  | zero => exact fun k hk => wp_pure (hnone k hk)
  | succ n ih =>
    intro k hk
    obtain ⟨d, hd⟩ := hpgdir k hk
    unfold access
    refine wp_bind (wp_pgdirOf hd ?_)
    cases hf : (d.entry (va / PGSIZE)).filter fun e => Pte.allows e user a with
    | none =>
      have hdeny : ∀ e, d.entry (va / PGSIZE) = some e → Pte.allows e user a = false := by
        intro e he
        have h := Option.filter_eq_none_iff.mp hf e he
        simpa using h
      exact (hfault k d hk hd hdeny).bind fun _ k' hk' => ih k' hk'
    | some e =>
      obtain ⟨he, hallow⟩ := Option.filter_eq_some_iff.mp hf
      refine wp_bind (wp_vm (wp_getPage ?_))
      cases a with
      | load => exact wp_pure (hload k d e hk hd he hallow rfl)
      | store b => exact wp_bind (wp_vm (wp_setPage (wp_pure (hstore k d e b hk hd he hallow rfl))))

/-- Bytes are written to a page. -/
lemma Inv.put (h : Inv R k) (f : ℕ) (p : Page) : Inv R (k.setMem (k.mem.put f p)) :=
  ⟨h.counts, h.proc, h.kpgdir⟩

/-- Page faults come in the user half, or at a page with a low counter. -/
def FaultOk (k : Kernel) : Op → Prop
  | .access c va _ _ _ => ∀ d, (k.proc c).pgdir = some d →
      va / PGSIZE < NUPAGE ∨ LowCount k d (va / PGSIZE)
  | _ => True

omit [Layout] in
/-- After a fault the condition on faults holds still. -/
lemma FaultOk.fault {va : ℕ} {user : Bool} {a : Access} {n : ℕ}
    (hs : FaultOk k (.access c va user a n)) {d d' : PageDir} {m' : Mem Kmem}
    (hd : (k.proc c).pgdir = some d)
    (hf : Faulted k (k.setSpace c m' d' (k.proc c).sz) d d' (va / PGSIZE) m') :
    FaultOk (k.setSpace c m' d' (k.proc c).sz) (.access c va user a n) := by
  intro d₁ hd₁
  rw [setSpace_proc] at hd₁
  obtain rfl := Option.some.inj hd₁
  cases hf with
  | user e hv _ _ => exact Or.inl hv
  | kernel hv hentry hm =>
    -- nothing changed
    have hlow := (hs d hd).resolve_left (by omega)
    refine Or.inr fun e he => ?_
    rw [hentry] at he
    obtain ⟨hlt, hle⟩ := hlow e he
    refine ⟨hlt, ?_⟩
    show m'.alloc.pgRef e.pfn ≤ 1
    rw [hm]
    exact hle

/-- **An access** keeps the invariant, and what its page faults and stores keep. -/
lemma access_faults (hR : ∀ f ∈ R, Kmem.Usable f) (h : Inv R k) (hc : (k.proc c).state = .runnable)
    {va : ℕ} {user : Bool} {a : Access} {n : ℕ} (hs : FaultOk k (.access c va user a n))
    {P : Kernel → Prop} (hP : P k)
    (hfault : ∀ k f d d' m', P k → Inv R k → (k.proc c).kstack = some f →
      (k.proc c).pgdir = some d → d'.frame = d.frame → d'.table = d.table →
      Faulted k (k.setSpace c m' d' (k.proc c).sz) d d' (va / PGSIZE) m' →
      P (k.setSpace c m' d' (k.proc c).sz))
    (hput : ∀ k f p, P k → P (k.setMem (k.mem.put f p))) :
    Wp (access c va user a n) Clean (fun _ k' => Inv R k' ∧ P k') k := by
  refine access_rule (P := fun k => (Inv R k ∧ P k) ∧ (k.proc c).state = .runnable ∧
    FaultOk k (.access c va user a n)) (fun k hk => ?_) (fun k d hk hd _ => ?_)
    (fun k _ _ hk _ _ _ _ => hk.1) (fun k _ _ _ hk _ _ _ _ => ⟨hk.1.1.put _ _, hput _ _ _ hk.1.2⟩)
    (fun k hk => hk.1) n k ⟨⟨h, hP⟩, hc, hs⟩
  · obtain ⟨f, d, -, hd, -⟩ := hk.1.1.live (c := c) (by rw [hk.2.1]; simp)
    exact ⟨d, hd⟩
  · obtain ⟨⟨h, hP⟩, hc, hs⟩ := hk
    obtain ⟨f, -, hf, -, -⟩ := h.live (c := c) (by rw [hc]; simp)
    refine (fault_spec hR h hc hd (hs d hd)).mono (fun _ k' hk' => ?_) fun e he => ?_
    · obtain ⟨hinv, d', m', rfl, hframe, htable, hfaulted⟩ := hk'
      refine ⟨⟨hinv, hfault k f d d' m' hP h hf hd hframe htable hfaulted⟩, ?_,
        hs.fault hd hfaulted⟩
      rw [setSpace_proc]
      exact hc
    · rcases he with he | ⟨-, he⟩
      · exact he.clean
      · exact he

/-- **An access** keeps the invariant. -/
lemma access_inv (hR : ∀ f ∈ R, Kmem.Usable f) (h : Inv R k) (hc : (k.proc c).state = .runnable)
    {va : ℕ} {user : Bool} {a : Access} {n : ℕ} (hs : FaultOk k (.access c va user a n)) :
    Wp (access c va user a n) Clean (fun _ k' => Inv R k') k :=
  (access_faults hR h hc hs (P := fun _ => True) trivial (fun _ _ _ _ _ _ _ _ _ _ _ _ => trivial)
    fun _ _ _ _ => trivial).post fun _ _ hk' => hk'.1

/-- **One operation** keeps the invariant, and ends in no panic of the allocator. -/
theorem Inv.perform (hR : ∀ f ∈ R, Kmem.Usable f) (h : Inv R k) {op : Op} (he : Enabled k op)
    (hs : FaultOk k op) : Wp (perform op) Clean (fun _ k' => Inv R k') k := by
  rcases op.access_or with ⟨c, va, user, a, n, rfl⟩ | hop
  · exact (access_inv hR h he.1 hs).bind fun _ k' hk' => wp_pure hk'
  · exact (perform_effect hR h he hop).post fun _ _ hk' => hk'.1

/-- Before boot nobody holds a page. -/
lemma Inv.boot {free : List ℕ} {k : Kernel} (h : Boot free k) : Inv {f | f ∈ free} k := by
  obtain ⟨hfree, pages, rfl⟩ := h
  have hzero : (Kernel.boot free pages).holders = 0 := by
    have hsum : ∑ i : Slot, ((Kernel.boot free pages).proc i).holders = 0 :=
      sum_eq_zero fun i _ => add_zero _
    rw [Kernel.holders, hsum]
    rfl
  refine ⟨?_, fun i => ⟨rfl, rfl⟩, fun d hd => absurd hd (by simp [Kernel.boot])⟩
  rw [hzero]
  exact ⟨fun _ => rfl, hfree.nodup, fun f => by simp [Kernel.boot], fun f hf => absurd hf (by simp)⟩

/-! ### Runs -/

/-- Accesses are to addresses below the size of the process. -/
def BelowSz (k : Kernel) : Op → Prop
  | .access c va _ _ _ => va < (k.proc c).sz
  | _ => True

lemma Inv.faultOk (h : Inv R k) {op : Op} (he : Enabled k op) (hb : BelowSz k op) :
    FaultOk k op := by
  cases op with
  | access c va user a n =>
    intro d hd
    obtain ⟨f, d, -, -, hok⟩ := h.live (c := c) (by rw [he.1]; simp)
    have hva : va < (k.proc c).sz := hb
    have hle := hok.le
    refine Or.inl ?_
    simp only [NUPAGE, KERNBASE, PGSIZE] at hle ⊢
    omega
  | _ => trivial

/-- The states that the system reaches from the free list `free`, with accesses below the size of
a process. -/
def CountReach (free : List ℕ) : Kernel → Prop := Reachable (Boot free) (Guarded Step BelowSz)

lemma CountReach.inv {free : List ℕ} (hfree : FreeList free) (h : CountReach free k) :
    Inv {f | f ∈ free} k := by
  refine Reachable.invariant (I := Inv {f | f ∈ free}) (fun _ => Inv.boot)
    (fun k op k' hk hs => ?_) h
  obtain ⟨⟨he, r, hr⟩, hb⟩ := hs
  exact (hk.perform hfree.usable he (hk.faultOk he hb)).ok hr

/-- **Reference counts are exact.**  In every reachable state the counter of each page is the
number of its holders, the free list has each page with counter `0` once and no other, and
`countfp` is the number of these pages; and no operation ends in a panic of `kfree`,
`kalloc` or `decr_refc`, or reads a counter outside the table, unless `kalloc` finds no page. -/
theorem pgRef_eq_holders {free : List ℕ} (hfree : FreeList free) (h : CountReach free k) :
    (∀ f ∈ free, k.mem.alloc.pgRef f = k.holders f) ∧
      (∀ f, 0 < k.holders f → f ∈ free) ∧
      k.mem.alloc.freelist.Nodup ∧
      (∀ f, f ∈ k.mem.alloc.freelist ↔ f ∈ free ∧ k.mem.alloc.pgRef f = 0) ∧
      k.mem.alloc.countfp = (free.filter fun f => k.mem.alloc.pgRef f = 0).length ∧
      ∀ op, Enabled k op → BelowSz k op → ∀ e, perform op k = .error e → e.FromAllocator →
        NoPage e := by
  have hinv := h.inv hfree
  have hmem : ∀ f, f ∈ k.mem.alloc.freelist ↔ f ∈ free ∧ k.mem.alloc.pgRef f = 0 := by
    intro f
    rw [hinv.counts.free f, hinv.counts.count f, Nat.cast_eq_zero]
    rfl
  refine ⟨fun f _ => hinv.counts.count f, hinv.counts.held, hinv.counts.nodup, hmem, ?_,
    fun op he hb e hp => (hinv.perform hfree.usable he (hinv.faultOk he hb)).error hp⟩
  refine List.Perm.length_eq ((List.perm_ext_iff_of_nodup hinv.counts.nodup
    (hfree.nodup.filter _)).mpr fun f => ?_)
  rw [hmem f, List.mem_filter, decide_eq_true_iff]

/-- With enough free pages the first process forks. -/
lemma firstFork_ok {n : ℕ} {free : List ℕ} (hfree : FreeList free)
    (hn : 2 * NPTENTRIES + n + 5 ≤ free.length) :
    ∃ k₁ k₂ f d m f' d' child m', k₁ = (Kernel.boot free fun _ => zeroPage).booted 0 f d m ∧
      Step (Kernel.boot free fun _ => zeroPage) (.userinit []) k₁ ∧ Step k₁ (.fork 0) k₂ ∧
      Inv {f | f ∈ free} k₂ ∧ Shows m d (Space.initial []) ∧
      Private k₁.holders d (Space.initial []) ∧ Forked k₁ k₂ 0 1 f' d d' child m' ∧
      k₂.proc 0 = { k₁.proc 0 with pgdir := some d', sz := PGSIZE } ∧ Supply k₂.mem.alloc n := by
  have hboot : Boot free (Kernel.boot free fun _ => zeroPage) := ⟨hfree, _, rfl⟩
  obtain ⟨k₁, hstep₁, hinv₁, ⟨f, d, m, rfl, hshows, hown⟩, hs₁⟩ :=
    userinit_ok (n := NPTENTRIES + n + 2) hboot (Inv.boot hboot) [] (by decide) (by omega)
  have hfirst : firstUnused ((Kernel.boot free fun _ => zeroPage).booted 0 f d m) = some 1 := by
    refine firstUnused_eq rfl fun j hj => ?_
    obtain rfl : j = 0 := Fin.lt_one_iff j |>.mp hj
    simp [Kernel.booted]
  have hpresent : ∀ q, q < PGROUNDUP PGSIZE → (d.entry q).isSome := by
    intro q hq
    obtain ⟨e, he, -⟩ := hshows.mapped q hq
    rw [he]
    rfl
  obtain ⟨k₂, hstep₂, hinv₂, ⟨f', d', child, m', hfork⟩, hs₂⟩ :=
    fork_ok (n := n) (c := 0) hfree.usable hinv₁ rfl hfirst rfl hpresent hs₁
  refine ⟨_, k₂, f, d, m, f', d', child, m', rfl, hstep₁, hstep₂, hinv₂, hshows, hown, hfork, ?_,
    hs₂⟩
  rw [hfork.state]
  exact forked_parent _ _ _ _ _ _ (by decide)

/-- With enough free pages the first process gets a program with a guard page and a stack page. -/
lemma firstExec_ok {n : ℕ} {free : List ℕ} (hfree : FreeList free)
    (hn : 2 * NPTENTRIES + n + 6 ≤ free.length) :
    ∃ k₁ k₂ d, Step (Kernel.boot free fun _ => zeroPage) (.userinit []) k₁ ∧
      Enabled k₁ (.exec 0 (some Elf.blank) []) ∧
      perform (.exec 0 (some Elf.blank) []) k₁ = .ok (.value 0, k₂) ∧ Inv {f | f ∈ free} k₂ ∧
      (k₂.proc 0).state = .runnable ∧ (k₂.proc 0).sz = 2 * PGSIZE ∧ (k₂.proc 0).pgdir = some d ∧
      (∀ q, q < 2 → ∃ e, d.entry q = some e ∧ k₂.holders e.pfn = 1 ∧ (e.u = true ↔ q ≠ 0)) ∧
      firstUnused k₂ = some 1 ∧ Supply k₂.mem.alloc n := by
  have hboot : Boot free (Kernel.boot free fun _ => zeroPage) := ⟨hfree, _, rfl⟩
  obtain ⟨s, himage, hsz, hguard⟩ := image_blank
  obtain ⟨k₁, hstep₁, hinv₁, ⟨f, d, m, rfl, -⟩, hs₁⟩ :=
    userinit_ok (n := NPTENTRIES + n + 3) hboot (Inv.boot hboot) [] (by decide) (by omega)
  obtain ⟨k₂, hexec, hinv₂, ⟨d₂, m₂, rfl, hshows, hown⟩, hs₂⟩ :=
    exec_ok (c := 0) hfree.usable hinv₁ rfl himage hs₁
  have hself := setSpace_proc (c := 0) (k := (Kernel.boot free fun _ => zeroPage).booted 0 f d m)
    m₂ d₂ s.sz
  refine ⟨_, _, d₂, hstep₁, rfl, hexec, hinv₂, congrArg Proc.state hself, ?_,
    congrArg Proc.pgdir hself, fun q hq => ?_, ?_, hs₂⟩
  · rw [hself]
    exact hsz
  · have hin : q < PGROUNDUP s.sz := by
      rw [hsz, PGROUNDUP_mul]
      exact hq
    obtain ⟨e, he, -⟩ := hshows.mapped q hin
    obtain ⟨-, hone, hu⟩ := hown q e (hshows.lt hin) he
    refine ⟨e, he, hone, ?_⟩
    rw [hu, hguard, Ne, Option.some.injEq, eq_comm]
  · refine firstUnused_eq rfl fun j hj => ?_
    obtain rfl : j = 0 := Fin.lt_one_iff j |>.mp hj
    rw [hself]
    simp [Kernel.booted]

/-- With enough free pages the first process has a child. -/
lemma CountReach.exists_child {free : List ℕ} (hfree : FreeList free)
    (hn : 2 * NPTENTRIES + 5 ≤ free.length) : ∃ k, CountReach free k ∧
      (k.proc 0).state = .runnable ∧ (k.proc 1).state = .runnable ∧ (k.proc 1).parent = some 0 := by
  obtain ⟨_, k₂, f, d, m, f', d', child, m', rfl, hstep₁, hstep₂, -, -, -, hfork, -, -⟩ :=
    firstFork_ok (n := 0) hfree hn
  have hboot : Boot free (Kernel.boot free fun _ => zeroPage) := ⟨hfree, _, rfl⟩
  refine ⟨k₂, ((Reachable.start hboot).next ⟨hstep₁, trivial⟩).next ⟨hstep₂, trivial⟩, ?_⟩
  rw [hfork.state]
  exact ⟨rfl, rfl, rfl⟩

omit [Layout] in
/-- A process with a child. -/
theorem pgRef_eq_holders_child : ∃ k, @CountReach Layout.sample sampleFree k ∧
    (k.proc 1).parent = some 0 ∧ (∀ f ∈ sampleFree, k.mem.alloc.pgRef f = k.holders f) ∧
    k.mem.alloc.countfp = (sampleFree.filter fun f => k.mem.alloc.pgRef f = 0).length := by
  obtain ⟨k, hk, -, -, hparent⟩ :=
    @CountReach.exists_child Layout.sample _ sampleFree_freeList
      (by rw [sampleFree, List.length_range']; decide)
  obtain ⟨hcount, -, -, -, hfp, -⟩ := @pgRef_eq_holders Layout.sample _ _ sampleFree_freeList hk
  exact ⟨k, hk, hparent, hcount, hfp⟩

end Xv6Projects.Cow
