import Xv6Projects.Cow.RefCounts

/-!
# Protected pages

Some pages are not for user code: the kernel half of every page table, and the page below the
user stack, from which `exec` takes `PTE_U` ("Make the first inaccessible").  A page fault at
such a page opens it to user code exactly when the page has several holders.
-/

namespace Xv6Projects.Cow

open Library Vm Finset

/-- Page `q` of process `i` is mapped. -/
def Maps (k : Kernel) (i : Slot) (q : ℕ) : Prop :=
  ∃ d e, (k.proc i).pgdir = some d ∧ d.entry q = some e

/-- Page `q` of process `i` is mapped without `PTE_U`. -/
def Closed (k : Kernel) (i : Slot) (q : ℕ) : Prop :=
  ∃ d e, (k.proc i).pgdir = some d ∧ d.entry q = some e ∧ e.u = false

/-- The pages of each process that lost `PTE_U` and have not been unmapped since, after an
operation, from the ones before it. -/
def protect (k : Kernel) (op : Op) (r : Reply) (k' : Kernel) (S : Slot → Set ℕ) : Slot → Set ℕ :=
  fun i => {q | q < NUPAGE ∧ Maps k' i q ∧
    (Closed k' i q ∨ ∃ j, origin k op r i = some j ∧ q ∈ S j)}

variable [Layout]

/-- One operation, with the record of the pages that lost `PTE_U`. -/
def RecordStep (s : Kernel × (Slot → Set ℕ)) (op : Op) (s' : Kernel × (Slot → Set ℕ)) : Prop :=
  Enabled s.1 op ∧ ∃ r, perform op s.1 = .ok (r, s'.1) ∧ s'.2 = protect s.1 op r s'.1 s.2

/-- The start, with an empty record. -/
def RecordBoot (free : List ℕ) (s : Kernel × (Slot → Set ℕ)) : Prop :=
  Boot free s.1 ∧ ∀ i, s.2 i = ∅

/-- The protected pages are protected: the kernel half of each page table is as `setupkvm` made
it, and no recorded page is open to user code. -/
structure Protected (s : Kernel × (Slot → Set ℕ)) : Prop where
  kernel : ∀ i d, (s.1.proc i).pgdir = some d → ∀ q, NUPAGE ≤ q → d.entry q = kernelEntry kmap q
  kpgdir : ∀ d, s.1.kpgdir = some d → ∀ q, NUPAGE ≤ q → d.entry q = kernelEntry kmap q
  closed : ∀ i q, q ∈ s.2 i → Closed s.1 i q

omit [Layout] in
/-- A page fault at a mapped page without `PTE_U` comes only when the counter of the page is at
most one. -/
def LowFaults (k : Kernel) : Op → Prop
  | .access c va user a _ => ∀ d e, (k.proc c).pgdir = some d → d.entry (va / PGSIZE) = some e →
      e.u = false → Pte.allows e user a = false → k.mem.alloc.pgRef e.pfn ≤ 1
  | _ => True

/-! ### What one operation does to closed pages -/

variable {R : Set ℕ} {k k' k'' : Kernel} {c : Slot}

/-- No page that was closed is open after the operation. -/
def StaysClosed (k : Kernel) (op : Op) (r : Reply) (k' : Kernel) : Prop :=
  ∀ i j q, q < NUPAGE → origin k op r i = some j → Closed k j q → Maps k' i q → Closed k' i q

omit [Layout] in
lemma origin_fork_child {r : Reply} {i : Slot} (hi : (k.proc i).state = .unused) :
    origin k (.fork c) r i = some c :=
  if_pos hi

omit [Layout] in
/-- The page tables did not change. -/
lemma Closed.congr {i : Slot} {q : ℕ} (hp : (k'.proc i).pgdir = (k.proc i).pgdir)
    (h : Closed k i q) : Closed k' i q := by
  obtain ⟨d, e, hd, he, hu⟩ := h
  exact ⟨d, e, hp.trans hd, he, hu⟩

omit [Layout] in
/-- Nothing is closed in an unused slot. -/
lemma Inv.not_closed [Layout] (h : Inv R k) {i : Slot} (hi : (k.proc i).state = .unused) {q : ℕ} :
    ¬Closed k i q := by
  rintro ⟨d, e, hd, -⟩
  rw [(h.unused hi).2] at hd
  exact absurd hd (by simp)

omit [Layout] in
/-- One process changes its page table, and leaves `PTE_U` as it is where a page stays
mapped. -/
lemma closed_setSpace {d d' : PageDir} {m : Mem Kmem} {sz : ℕ} (hd : (k.proc c).pgdir = some d)
    {q : ℕ} (hu : ∀ e e', d.entry q = some e → d'.entry q = some e' → e.u = false → e'.u = false)
    {i : Slot} (h : Closed k i q)
    (hmaps : Maps (k.setSpace c m d' sz) i q) : Closed (k.setSpace c m d' sz) i q := by
  rcases eq_or_ne i c with rfl | hi
  · obtain ⟨d₁, e, hd₁, he, heu⟩ := h
    obtain rfl := Option.some.inj (hd.symm.trans hd₁)
    obtain ⟨d₂, e', hd₂, he'⟩ := hmaps
    have hself : d' = d₂ := by
      rw [setSpace_proc] at hd₂
      exact Option.some.inj hd₂
    subst hself
    exact ⟨d', e', hd₂, he', hu e e' he he' heu⟩
  · exact h.congr (by rw [setSpace_other hi])

/-- All address spaces keep their sizes, their pages, and the pages' `PTE_U`. -/
structure SameUser (k k' : Kernel) : Prop where
  sz : ∀ i, (k'.proc i).sz = (k.proc i).sz
  user : ∀ i q, (k'.pte i q).map Pte.u = (k.pte i q).map Pte.u

omit [Layout] in
lemma SameUser.of_proc (hp : k'.proc = k.proc) : SameUser k k' :=
  ⟨fun i => by rw [hp], fun i q => by rw [Kernel.pte, Kernel.pte, hp]⟩

omit [Layout] in
lemma SameUser.refl (k : Kernel) : SameUser k k := .of_proc rfl

omit [Layout] in
lemma SameUser.trans (h : SameUser k k') (h' : SameUser k' k'') : SameUser k k'' :=
  ⟨fun i => (h'.sz i).trans (h.sz i), fun i q => (h'.user i q).trans (h.user i q)⟩

omit [Layout] in
lemma SameUser.setSpace {d d' : PageDir} {m : Mem Kmem} {sz : ℕ} (hd : (k.proc c).pgdir = some d)
    (hsz : sz = (k.proc c).sz) (hu : ∀ q, (d'.entry q).map Pte.u = (d.entry q).map Pte.u) :
    SameUser k (k.setSpace c m d' sz) := by
  refine ⟨fun i => ?_, fun i q => ?_⟩
  · rcases eq_or_ne i c with rfl | hi
    · rw [setSpace_proc, hsz]
    · rw [setSpace_other hi]
  · rw [pte_setSpace]
    split_ifs with hi
    · rw [hu q, hi, pte_of_pgdir hd]
    · rfl

omit [Layout] in
lemma closed_iff {i : Slot} {q : ℕ} : Closed k i q ↔ (k.pte i q).map Pte.u = some false := by
  rw [Option.map_eq_some_iff]
  constructor
  · rintro ⟨d, e, hd, he, hu⟩
    exact ⟨e, by rw [pte_of_pgdir hd, he], hu⟩
  · rintro ⟨e, he, hu⟩
    obtain ⟨d, hd, he⟩ := Option.bind_eq_some_iff.mp he
    exact ⟨d, e, hd, he, hu⟩

omit [Layout] in
lemma SameUser.closed (h : SameUser k k') {i : Slot} {q : ℕ} (hq : Closed k i q) :
    Closed k' i q := by
  rw [closed_iff] at hq ⊢
  rw [h.user i q, hq]

lemma Resized.closed {n : ℤ} {h h' : ℕ → ℕ} {d d' : PageDir} {sz sz' : ℕ} {m m' : Mem Kmem} {r : ℤ}
    (hr : Resized n h h' d d' sz sz' m m' r) (hd : DirOk d sz) {q : ℕ} {e e' : Pte}
    (hq : q < NUPAGE) (he : d.entry q = some e) (he' : d'.entry q = some e') (hu : e.u = false) :
    e'.u = false := by
  cases hr with
  | same _ hdir _ _ _ _ =>
    subst hdir
    obtain rfl := Option.some.inj (he.symm.trans he')
    exact hu
  | grown _ _ _ _ _ hfresh =>
    have hin : q < PGROUNDUP sz := by
      by_contra hge
      rw [hd.unmapped q (not_lt.mp hge) hq] at he
      exact absurd he (by simp)
    have hq' := hfresh q
    rw [if_neg (by omega), he', he] at hq'
    obtain rfl := Option.some.inj hq'
    exact hu
  | shrunk newsz _ _ _ hcl _ _ _ =>
    have hq' := hcl q
    rw [he'] at hq'
    split_ifs at hq' with hin
    rw [he] at hq'
    obtain rfl := Option.some.inj hq'
    exact hu

/-- `fork`: the child's pages are open where its parent's are. -/
lemma Forked.closed {i j i' : Slot} {f : ℕ} {d d' child : PageDir} {m' : Mem Kmem} (h : Inv R k)
    (hc : (k.proc c).state = .runnable) (hi : (k.proc i).state = .unused)
    (hf : Forked k k' c i f d d' child m') {r : Reply} {q : ℕ} (hq : q < NUPAGE)
    (hj : origin k (.fork c) r i' = some j) (hclosed : Closed k j q) (hmaps : Maps k' i' q) :
    Closed k' i' q := by
  obtain ⟨-, d₀, -, hd₀, hok⟩ := h.live (c := c) (by rw [hc]; simp)
  obtain rfl := Option.some.inj (hf.pgdir.symm.trans hd₀)
  have hic := ne_of_unused hc hi
  have hself := hf.parent_pgdir hic
  have hchild := hf.child_pgdir
  -- a closed page of the parent lies below its size
  have hread : Closed k c q → ∃ e, d.entry q = some e ∧ e.u = false ∧
      d'.entry q = some (Pte.readOnly e) ∧ child.entry q = some (Pte.readOnly e) := by
    rintro ⟨d₁, e, hd₁, he, hu⟩
    obtain rfl := Option.some.inj (hf.pgdir.symm.trans hd₁)
    have hin : q < PGROUNDUP (k.proc c).sz := by
      by_contra hge
      rw [hok.unmapped q (not_lt.mp hge) hq] at he
      exact absurd he (by simp)
    refine ⟨e, he, hu, ?_, ?_⟩
    · rw [hf.parent q, if_pos hin, he]
      rfl
    · rw [hf.child q, if_pos hin, he]
      rfl
  simp only [origin] at hj
  split_ifs at hj with hunused
  · obtain rfl := Option.some.inj hj
    rcases eq_or_ne i' i with rfl | hne
    · obtain ⟨e, -, hu, -, he⟩ := hread hclosed
      exact ⟨child, _, hchild, he, hu⟩
    · -- the other unused slots map nothing
      have hne' := ne_of_unused hc hunused
      obtain ⟨d₁, e, hd₁, -⟩ := hmaps
      rw [hf.proc_other hne hne', (h.unused hunused).2] at hd₁
      exact absurd hd₁ (by simp)
  · obtain rfl := Option.some.inj hj
    have hne : i' ≠ i := by
      rintro rfl
      exact hunused hi
    rcases eq_or_ne i' c with rfl | hne'
    · obtain ⟨e, -, hu, he, -⟩ := hread hclosed
      exact ⟨d', _, hself, he, hu⟩
    · exact hclosed.congr (by rw [hf.proc_other hne hne'])

/-! ### Page faults -/

lemma kernelEntry_u {q : ℕ} {e : Pte} (h : kernelEntry kmap q = some e) : e.u = false := by
  obtain ⟨l, -, rfl⟩ := Option.map_eq_some_iff.mp h
  rfl

/-- A page fault at a page with a low counter, or at a page that is open. -/
lemma fault_low (hR : ∀ f ∈ R, Kmem.Usable f) (h : Inv R k) (hc : (k.proc c).state = .runnable)
    {d : PageDir} (hd : (k.proc c).pgdir = some d) {va : ℕ}
    (hlow : ∀ e, d.entry (va / PGSIZE) = some e → e.u = false → k.mem.alloc.pgRef e.pfn ≤ 1) :
    Wp (fault c va) (fun _ => True) (fun _ k' => Inv R k' ∧ ∃ d' m',
      k' = k.setSpace c m' d' (k.proc c).sz ∧ Faulted k k' d d' (va / PGSIZE) m') k := by
  have hspec : va / PGSIZE < NUPAGE ∨ LowCount k d (va / PGSIZE) →
      Wp (fault c va) (fun _ => True) (fun _ k' => Inv R k' ∧ ∃ d' m',
        k' = k.setSpace c m' d' (k.proc c).sz ∧ Faulted k k' d d' (va / PGSIZE) m') k := by
    intro hva
    refine (fault_spec hR h hc hd hva).mono (fun _ k' hk' => ?_) fun _ _ => trivial
    obtain ⟨hinv, d', m', heq, -, -, hf⟩ := hk'
    exact ⟨hinv, d', m', heq, hf⟩
  rcases lt_or_ge (va / PGSIZE) NUPAGE with hv | hv
  · exact hspec (Or.inl hv)
  by_cases hcount : LowCount k d (va / PGSIZE)
  · exact hspec (Or.inr hcount)
  · -- a page without a counter
    obtain ⟨f, d₀, -, hd₀, hok⟩ := h.live (c := c) (by rw [hc]; simp)
    obtain rfl := Option.some.inj (hd.symm.trans hd₀)
    simp only [LowCount, not_forall, not_and, not_le] at hcount
    obtain ⟨e, he, hbig⟩ := hcount
    have hu := kernelEntry_u ((hok.kernel _ hv).symm.trans he)
    have hge : ¬e.pfn < NPAGE := fun hlt => absurd (hlow e he hu) (not_le.mpr (hbig hlt))
    have hread : getRefc e.pfn k.mem = .error (.outOfTable e.pfn) := by
      rw [getRefc, Kmem.getRefc_of_ge hge]
      rfl
    unfold fault cowHandler
    refine wp_bind (wp_pgdirOf hd (wp_bind (wp_vm ?_)))
    cases hp : d.pde (PDX (va / PGSIZE)) with
    | none => exact wp_throw trivial
    | some t =>
      rw [he]
      refine wp_bind ?_
      rw [Wp, hread]
      trivial

omit [Layout] in
/-- The handler keeps the pages that are mapped, and opens none with a low counter. -/
lemma Faulted.map_u {d d' : PageDir} {v : ℕ} {m' : Mem Kmem} (hf : Faulted k k' d d' v m')
    (hlow : ∀ e, d.entry v = some e → e.u = false → k.holders e.pfn ≤ 1) (q : ℕ) :
    (d'.entry q).map Pte.u = (d.entry q).map Pte.u := by
  cases hf with
  | user e hv he hh =>
    rcases eq_or_ne q v with rfl | hne
    · cases hh with
      | write _ hentry _ =>
        rw [hentry, Function.update_self, he]
        rfl
      | copy f hmany _ hentry _ =>
        -- a page with several holders was open before
        have hu : e.u = true := by
          by_contra hu
          exact absurd (hlow e he (by simpa using hu)) (not_le.mpr hmany)
        rw [hentry, Function.update_self, he, Option.map_some, Option.map_some, hu]
    · cases hh with
      | write _ hentry _ => rw [hentry, Function.update_of_ne hne]
      | copy _ _ _ hentry _ => rw [hentry, Function.update_of_ne hne]
  | kernel _ hentry _ => rw [hentry]

omit [Layout] in
/-- After a fault the condition on faults holds still. -/
lemma LowFaults.fault {va : ℕ} {user : Bool} {a : Access} {n : ℕ}
    (hs : LowFaults k (.access c va user a n)) {d d' : PageDir} {m' : Mem Kmem}
    (hd : (k.proc c).pgdir = some d)
    (hdeny : ∀ e, d.entry (va / PGSIZE) = some e → Pte.allows e user a = false)
    (hf : Faulted k (k.setSpace c m' d' (k.proc c).sz) d d' (va / PGSIZE) m') :
    LowFaults (k.setSpace c m' d' (k.proc c).sz) (.access c va user a n) := by
  intro d₁ e' hd₁ he' hu _
  rw [setSpace_proc] at hd₁
  obtain rfl := Option.some.inj hd₁
  cases hf with
  | user e₀ hv he₀ hh =>
    cases hh with
    | write _ hentry hmem =>
      rw [hentry, Function.update_self] at he'
      obtain rfl := Option.some.inj he'
      show m'.alloc.pgRef e₀.pfn ≤ 1
      rw [hmem]
      exact hs d e₀ hd he₀ hu (hdeny e₀ he₀)
    | copy f _ _ hentry _ =>
      rw [hentry, Function.update_self] at he'
      obtain rfl := Option.some.inj he'
      exact absurd hu (by simp)
  | kernel _ hentry hm =>
    rw [hentry] at he'
    show m'.alloc.pgRef e'.pfn ≤ 1
    rw [hm]
    exact hs d e' hd he' hu (hdeny e' he')

/-- **An access** opens and closes no page, when its faults come at low counters. -/
lemma access_user (hR : ∀ f ∈ R, Kmem.Usable f) (h : Inv R k) (hc : (k.proc c).state = .runnable)
    {va : ℕ} {user : Bool} {a : Access} {n : ℕ} (hs : LowFaults k (.access c va user a n)) :
    Wp (access c va user a n) (fun _ => True) (fun _ k' => Inv R k' ∧ SameUser k k') k := by
  refine access_rule (P := fun k' => (Inv R k' ∧ SameUser k k') ∧ (k'.proc c).state = .runnable ∧
    LowFaults k' (.access c va user a n)) (fun k' hk' => ?_) (fun k' d hk' hd hdeny => ?_)
    (fun k' _ _ hk' _ _ _ _ => hk'.1) (fun k' _ e b hk' _ _ _ _ => ?_) (fun k' hk' => hk'.1) n k
    ⟨⟨h, .refl k⟩, hc, hs⟩
  · obtain ⟨f, d, -, hd, -⟩ := hk'.1.1.live (c := c) (by rw [hk'.2.1]; simp)
    exact ⟨d, hd⟩
  · obtain ⟨⟨hinv, hsame⟩, hc', hs'⟩ := hk'
    have hlow : ∀ e, d.entry (va / PGSIZE) = some e → e.u = false → k'.mem.alloc.pgRef e.pfn ≤ 1 :=
      fun e he hu => hs' d e hd he hu (hdeny e he)
    refine (fault_low hR hinv hc' hd hlow).post fun _ k'' hk'' => ?_
    obtain ⟨hinv', d', m', rfl, hf⟩ := hk''
    have hlow' : ∀ e, d.entry (va / PGSIZE) = some e → e.u = false → k'.holders e.pfn ≤ 1 := by
      intro e he hu
      have hle := hlow e he hu
      rw [hinv.counts.count] at hle
      exact_mod_cast hle
    refine ⟨⟨hinv', hsame.trans (.setSpace hd rfl (hf.map_u hlow'))⟩, ?_, hs'.fault hd hdeny hf⟩
    rw [setSpace_proc]
    exact hc'
  · exact ⟨hk'.1.1.put _ _, hk'.1.2.trans (.of_proc rfl)⟩

/-! ### Runs -/

/-- **An effect** opens no page that was closed. -/
lemma Effect.staysClosed (h : Inv R k) {op : Op} {r : Reply} (he : Enabled k op)
    (heff : Effect k k' op r) : StaysClosed k op r k' := by
  intro i j q hq hj hclosed hmaps
  cases heff with
  | same horigin hproc _ =>
    obtain rfl := Option.some.inj ((horigin i).symm.trans hj)
    exact hclosed.congr (by rw [hproc])
  | booted i₀ f d m' hi₀ hk _ _ =>
    obtain rfl := Option.some.inj hj
    -- the new process was unused, and had no page
    have hne : i ≠ i₀ := by
      rintro rfl
      exact h.not_closed hi₀ hclosed
    exact hclosed.congr (by rw [hk, booted_other k f d m' hne])
  | forked i₀ f d d' child m' hi₀ hfork => exact hfork.closed h he hi₀ hq hj hclosed hmaps
  | image elf s d d' m' _ _ hk _ _ _ =>
    simp only [origin, and_true] at hj
    split_ifs at hj with hi
    obtain rfl := Option.some.inj hj
    exact hclosed.congr (by rw [hk, setSpace_other hi])
  | resized d d' sz' m' hd hk hr =>
    obtain ⟨-, d₀, -, hd₀, hok⟩ := h.live (by rw [he.1]; simp)
    obtain rfl := Option.some.inj hj
    obtain rfl := Option.some.inj (hd.symm.trans hd₀)
    subst hk
    exact closed_setSpace hd (fun e e' => hr.closed hok hq) hclosed hmaps
  | exited hk =>
    obtain rfl := Option.some.inj hj
    exact hclosed.congr (by rw [hk, (exited_proc k _ i).2.1])
  | reaped i₀ m' hk =>
    obtain rfl := Option.some.inj hj
    subst hk
    -- the process that is reaped maps nothing any more
    have hne : i ≠ i₀ := by
      rintro rfl
      obtain ⟨d, e, hd, -⟩ := hmaps
      rw [reaped_self] at hd
      exact absurd hd (by simp)
    exact hclosed.congr (by rw [reaped_other hne])

/-- **One operation** keeps the invariant, and opens no page that was closed. -/
lemma perform_closed (hR : ∀ f ∈ R, Kmem.Usable f) (h : Inv R k) {op : Op} (he : Enabled k op)
    (hs : LowFaults k op) :
    Wp (perform op) (fun _ => True) (fun r k' => Inv R k' ∧ StaysClosed k op r k') k := by
  rcases op.access_or with ⟨c, va, user, a, n, rfl⟩ | hop
  · refine (access_user hR h he.1 hs).bind
      fun r k' hk' => wp_pure ⟨hk'.1, fun i j q _ hj hq _ => ?_⟩
    obtain rfl := Option.some.inj hj
    exact hk'.2.closed hq
  · exact (perform_effect hR h he hop).mono (fun _ _ hk' => ⟨hk'.1, hk'.2.staysClosed h he⟩)
      fun _ _ => trivial

/-- The recorded runs from the free list `free` whose faults come at low counters. -/
def ProtectReach (free : List ℕ) : Kernel × (Slot → Set ℕ) → Prop :=
  Reachable (RecordBoot free) (Guarded RecordStep fun s => LowFaults s.1)

/-- **Protected pages stay protected**, in every run whose page faults at mapped pages without
`PTE_U` come at pages with a counter of at most one. -/
theorem protected_of_lowFaults {free : List ℕ} (hfree : FreeList free)
    {s : Kernel × (Slot → Set ℕ)} (h : ProtectReach free s) : Protected s := by
  have hinv : Inv {f | f ∈ free} s.1 ∧ ∀ i q, q ∈ s.2 i → Closed s.1 i q := by
    refine Reachable.invariant (I := fun s => Inv {f | f ∈ free} s.1 ∧
      ∀ i q, q ∈ s.2 i → Closed s.1 i q) (fun s hs => ?_) (fun s op s' hs hstep => ?_) h
    · refine ⟨Inv.boot hs.1, fun i q hq => ?_⟩
      rw [hs.2 i] at hq
      exact hq.elim
    · obtain ⟨⟨he, r, hr, hrecord⟩, hlow⟩ := hstep
      obtain ⟨hinv', hstays⟩ := (perform_closed hfree.usable hs.1 he hlow).ok hr
      refine ⟨hinv', fun i q hq => ?_⟩
      rw [hrecord] at hq
      obtain ⟨hlt, hmaps, hclosed | ⟨j, hj, hq⟩⟩ := hq
      · exact hclosed
      · exact hstays i j q hlt hj (hs.2 j q hq) hmaps
  obtain ⟨hinv, hclosed⟩ := hinv
  refine ⟨fun i d hd q hq => ?_, fun d hd q _ => ?_, hclosed⟩
  · have hlive : (s.1.proc i).state ≠ .unused := by
      intro hunused
      rw [(hinv.unused hunused).2] at hd
      exact absurd hd (by simp)
    obtain ⟨-, d₀, -, hd₀, hok⟩ := hinv.live hlive
    obtain rfl := Option.some.inj (hd.symm.trans hd₀)
    exact hok.kernel q hq
  · rw [hinv.kpgdir d hd]

omit [Layout] in
lemma recordStep_of_step [Layout] {s : Kernel × (Slot → Set ℕ)} {op : Op} (h : Step s.1 op k') :
    ∃ S r, RecordStep s op (k', S) ∧ S = protect s.1 op r k' s.2 := by
  obtain ⟨he, r, hr⟩ := h
  exact ⟨_, r, ⟨he, r, hr, rfl⟩, rfl⟩

/-- With enough free pages the first process gets a program with a guard page, and a child
inherits it. -/
lemma ProtectReach.exists_guard {free : List ℕ} (hfree : FreeList free)
    (hn : 3 * NPTENTRIES + 8 ≤ free.length) :
    ∃ s, ProtectReach free s ∧ 0 ∈ s.2 1 := by
  have hboot : Boot free (Kernel.boot free fun _ => zeroPage) := ⟨hfree, _, rfl⟩
  obtain ⟨k₁, k₂, d, hstep₁, he₂, hr₂, hinv₂, hrun, hsz, hd, hpages, hfirst, hs₂⟩ :=
    firstExec_ok (n := NPTENTRIES + 0 + 2) hfree (by omega)
  have htwo : PGROUNDUP (k₂.proc 0).sz = 2 := by rw [hsz, PGROUNDUP_mul]
  obtain ⟨e, he, -, hu⟩ := hpages 0 (by decide)
  have hu : e.u = false := by simpa using hu
  obtain ⟨k₃, hstep₃, -, ⟨f', d', child, m', hfork⟩, -⟩ :=
    fork_ok (n := 0) hfree.usable hinv₂ hrun hfirst hd (fun q hq => by
      obtain ⟨e, he, -⟩ := hpages q (by omega)
      rw [he]
      rfl) hs₂
  obtain ⟨S₁, r₁, hrec₁, hS₁⟩ := recordStep_of_step (s := (_, fun _ => ∅)) hstep₁
  obtain ⟨S₂, r₂, hrec₂, hS₂⟩ := recordStep_of_step (s := (_, S₁)) ⟨he₂, _, hr₂⟩
  obtain ⟨S₃, r₃, hrec₃, hS₃⟩ := recordStep_of_step (s := (_, S₂)) hstep₃
  refine ⟨(k₃, S₃), (((Reachable.start ⟨hboot, fun _ => rfl⟩).next ⟨hrec₁, trivial⟩).next
    ⟨hrec₂, trivial⟩).next ⟨hrec₃, trivial⟩, ?_⟩
  have hclosed : 0 ∈ S₂ 0 := by
    rw [hS₂]
    exact ⟨by decide, ⟨d, e, hd, he⟩, Or.inl ⟨d, e, hd, he, hu⟩⟩
  show 0 ∈ S₃ 1
  rw [hS₃]
  refine ⟨by decide, ⟨child, Pte.readOnly e, hfork.child_pgdir, ?_⟩, Or.inr ⟨0, ?_, hclosed⟩⟩
  · rw [hfork.child, if_pos (by rw [htwo]; decide), he]
    rfl
  · exact origin_fork_child (slots_find hfirst)

omit [Layout] in
/-- A child with a guard page. -/
theorem protected_of_lowFaults_guard : ∃ s, @ProtectReach Layout.sample sampleFree s ∧
    0 ∈ s.2 1 ∧ @Protected Layout.sample s := by
  obtain ⟨s, hs, hmem⟩ := @ProtectReach.exists_guard Layout.sample _ sampleFree_freeList
    (by rw [sampleFree, List.length_range']; decide)
  exact ⟨s, hs, hmem, @protected_of_lowFaults Layout.sample _ sampleFree_freeList s hs⟩

/-! ### Faults at shared pages -/

/-- The kernel maps each page of free memory at its physical address. -/
lemma kernelEntry_p2v {f : ℕ} (hf : Kmem.Usable f) :
    ∃ e, kernelEntry kmap (NUPAGE + f) = some e ∧ e.pfn = f := by
  have h1 := Layout.kernlink_lt
  have h2 := Layout.data_le
  have h3 := Layout.data_aligned
  have h4 := Layout.kend_lt
  have hkend := hf.1
  have hlt : f < 57344 := hf.2
  simp only [PGSIZE, KERNLINK, KERNBASE, EXTMEM, PHYSTOP] at h1 h2 h3 h4 hkend
  have hcov : ∀ l : Kmap, l ∈ kmap → l.Covers (NUPAGE + f) → (l.pte (NUPAGE + f)).pfn = f := by
    intro l hl hc
    simp only [kmap, List.mem_cons, List.not_mem_nil, or_false] at hl
    rcases hl with rfl | rfl | rfl | rfl <;>
      simp only [Kmap.Covers, Kmap.pte, Kmap.size, NUPAGE, PGSIZE, KERNLINK, KERNBASE, EXTMEM,
        PHYSTOP, DEVSPACE] at hc ⊢ <;> omega
  have hdata : (⟨Layout.data, Layout.data - KERNBASE, PHYSTOP, true⟩ : Kmap).Covers (NUPAGE + f) := by
    simp only [Kmap.Covers, Kmap.size, NUPAGE, PGSIZE, KERNBASE, PHYSTOP]
    omega
  have hfound : (kmap.find? fun l => decide (l.Covers (NUPAGE + f))).isSome := by
    rw [List.find?_isSome]
    exact ⟨⟨Layout.data, Layout.data - KERNBASE, PHYSTOP, true⟩, by simp [kmap], by simpa using hdata⟩
  obtain ⟨l, hl⟩ := Option.isSome_iff_exists.mp hfound
  have hin := List.find?_some hl
  refine ⟨l.pte (NUPAGE + f), by rw [kernelEntry, hl]; rfl, hcov l (List.mem_of_find?_eq_some hl) ?_⟩
  simpa using hin

/-- **A fault at a page with several holders** gives the process a copy that user code may
write, whatever the entry was. -/
lemma fault_shared (hR : ∀ f ∈ R, Kmem.Usable f) (h : Inv R k) {d : PageDir}
    (hd : (k.proc c).pgdir = some d) {va : ℕ} {e : Pte} (he : d.entry (va / PGSIZE) = some e)
    (hmany : 1 < k.holders e.pfn) (hs : Supply k.mem.alloc 1) :
    Wp (fault c va) (fun _ => False) (fun _ k' => ∃ d' f, (k'.proc c).pgdir = some d' ∧
      d'.entry (va / PGSIZE) = some ⟨f, true, true⟩) k := by
  have hlt : e.pfn < NPAGE := (hR _ (h.counts.held _ (by omega))).2
  have hcount : k.mem.alloc.pgRef e.pfn = k.holders e.pfn := h.counts.count _
  have hread : getRefc e.pfn k.mem = .ok (k.mem.alloc.pgRef e.pfn, k.mem) := by
    rw [getRefc, Kmem.getRefc_of_lt hlt]
    rfl
  unfold fault cowHandler
  refine wp_bind (wp_pgdirOf hd (wp_bind (wp_vm ?_)))
  cases hp : d.pde (PDX (va / PGSIZE)) with
  | none =>
    rw [PageDir.entry, hp] at he
    exact absurd he (by simp)
  | some t =>
    rw [he]
    refine wp_bind ?_
    rw [Wp, hread]
    refine wp_ite (fun _ => ?_) fun hle => absurd (by rw [hcount]; exact_mod_cast hmany) hle
    refine Wp.bind (((kalloc_counts hR h.counts).and (kalloc_supply hs)).mono
      (fun _ _ h => h) fun e he => he.2 he.1) fun r m₁ hr => ?_
    obtain ⟨⟨f, rfl, -, -, hc₁, -⟩, -⟩ := hr
    refine wp_bind (wp_getPage (wp_bind (wp_setPage ?_)))
    have hpos : (m₁.put f (m₁.pages e.pfn)).alloc.pgRef e.pfn ≠ 0 := by
      have h₁ := hc₁.count e.pfn
      rw [Pi.add_apply] at h₁
      rw [Mem.put_alloc, h₁]
      omega
    refine wp_bind ?_
    have hdec := Kmem.decrRefc_of_lt hlt hpos
    rw [Wp, decrRefc, hdec]
    refine wp_pure (wp_setDir ⟨_, f, congrArg Proc.pgdir (setSpace_proc _ _ _), ?_⟩)
    rw [PageDir.setEntry_entry d (d.table_isSome_of_entry he), Function.update_self]

/-- With enough free pages, the first process reaches the kernel half of its page table: it
forks, and stores to its own page at the address where the kernel maps it. -/
lemma exists_not_protected {free : List ℕ} (hfree : FreeList free)
    (hn : 2 * NPTENTRIES + 6 ≤ free.length) :
    ∃ s, Reachable (RecordBoot free) RecordStep s ∧ ¬Protected s := by
  have hboot : Boot free (Kernel.boot free fun _ => zeroPage) := ⟨hfree, _, rfl⟩
  obtain ⟨_, k₂, f, d, m, f', d', child, m', rfl, hstep₁, hstep₂, hinv₂, hshows, hown, hfork,
    hproc, hs₂⟩ := firstFork_ok (n := 1) hfree hn
  -- page 0 has two holders now
  obtain ⟨e, he, -⟩ := hshows.mapped 0 (by decide)
  have hone := (hown 0 e (by decide) he).2.1
  have hmany : 1 < k₂.holders e.pfn := by
    have hcount := hfork.count e.pfn (by omega)
    have huser := one_le_userHolds (by decide) he
    omega
  have husable := hfree.usable _ (hinv₂.counts.held _ (by omega : 0 < k₂.holders e.pfn))
  have hlive : (k₂.proc 0).state = .runnable := by rw [hproc]; rfl
  have hd' : (k₂.proc 0).pgdir = some d' := by rw [hproc]
  obtain ⟨-, d₀, -, hd₀, hok⟩ := hinv₂.live (c := 0) (by rw [hlive]; simp)
  obtain rfl := Option.some.inj (hd'.symm.trans hd₀)
  obtain ⟨e', he', hpfn⟩ := kernelEntry_p2v husable
  have hv : (KERNBASE + e.pfn * PGSIZE) / PGSIZE = NUPAGE + e.pfn := by
    simp only [KERNBASE, PGSIZE, NUPAGE]
    omega
  have hentry : d'.entry ((KERNBASE + e.pfn * PGSIZE) / PGSIZE) = some e' := by
    rw [hv, hok.kernel _ (Nat.le_add_right _ _), he']
  have hstore : Wp (perform (.access 0 (KERNBASE + e.pfn * PGSIZE) true (.store 0) 1))
      (fun _ => False) (fun _ k' => ∃ d' f, (k'.proc 0).pgdir = some d' ∧
        d'.entry (NUPAGE + e.pfn) = some ⟨f, true, true⟩) k₂ := by
    have hdeny : (some e').filter (fun e => Pte.allows e true (.store 0)) = none := by
      simp [Option.filter, Pte.allows, kernelEntry_u he']
    have hfault := fault_shared hfree.usable hinv₂ hd' hentry (by rw [hpfn]; exact hmany) hs₂
    unfold perform access
    refine wp_bind (wp_bind (wp_pgdirOf hd' ?_))
    rw [hentry, hdeny, ← hv]
    exact hfault.bind fun _ k' hk' => wp_pure (wp_pure hk')
  obtain ⟨r, k₃, hr, d₃, f₃, hd₃, he₃⟩ := hstore.exists_ok fun _ => id
  have hstep₃ : Step k₂ (.access 0 (KERNBASE + e.pfn * PGSIZE) true (.store 0) 1) k₃ := by
    refine ⟨⟨hlive, ?_⟩, r, hr⟩
    have hlt : e.pfn < 57344 := husable.2
    simp only [KERNBASE, PGSIZE]
    omega
  obtain ⟨S₁, r₁, hrec₁, hS₁⟩ := recordStep_of_step (s := (_, fun _ => ∅)) hstep₁
  obtain ⟨S₂, r₂, hrec₂, hS₂⟩ := recordStep_of_step (s := (_, S₁)) hstep₂
  obtain ⟨S₃, r₃, hrec₃, hS₃⟩ := recordStep_of_step (s := (_, S₂)) hstep₃
  refine ⟨(k₃, S₃), (((Reachable.start ⟨hboot, fun _ => rfl⟩).next hrec₁).next hrec₂).next hrec₃,
    fun hp => ?_⟩
  have hkernel := hp.kernel 0 d₃ hd₃ _ (Nat.le_add_right NUPAGE e.pfn)
  rw [he₃, he'] at hkernel
  have hu := kernelEntry_u (he'.trans hkernel.symm)
  exact absurd hu (by simp)

omit [Layout] in
/-- Not every run keeps the protected pages protected. -/
theorem protected_not_kept : ¬∀ s, Reachable (@RecordBoot Layout.sample sampleFree)
    (@RecordStep Layout.sample) s → @Protected Layout.sample s := by
  intro hall
  obtain ⟨s, hs, hnot⟩ := @exists_not_protected Layout.sample _ sampleFree_freeList
    (by rw [sampleFree, List.length_range']; decide)
  exact hnot (hall s hs)

end Xv6Projects.Cow
