import Xv6Projects.Cow.Protection

/-!
# The page faults of user code (project04)

`trap` gives every page fault to `CoW_handler`, which looks neither at the error code nor at
`PTE_U` nor at the size of the process, and it never marks the process as killed.  So what a
fault does depends on the page table entry, on the counter of the page, and on the free list:
this module says for which of them a fault of user code ends as it should.
-/

namespace Xv6Projects.Cow

open Library Vm

/-- The kernel, and the field `killed` of each process. -/
structure Trapping where
  kernel : Kernel
  killed : Slot → Bool

/-- The traps that user code causes by an instruction other than a system call: a page fault
(`T_PGFLT`) at an address, and the exceptions that `trap` does not name. -/
inductive Exception
  | pgflt (va : ℕ)
  | other

/-- What process `c` has at page `v`. -/
def Kernel.contents (k : Kernel) (c : Slot) (v : ℕ) : Option Page :=
  (k.pte c v).map fun e => k.mem.pages e.pfn

/-- User code of process `c` performs access `x` at address `va`, and the processor refuses. -/
structure UserFault (k : Kernel) (c : Slot) (va : ℕ) (x : Access) : Prop where
  running : (k.proc c).state = .runnable
  word : va < 2 ^ 32
  pgdir : (k.proc c).pgdir.isSome
  refused : ∀ e, k.pte c (va / PGSIZE) = some e → Pte.allows e true x = false

/-- The access is a write to a present page of the user, below the size of the process, whose
`PTE_W` is clear. -/
def CowWrite (k : Kernel) (c : Slot) (va : ℕ) (x : Access) : Prop :=
  (∃ b, x = .store b) ∧ va < (k.proc c).sz ∧
    ∃ e, k.pte c (va / PGSIZE) = some e ∧ e.u = true ∧ e.w = false

/-- Page `v` of process `c` is present, open to the user and writable, with the contents it
had. -/
def Resolved (k k' : Kernel) (c : Slot) (v : ℕ) : Prop :=
  (∃ e, k'.pte c v = some e ∧ e.u = true ∧ e.w = true) ∧ k'.contents c v = k.contents c v

/-- The process is marked as killed, and no page table entry and no counter changes. -/
structure Refused (s s' : Trapping) (c : Slot) : Prop where
  killed : s'.killed c = true
  pte : ∀ i v, s'.kernel.pte i v = s.kernel.pte i v
  counts : s'.kernel.mem.alloc.pgRef = s.kernel.mem.alloc.pgRef

/-- The handler can make the page of entry `e` writable: the page has one user, or a free page
takes the copy. -/
def Resolvable (a : Kmem) (e : Pte) : Prop :=
  e.pfn < NPAGE ∧ (a.pgRef e.pfn = 1 ∨
    1 < a.pgRef e.pfn ∧ ∃ f l, a.freelist = f :: l ∧ f < NPAGE ∧ a.pgRef f = 0)

/-- The handler finds nothing to do for entry `e`. -/
def Idle (a : Kmem) (e : Pte) : Prop :=
  e.pfn < NPAGE ∧ (a.pgRef e.pfn < 1 ∨ a.pgRef e.pfn = 1 ∧ e.w = true)

variable [Layout]

/-- The `switch` of `trap` for an exception in user code of process `c`. -/
def trap (c : Slot) : Exception → Prog Trapping Err Unit
  | .pgflt va => zoom Trapping.kernel (fun s k => { s with kernel := k }) (fault c va)
  | .other => modify fun s => { s with killed := Function.update s.killed c true }

/-- The page fault ends as it should: a write to a copy-on-write page is resolved, and any
other fault kills the process and changes nothing else; in both cases without a panic. -/
def FaultRight (s : Trapping) (c : Slot) (va : ℕ) (x : Access) : Prop :=
  ∃ s', trap c (.pgflt va) s = .ok ((), s') ∧
    (CowWrite s.kernel c va x → Resolved s.kernel s'.kernel c (va / PGSIZE)) ∧
    (¬CowWrite s.kernel c va x → Refused s s' c)

/-- The fault is a write to a copy-on-write page that the handler can resolve, or it happens to
a process that is already killed, at a page for which the handler finds nothing to do. -/
def FaultSafe (s : Trapping) (c : Slot) (va : ℕ) (x : Access) : Prop :=
  ∃ e, s.kernel.pte c (va / PGSIZE) = some e ∧
    (CowWrite s.kernel c va x → Resolvable s.kernel.mem.alloc e) ∧
    (¬CowWrite s.kernel c va x → s.killed c = true ∧ Idle s.kernel.mem.alloc e)

/-! ### What the handler does -/

section
variable {d : PageDir} {va : ℕ} {m : Mem Kmem} {e : Pte}

lemma cowHandler_absent (he : d.entry (va / PGSIZE) = none) :
    ∃ err, cowHandler d va m = .error err := by
  unfold cowHandler
  cases hp : d.pde (PDX (va / PGSIZE)) with
  | none => exact ⟨_, rfl⟩
  | some t =>
    rw [he]
    exact ⟨_, rfl⟩

/-- The handler for a present page reads the counter of the page. -/
lemma cowHandler_present (he : d.entry (va / PGSIZE) = some e) :
    cowHandler d va = (do
      let refc ← getRefc e.pfn
      if 1 < refc then
        match ← kalloc with
        | none => panic "CoW_handler: kalloc"
        | some f => do
            setPage f (← getPage e.pfn)
            decrRefc e.pfn
            return d.setEntry (va / PGSIZE) (some ⟨f, true, true⟩)
      else if refc = 1 then return d.setEntry (va / PGSIZE) (some { e with w := true })
      else return d) := by
  unfold cowHandler
  cases hp : d.pde (PDX (va / PGSIZE)) with
  | none =>
    rw [PageDir.entry, hp] at he
    exact absurd he (by simp)
  | some t =>
    rewrite [he]
    rfl

omit [Layout] in
lemma getRefc_ok (hlt : e.pfn < NPAGE) : getRefc e.pfn m = .ok (m.alloc.pgRef e.pfn, m) := by
  rw [getRefc, Kmem.getRefc_of_lt hlt]
  rfl

/-- A counter outside the table is read. -/
lemma cowHandler_outOfTable (he : d.entry (va / PGSIZE) = some e) (hge : ¬e.pfn < NPAGE) :
    cowHandler d va m = .error (.outOfTable e.pfn) := by
  rw [cowHandler_present he]
  refine bind_error ?_
  rw [getRefc, Kmem.getRefc_of_ge hge]
  rfl

/-- A page without users. -/
lemma cowHandler_unused (he : d.entry (va / PGSIZE) = some e) (hlt : e.pfn < NPAGE)
    (hr : m.alloc.pgRef e.pfn < 1) : cowHandler d va m = .ok (d, m) := by
  rw [cowHandler_present he, bind_ok (getRefc_ok hlt), if_neg (by omega), if_neg (by omega)]
  rfl

/-- A page with one user becomes writable. -/
lemma cowHandler_one (he : d.entry (va / PGSIZE) = some e) (hlt : e.pfn < NPAGE)
    (hr : m.alloc.pgRef e.pfn = 1) :
    cowHandler d va m = .ok (d.setEntry (va / PGSIZE) (some { e with w := true }), m) := by
  rw [cowHandler_present he, bind_ok (getRefc_ok hlt), if_neg (by omega), if_pos hr]
  rfl

/-- The memory after a page with several users is copied to the free page `f`. -/
def copied (m : Mem Kmem) (e : Pte) (f : ℕ) (l : List ℕ) : Mem Kmem :=
  { alloc :=
      { freelist := l
        pgRef := Function.update (Function.update m.alloc.pgRef f 1) e.pfn
          (m.alloc.pgRef e.pfn - 1) }
    pages := Function.update m.pages f (m.pages e.pfn) }

/-- A page with several users is copied to a free page. -/
lemma cowHandler_copy (he : d.entry (va / PGSIZE) = some e) (hlt : e.pfn < NPAGE)
    (hr : 1 < m.alloc.pgRef e.pfn) {f : ℕ} {l : List ℕ} (hfree : m.alloc.freelist = f :: l)
    (hf : f < NPAGE) (hzero : m.alloc.pgRef f = 0) :
    cowHandler d va m =
      .ok (d.setEntry (va / PGSIZE) (some ⟨f, true, true⟩), copied m e f l) := by
  have hne : e.pfn ≠ f := by
    rintro rfl
    omega
  set m₁ : Mem Kmem := { m with alloc := ⟨l, Function.update m.alloc.pgRef f 1⟩ } with hm₁
  have hkalloc : kalloc m = .ok (some f, m₁) := by
    show Except.map _ (Kmem.kalloc m.alloc) = _
    rw [Kmem.kalloc_cons hfree hf hzero, hzero]
    rfl
  have hcount : (m₁.put f (m.pages e.pfn)).alloc.pgRef e.pfn = m.alloc.pgRef e.pfn :=
    Function.update_of_ne hne _ _
  have hdecr : decrRefc e.pfn (m₁.put f (m.pages e.pfn)) = .ok ((), copied m e f l) := by
    rw [decrRefc, Kmem.decrRefc_of_lt hlt (by rw [hcount]; omega), hcount]
    rfl
  rw [cowHandler_present he, bind_ok (getRefc_ok hlt), if_pos hr, bind_ok hkalloc]
  show (decrRefc e.pfn >>= fun _ => pure (d.setEntry (va / PGSIZE) (some ⟨f, true, true⟩)))
    (m₁.put f (m.pages e.pfn)) = _
  rw [bind_ok hdecr]
  rfl

/-- A page with several users, and no free page that can take a copy. -/
lemma cowHandler_full (he : d.entry (va / PGSIZE) = some e) (hlt : e.pfn < NPAGE)
    (hr : 1 < m.alloc.pgRef e.pfn)
    (hfull : ¬∃ f l, m.alloc.freelist = f :: l ∧ f < NPAGE ∧ m.alloc.pgRef f = 0) :
    ∃ err, cowHandler d va m = .error err := by
  rw [cowHandler_present he, bind_ok (getRefc_ok hlt), if_pos hr]
  suffices hkalloc : ∃ err, m.alloc.kalloc = .error err by
    obtain ⟨err, herr⟩ := hkalloc
    refine ⟨err, bind_error ?_⟩
    show Except.map _ (Kmem.kalloc m.alloc) = _
    rw [herr]
    rfl
  cases hfree : m.alloc.freelist with
  | nil => exact ⟨_, Kmem.kalloc_nil hfree⟩
  | cons f l =>
    by_cases hf : f < NPAGE
    · have hused : m.alloc.pgRef f ≠ 0 := fun hzero => hfull ⟨f, l, hfree, hf, hzero⟩
      refine ⟨.panic "kalloc: not freelist", ?_⟩
      simp only [Kmem.kalloc, hfree, List.head?_cons, Option.getD_some, Kmem.getRefc_of_lt hf]
      exact if_neg hused
    · refine ⟨.outOfTable f, ?_⟩
      simp only [Kmem.kalloc, hfree, List.head?_cons, Option.getD_some, Kmem.getRefc_of_ge hf]
      rfl

end

/-! ### What the fault does -/

section
variable {s : Trapping} {c : Slot} {va : ℕ} {d : PageDir}

lemma fault_ok {k : Kernel} (hd : (k.proc c).pgdir = some d) {d' : PageDir} {m' : Mem Kmem}
    (h : cowHandler d va k.mem = .ok (d', m')) :
    fault c va k = .ok ((), k.setSpace c m' d' (k.proc c).sz) := by
  have hvm : vm (cowHandler d va) k = .ok (d', k.setMem m') := zoom_ok h
  rw [fault, bind_ok (pgdirOf_ok hd), bind_ok hvm]
  rfl

lemma fault_error {k : Kernel} (hd : (k.proc c).pgdir = some d) {err : Err}
    (h : cowHandler d va k.mem = .error err) : fault c va k = .error err := by
  rw [fault, bind_ok (pgdirOf_ok hd)]
  exact bind_error (zoom_error h)

/-- The handler returns. -/
lemma trap_ok (hd : (s.kernel.proc c).pgdir = some d) {d' : PageDir} {m' : Mem Kmem}
    (h : cowHandler d va s.kernel.mem = .ok (d', m')) :
    trap c (.pgflt va) s =
      .ok ((), { s with kernel := s.kernel.setSpace c m' d' (s.kernel.proc c).sz }) := by
  rw [trap, zoom, fault_ok hd h]
  rfl

/-- The handler panics, or reads a counter outside the table. -/
lemma trap_error (hd : (s.kernel.proc c).pgdir = some d) {err : Err}
    (h : cowHandler d va s.kernel.mem = .error err) : trap c (.pgflt va) s = .error err := by
  rw [trap, zoom, fault_error hd h]
  rfl

/-- **A page fault**: what `trap` does, by the entry and the counter of its page. -/
lemma trap_pgflt (va : ℕ) (hd : (s.kernel.proc c).pgdir = some d) :
    ((∃ err, trap c (.pgflt va) s = .error err) ∧ ∀ e, d.entry (va / PGSIZE) = some e →
      ¬Resolvable s.kernel.mem.alloc e ∧ ¬Idle s.kernel.mem.alloc e) ∨
    ∃ e, d.entry (va / PGSIZE) = some e ∧ e.pfn < NPAGE ∧
      ((s.kernel.mem.alloc.pgRef e.pfn < 1 ∧ trap c (.pgflt va) s = .ok ((), s)) ∨
      (s.kernel.mem.alloc.pgRef e.pfn = 1 ∧ trap c (.pgflt va) s = .ok ((), { s with
        kernel := s.kernel.setSpace c s.kernel.mem
          (d.setEntry (va / PGSIZE) (some { e with w := true })) (s.kernel.proc c).sz })) ∨
      (1 < s.kernel.mem.alloc.pgRef e.pfn ∧ ∃ f l, s.kernel.mem.alloc.freelist = f :: l ∧
        f < NPAGE ∧ s.kernel.mem.alloc.pgRef f = 0 ∧ trap c (.pgflt va) s = .ok ((), { s with
          kernel := s.kernel.setSpace c (copied s.kernel.mem e f l)
            (d.setEntry (va / PGSIZE) (some ⟨f, true, true⟩)) (s.kernel.proc c).sz }))) := by
  cases he : d.entry (va / PGSIZE) with
  | none =>
    obtain ⟨err, herr⟩ := cowHandler_absent (m := s.kernel.mem) he
    exact Or.inl ⟨⟨err, trap_error hd herr⟩, fun e he' => absurd he' (by simp)⟩
  | some e =>
    by_cases hlt : e.pfn < NPAGE
    · rcases lt_trichotomy (s.kernel.mem.alloc.pgRef e.pfn) 1 with hr | hr | hr
      · refine Or.inr ⟨e, rfl, hlt, Or.inl ⟨hr, ?_⟩⟩
        rw [trap_ok hd (cowHandler_unused he hlt hr), setSpace_self hd]
      · exact Or.inr ⟨e, rfl, hlt, Or.inr (Or.inl ⟨hr, trap_ok hd (cowHandler_one he hlt hr)⟩)⟩
      · by_cases hfull : ∃ f l, s.kernel.mem.alloc.freelist = f :: l ∧ f < NPAGE ∧
          s.kernel.mem.alloc.pgRef f = 0
        · obtain ⟨f, l, hfree, hf, hzero⟩ := hfull
          exact Or.inr ⟨e, rfl, hlt, Or.inr (Or.inr ⟨hr, f, l, hfree, hf, hzero,
            trap_ok hd (cowHandler_copy he hlt hr hfree hf hzero)⟩)⟩
        · obtain ⟨err, herr⟩ := cowHandler_full he hlt hr hfull
          refine Or.inl ⟨⟨err, trap_error hd herr⟩, fun e' he' => ?_⟩
          obtain rfl := Option.some.inj he'
          exact ⟨fun h => h.2.elim (fun h => by omega) fun h => hfull h.2,
            fun h => h.2.elim (fun h => by omega) fun h => by omega⟩
    · refine Or.inl ⟨⟨_, trap_error hd (cowHandler_outOfTable he hlt)⟩, fun e' he' => ?_⟩
      obtain rfl := Option.some.inj he'
      exact ⟨fun h => hlt h.1, fun h => hlt h.1⟩

end

/-! ### When a fault ends as it should -/

section
variable {s s' : Trapping} {c : Slot} {va : ℕ} {x : Access} {d : PageDir} {e : Pte}

lemma faultRight_of_ok (h : trap c (.pgflt va) s = .ok ((), s')) : FaultRight s c va x ↔
    (CowWrite s.kernel c va x → Resolved s.kernel s'.kernel c (va / PGSIZE)) ∧
      (¬CowWrite s.kernel c va x → Refused s s' c) := by
  constructor
  · rintro ⟨s₁, h₁, hright⟩
    rw [h] at h₁
    injection h₁ with h₁
    injection h₁ with _ h₁
    subst h₁
    exact hright
  · exact fun hright => ⟨s', h, hright⟩

omit [Layout] in
lemma faultSafe_of_entry (hd : (s.kernel.proc c).pgdir = some d)
    (he : d.entry (va / PGSIZE) = some e) : FaultSafe s c va x ↔
    (CowWrite s.kernel c va x → Resolvable s.kernel.mem.alloc e) ∧
      (¬CowWrite s.kernel c va x → s.killed c = true ∧ Idle s.kernel.mem.alloc e) := by
  rw [← pte_of_pgdir hd] at he
  constructor
  · rintro ⟨e', he', hsafe⟩
    obtain rfl := Option.some.inj (he.symm.trans he')
    exact hsafe
  · exact fun hsafe => ⟨e, he, hsafe⟩

omit [Layout] in
lemma CowWrite.entry (h : CowWrite s.kernel c va x) (hd : (s.kernel.proc c).pgdir = some d)
    (he : d.entry (va / PGSIZE) = some e) : e.u = true ∧ e.w = false := by
  obtain ⟨-, -, e', he', hu, hw⟩ := h
  rw [pte_of_pgdir hd, he] at he'
  obtain rfl := Option.some.inj he'
  exact ⟨hu, hw⟩

omit [Layout] in
/-- The entry of a present page is written. -/
lemma pte_setEntry {k : Kernel} (hd : (k.proc c).pgdir = some d) {v : ℕ} (he : d.entry v = some e)
    (e' : Pte) (m : Mem Kmem) (sz : ℕ) (i : Slot) (q : ℕ) :
    (k.setSpace c m (d.setEntry v (some e')) sz).pte i q =
      if i = c ∧ q = v then some e' else k.pte i q := by
  rw [pte_setSpace, PageDir.setEntry_entry d (d.table_isSome_of_entry he)]
  by_cases hi : i = c
  · subst hi
    by_cases hq : q = v
    · subst hq
      rw [if_pos rfl, if_pos ⟨rfl, rfl⟩, Function.update_self]
    · rw [if_pos rfl, if_neg fun h => hq h.2, Function.update_of_ne hq, pte_of_pgdir hd]
  · rw [if_neg hi, if_neg fun h => hi h.1]

omit [Layout] in
/-- A page that gets a writable entry with its contents is resolved. -/
lemma resolved_setEntry (hd : (s.kernel.proc c).pgdir = some d) {v : ℕ}
    (he : d.entry v = some e) {e' : Pte} {m : Mem Kmem} (sz : ℕ) (hu : e'.u = true)
    (hw : e'.w = true) (hpage : m.pages e'.pfn = s.kernel.mem.pages e.pfn) :
    Resolved s.kernel (s.kernel.setSpace c m (d.setEntry v (some e')) sz) c v := by
  have hpte := pte_setEntry hd he e' m sz c v
  rw [if_pos ⟨rfl, rfl⟩] at hpte
  refine ⟨⟨e', hpte, hu, hw⟩, ?_⟩
  rw [Kernel.contents, Kernel.contents, hpte, pte_of_pgdir hd, he]
  exact congrArg some hpage

/-- **When a page fault ends as it should**: a write to a copy-on-write page needs a counter of
one, or a free page for the copy; any other fault is right only where the process is already
killed and the handler has nothing to do. -/
theorem faultRight_iff (h : UserFault s.kernel c va x) :
    FaultRight s c va x ↔ FaultSafe s c va x := by
  obtain ⟨d, hd⟩ := Option.isSome_iff_exists.mp h.pgdir
  rcases trap_pgflt va hd with ⟨⟨err, herr⟩, hno⟩ | ⟨e, he, hlt, hcase⟩
  · constructor
    · rintro ⟨s', hs', -⟩
      exact absurd (herr.symm.trans hs') (by simp)
    · rintro ⟨e, he, hcow, hkill⟩
      rw [pte_of_pgdir hd] at he
      by_cases hw : CowWrite s.kernel c va x
      · exact absurd (hcow hw) (hno e he).1
      · exact absurd (hkill hw).2 (hno e he).2
  · rw [faultSafe_of_entry hd he]
    rcases hcase with ⟨hr, htrap⟩ | ⟨hr, htrap⟩ | ⟨hr, f, l, hfree, hf, hzero, htrap⟩
    · -- no user: the handler does nothing
      rw [faultRight_of_ok htrap]
      refine and_congr (imp_congr_right fun hcow => iff_of_false ?_ ?_)
        (imp_congr_right fun _ => ⟨fun hs => ⟨hs.killed, hlt, Or.inl hr⟩,
          fun hk => ⟨hk.1, fun _ _ => rfl, rfl⟩⟩)
      · rintro ⟨⟨e', he', -, hw⟩, -⟩
        rw [pte_of_pgdir hd, he] at he'
        obtain rfl := Option.some.inj he'
        exact absurd hw (by simp [(hcow.entry hd he).2])
      · rintro ⟨-, hone | ⟨hmany, -⟩⟩ <;> omega
    · -- one user: `PTE_W` is set
      rw [faultRight_of_ok htrap]
      refine and_congr (imp_congr_right fun hcow => iff_of_true ?_ ⟨hlt, Or.inl hr⟩)
        (imp_congr_right fun _ => ?_)
      · exact resolved_setEntry hd he _ (hcow.entry hd he).1 rfl rfl
      · have hpte := pte_setEntry hd he { e with w := true } s.kernel.mem (s.kernel.proc c).sz
        constructor
        · intro hs
          have hsame := hs.pte c (va / PGSIZE)
          rw [hpte, if_pos ⟨rfl, rfl⟩, pte_of_pgdir hd, he] at hsame
          have hw := congrArg Pte.w (Option.some.inj hsame)
          exact ⟨hs.killed, hlt, Or.inr ⟨hr, hw.symm⟩⟩
        · rintro ⟨hk, -, hidle⟩
          have hw : e.w = true := hidle.elim (fun h => by omega) And.right
          refine ⟨hk, fun i v => ?_, rfl⟩
          rw [hpte]
          by_cases hiv : i = c ∧ v = va / PGSIZE
          · obtain ⟨rfl, rfl⟩ := hiv
            rw [if_pos ⟨rfl, rfl⟩, pte_of_pgdir hd, he, ← hw]
          · rw [if_neg hiv]
    · -- several users: the page is copied
      rw [faultRight_of_ok htrap]
      refine and_congr (imp_congr_right fun hcow => iff_of_true ?_
        ⟨hlt, Or.inr ⟨hr, f, l, hfree, hf, hzero⟩⟩) (imp_congr_right fun _ => iff_of_false ?_ ?_)
      · exact resolved_setEntry hd he _ rfl rfl (Function.update_self _ _ _)
      · intro hs
        have hsame : Function.update (Function.update s.kernel.mem.alloc.pgRef f 1) e.pfn
            (s.kernel.mem.alloc.pgRef e.pfn - 1) e.pfn = s.kernel.mem.alloc.pgRef e.pfn :=
          congrFun hs.counts e.pfn
        rw [Function.update_self] at hsame
        omega
      · rintro ⟨-, -, hidle | ⟨hone, -⟩⟩ <;> omega

end

/-! ### Two faults -/

section
variable {k : Kernel} {c : Slot} {R : Set ℕ}

/-- While there are free pages, the handler can make every user page writable. -/
lemma Inv.resolvable (hR : ∀ f ∈ R, Kmem.Usable f) (h : Inv R k) {e : Pte}
    (he : 0 < k.holders e.pfn) (hs : Supply k.mem.alloc 1) : Resolvable k.mem.alloc e := by
  refine ⟨(hR _ (h.counts.held _ he)).2, ?_⟩
  rcases Nat.lt_or_ge 1 (k.holders e.pfn) with hmany | hone
  · right
    constructor
    · rw [h.counts.count]
      exact_mod_cast hmany
    · obtain ⟨f, l, hfree⟩ := List.exists_cons_of_length_pos hs.le
      have hmem : f ∈ k.mem.alloc.freelist := by rw [hfree]; simp
      refine ⟨f, l, hfree, hs.usable f hmem, ?_⟩
      rw [h.counts.count, ((h.counts.free f).mp hmem).2]
      rfl
  · left
    rw [h.counts.count]
    omega

/-- **A fault at a page that has holders**: the entry becomes writable, or gets a copy, for which
there may be no page. -/
lemma Inv.fault_user (hR : ∀ f ∈ R, Kmem.Usable f) (h : Inv R k) {d : PageDir}
    (hd : (k.proc c).pgdir = some d) {va : ℕ} {e : Pte} (he : d.entry (va / PGSIZE) = some e)
    (hheld : 0 < k.holders e.pfn) :
    (k.holders e.pfn = 1 ∧ fault c va k = .ok ((), k.setSpace c k.mem
      (d.setEntry (va / PGSIZE) (some { e with w := true })) (k.proc c).sz)) ∨
    (1 < k.holders e.pfn ∧ ∃ f l, k.mem.alloc.freelist = f :: l ∧
      fault c va k = .ok ((), k.setSpace c (copied k.mem e f l)
        (d.setEntry (va / PGSIZE) (some ⟨f, true, true⟩)) (k.proc c).sz)) ∨
    (k.mem.alloc.freelist = [] ∧ ∃ err, fault c va k = .error err) := by
  have hcount : k.mem.alloc.pgRef e.pfn = k.holders e.pfn := h.counts.count _
  have hlt : e.pfn < NPAGE := (hR _ (h.counts.held _ hheld)).2
  rcases Nat.lt_or_ge 1 (k.holders e.pfn) with hmany | hone
  · have hmany' : 1 < k.mem.alloc.pgRef e.pfn := by
      rw [hcount]
      exact_mod_cast hmany
    cases hfree : k.mem.alloc.freelist with
    | nil =>
      obtain ⟨err, herr⟩ := cowHandler_full (d := d) he hlt hmany' fun ⟨f, l, hl, _⟩ =>
        absurd (hfree.symm.trans hl) (by simp)
      exact Or.inr (Or.inr ⟨rfl, err, fault_error hd herr⟩)
    | cons f l =>
      have hmem : f ∈ k.mem.alloc.freelist := by rw [hfree]; simp
      have hzero : k.mem.alloc.pgRef f = 0 := by
        rw [h.counts.count, ((h.counts.free f).mp hmem).2]
        rfl
      have hf := (hR f ((h.counts.free f).mp hmem).1).2
      exact Or.inr (Or.inl ⟨hmany, f, l, rfl, fault_ok hd (cowHandler_copy he hlt hmany' hfree hf
        hzero)⟩)
  · have heq : k.holders e.pfn = 1 := by omega
    rw [heq] at hcount
    exact Or.inl ⟨heq, fault_ok hd (cowHandler_one he hlt hcount)⟩

/-- A store that the entry allows is performed. -/
lemma access_store {d : PageDir} (hd : (k.proc c).pgdir = some d) {va : ℕ} {e : Pte}
    (he : d.entry (va / PGSIZE) = some e) {user : Bool} {b : UInt8}
    (hallow : Pte.allows e user (.store b) = true) (n : ℕ) :
    access c va user (.store b) (n + 1) k = .ok (some b, k.setMem (k.mem.put e.pfn
      (Function.update (k.mem.pages e.pfn) (va % PGSIZE) b))) := by
  have hf : (d.entry (va / PGSIZE)).filter (fun e => Pte.allows e user (.store b)) = some e := by
    rw [he, Option.filter_some, if_pos hallow]
  rw [access, bind_ok (pgdirOf_ok hd)]
  simp only [hf]
  rfl

/-- An access that the entry does not allow is tried again after the fault. -/
lemma access_retry {d : PageDir} (hd : (k.proc c).pgdir = some d) {va : ℕ} {user : Bool}
    {a : Access} (hdeny : ∀ e, d.entry (va / PGSIZE) = some e → Pte.allows e user a = false)
    (n : ℕ) :
    access c va user a (n + 1) k = (fault c va >>= fun _ => access c va user a n) k := by
  have hf : (d.entry (va / PGSIZE)).filter (fun e => Pte.allows e user a) = none := by
    rw [Option.filter_eq_none_iff]
    intro e he
    simp [hdeny e he]
  rw [access, bind_ok (pgdirOf_ok hd)]
  simp only [hf]

/-- A load from above the process fails. -/
lemma Inv.load_above (h : Inv R k) (hc : (k.proc c).state = .runnable) {va : ℕ}
    (hlo : PGROUNDUP (k.proc c).sz ≤ va / PGSIZE) (hhi : va / PGSIZE < NUPAGE)
    (killed : Slot → Bool) :
    UserFault k c va .load ∧ ¬FaultRight ⟨k, killed⟩ c va .load := by
  obtain ⟨-, d, -, hd, hok⟩ := h.live (c := c) (by rw [hc]; simp)
  have hnone : d.entry (va / PGSIZE) = none := hok.unmapped _ hlo hhi
  refine ⟨⟨hc, ?_, by rw [hd]; rfl, fun e he => ?_⟩, ?_⟩
  · have hlt : va / PGSIZE < 524288 := hhi
    simp only [PGSIZE] at hlt
    omega
  · rw [pte_of_pgdir hd, hnone] at he
    exact absurd he (by simp)
  · rintro ⟨s', hs', -⟩
    obtain ⟨err, herr⟩ := cowHandler_absent (m := k.mem) hnone
    have htrap := trap_error (s := ⟨k, killed⟩) hd herr
    exact absurd (htrap.symm.trans hs') (by simp)

end

/-- The first process forks, and then shares its page with its child; above that page there is
nothing. -/
lemma exists_forked {free : List ℕ} (hfree : FreeList free)
    (hn : 2 * NPTENTRIES + 6 ≤ free.length) (killed : Slot → Bool) :
    ∃ k, Reachable (Boot free) Step k ∧
      (UserFault k 0 0 (.store 1) ∧ FaultSafe ⟨k, killed⟩ 0 0 (.store 1)) ∧
      UserFault k 0 PGSIZE .load ∧ ¬FaultRight ⟨k, killed⟩ 0 PGSIZE .load := by
  have hboot : Boot free (Kernel.boot free fun _ => zeroPage) := ⟨hfree, _, rfl⟩
  obtain ⟨_, k₂, f, d, m, f', d', child, m', rfl, hstep₁, hstep₂, hinv₂, hshows, hown, hfork,
    hproc, hs₂⟩ := firstFork_ok (n := 1) hfree hn
  have hrun : (k₂.proc 0).state = .runnable := by rw [hproc, booted_self]
  have hsz : (k₂.proc 0).sz = PGSIZE := by rw [hproc]
  refine ⟨k₂, ((Reachable.start hboot).next hstep₁).next hstep₂, ?_,
    hinv₂.load_above hrun (by rw [hsz]; decide) (by decide) killed⟩
  obtain ⟨e, he, -⟩ := hshows.mapped 0 (by decide)
  obtain ⟨-, hone, hu⟩ := hown 0 e (by decide) he
  have hpte : k₂.pte 0 0 = some { e with w := false } := by
    rw [pte_of_pgdir (d := d') (by rw [hproc]), hfork.parent, booted_self,
      if_pos (show 0 < PGROUNDUP PGSIZE by decide), he]
    rfl
  have hcow : CowWrite k₂ 0 0 (.store 1) :=
    ⟨⟨1, rfl⟩, by rw [hsz]; decide, _, hpte, hu.mpr (by simp [Space.initial]), rfl⟩
  refine ⟨⟨hrun, by decide, by rw [hproc]; rfl, fun e' he' => ?_⟩, _, hpte, fun _ => ?_,
    fun hno => absurd hcow hno⟩
  · obtain rfl := Option.some.inj (hpte.symm.trans he')
    simp [Pte.allows]
  · refine hinv₂.resolvable hfree.usable ?_ hs₂
    have hcount := hfork.count e.pfn (by omega)
    show 0 < k₂.holders e.pfn
    omega

omit [Layout] in
/-- After a `fork` the parent writes to the page it shares. -/
theorem faultRight_iff_forked : ∃ k, @Reachable _ _ (@Boot Layout.sample sampleFree)
    (@Step Layout.sample) k ∧ UserFault k 0 0 (.store 1) ∧
    @FaultRight Layout.sample ⟨k, fun _ => false⟩ 0 0 (.store 1) := by
  obtain ⟨k, hk, ⟨hfault, hsafe⟩, -⟩ := @exists_forked Layout.sample _ sampleFree_freeList
    (by rw [sampleFree, List.length_range']; decide) fun _ => false
  exact ⟨k, hk, hfault,
    (@faultRight_iff Layout.sample ⟨k, fun _ => false⟩ 0 0 (.store 1) hfault).mpr hsafe⟩

omit [Layout] in
/-- A load from an address that is not mapped does not kill the process. -/
theorem not_faultRight : ¬∀ k, @Reachable _ _ (@Boot Layout.sample sampleFree)
    (@Step Layout.sample) k → ∀ killed c va x, UserFault k c va x →
    @FaultRight Layout.sample ⟨k, killed⟩ c va x := by
  intro hall
  obtain ⟨k, hk, -, hfault, hnot⟩ := @exists_forked Layout.sample _ sampleFree_freeList
    (by rw [sampleFree, List.length_range']; decide) fun _ => false
  exact hnot (hall k hk _ _ _ _ hfault)

end Xv6Projects.Cow
