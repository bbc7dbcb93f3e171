import Xv6Projects.Threads.Table

/-!
# A `thread_create` that fails

`thread_create` has one label, `bad`, for its three failures: no slot, no kernel stack, and no
user stack.  The first two arrive there with a null pointer in `npth`, and with `tidx` and
`ustack` not assigned; the third one forgets the page of the kernel stack.  Here the function is
followed with its local variables.
-/

namespace Xv6Projects.Threads.Create

open Library Kernel Vm

/-! ### The function with its local variables -/

/-- What ends `thread_create` other than a return. -/
inductive Fault
  /-- A store through the null pointer `npth`. -/
  | nullPth
  /-- `tidx` is used, and has not been assigned. -/
  | unsetTidx
  /-- `ustack` is used, and has not been assigned. -/
  | unsetUstack
  /-- The panic `remap`. -/
  | remap
  /-- `kalloc` does not return this page. -/
  | noPage
deriving DecidableEq, Repr

/-- The local variables of `thread_create` at the label `bad`: the pointer `npth`, or null; and
`tidx` and `ustack` when they have been assigned, the latter to a pointer or null. -/
structure Locals where
  npth : Option Tidx
  tidx : Option Tidx
  ustack : Option (Option Tidx)

/-- `allocpth`: the slot it returns, or null. -/
def allocpth (k : Kernel) (p : Slot) (page : Option ℕ) : Except Fault (Option Tidx × Kernel) :=
  match tidxs.find? fun i => ((k.proc p).pth i).state = .unused, page with
  | none, _ => .ok (none, k)
  | some i, none =>
      .ok (none, { k.updProc p fun x =>
        x.updPth i fun t => { t with kstack := 0, state := .unused, tid := k.nextTid } with
          nextTid := (k.nextTid + 1).bmod (2 ^ 32) })
  | some i, some n =>
      match k.allocpth p i n with
      | none => .error .noPage
      | some k => .ok (some i, k)

/-- The label `bad`. -/
def bad (k : Kernel) (p : Slot) (l : Locals) : Except Fault (ℤ × Kernel) :=
  match l.npth, l.tidx, l.ustack with
  | none, _, _ => .error .nullPth
  | some _, none, _ => .error .unsetTidx
  | some _, some _, none => .error .unsetUstack
  | some i, some j, some u =>
      .ok (-1, k.updProc p fun x =>
        { x.updPth i fun t => { t with kstack := 0, state := .unused, tid := 0 } with
          kstacks := Function.update x.kstacks j 0
          ustacks := u.elim x.ustacks fun i => Function.update x.ustacks i 0 })

/-- `thread_create` by the current thread of `p`, with its return value. -/
def threadCreate (k : Kernel) (p : Slot) (page : Option ℕ) (avail : ℕ) :
    Except Fault (ℤ × Kernel) := do
  match ← allocpth k p page with
  | (none, k) => bad k p ⟨none, none, none⟩
  | (some i, k) =>
      match (k.proc p).allocUstack i avail with
      | none => .error .remap
      | some (false, x) => bad (k.updProc p fun _ => x) p ⟨some i, some i, some none⟩
      | some (true, x) => .ok (0, k.updProc p fun _ => x.createDone i)

/-! ### The property -/

/-- A call that fails: no slot is unused, there is no page for the kernel stack, or no page for
the user stack of a slot that has none (then `allocuvm` returns zero, as it does when the stack
would reach the kernel). -/
inductive Fails (k : Kernel) (p : Slot) : Option ℕ → ℕ → Prop
  | slot {page : Option ℕ} {avail : ℕ} :
      (∀ i, ((k.proc p).pth i).state ≠ .unused) → Fails k p page avail
  | kstack {avail : ℕ} : Fails k p none avail
  | ustack {i : Tidx} {n avail : ℕ} :
      (tidxs.find? fun i => ((k.proc p).pth i).state = .unused) = some i → n ≠ 0 →
      k.kmem n = none → (k.proc p).ustacks i = 0 →
      avail = 0 ∨ KERNBASE ≤ PGROUNDUP (k.proc p).sz * PGSIZE + PGSIZE →
      Fails k p (some n) avail

/-- Nothing of the process has changed, the lock is as free as it was, and the pages are back on
the free list. -/
structure Undone (k k' : Kernel) (p : Slot) : Prop where
  cpu : k'.cpu = k.cpu
  pth : (k'.proc p).pth = (k.proc p).pth
  kstacks : (k'.proc p).kstacks = (k.proc p).kstacks
  ustacks : (k'.proc p).ustacks = (k.proc p).ustacks
  sz : (k'.proc p).sz = (k.proc p).sz
  pgdir : (k'.proc p).pgdir = (k.proc p).pgdir
  kmem : k'.kmem = k.kmem

/-- The failing call returns `-1` and has changed nothing. -/
def FailsClean (k : Kernel) (p : Slot) (page : Option ℕ) (avail : ℕ) : Prop :=
  ∃ k', threadCreate k p page avail = .ok (-1, k') ∧ Undone k k' p

/-! ### The three failures -/

section
variable {k : Kernel} {p : Slot} {i : Tidx} {page : Option ℕ} {n avail : ℕ}

/-- In the shared model of the process table the function is this one without its return value
and without the reason why it does not return. -/
lemma threadCreate_toOption (k : Kernel) (p : Slot) (page : Option ℕ) (avail : ℕ) :
    k.threadCreate p page avail = (threadCreate k p page avail).toOption.map Prod.snd := by
  unfold Kernel.threadCreate threadCreate allocpth
  cases hfind : tidxs.find? fun i => ((k.proc p).pth i).state = .unused with
  | none => rfl
  | some i =>
    cases page with
    | none => rfl
    | some n =>
      cases halloc : k.allocpth p i n with
      | none => simp [halloc, bind, Except.bind, Except.toOption]
      | some k₁ =>
        simp only [halloc, Option.bind_some, bind, Except.bind]
        cases hu : (k₁.proc p).allocUstack i avail with
        | none => rfl
        | some r =>
          obtain ⟨ok, x⟩ := r
          cases ok with
          | true => rfl
          | false =>
            simp only [bad, Except.toOption, Option.map_some, Option.elim_none]
            refine congrArg some ?_
            simp only [Kernel.updProc, Function.update_idem, Function.update_self]
            rfl

/-- Without an unused slot, `npth` is null. -/
lemma threadCreate_noSlot (h : ∀ i, ((k.proc p).pth i).state ≠ .unused) :
    threadCreate k p page avail = .error .nullPth := by
  have hnone : tidxs.find? (fun i => decide (((k.proc p).pth i).state = .unused)) = none := by
    rw [List.find?_eq_none]
    intro i _
    simpa using h i
  unfold threadCreate allocpth
  rw [hnone]
  rfl

/-- Without a page for the kernel stack, `npth` is null. -/
lemma threadCreate_noKstack : threadCreate k p none avail = .error .nullPth := by
  unfold threadCreate allocpth
  cases tidxs.find? fun i => ((k.proc p).pth i).state = .unused with
  | none => rfl
  | some i => rfl

/-- A stack that cannot be had changes no page. -/
lemma allocUstack_fails {x : Proc} (hu : x.ustacks i = 0)
    (hfull : avail = 0 ∨ KERNBASE ≤ PGROUNDUP x.sz * PGSIZE + PGSIZE) :
    ∃ pgdir, x.allocUstack i avail = some (false, { x with pgdir := pgdir }) := by
  unfold Proc.allocUstack
  rw [if_pos hu]
  by_cases htop : KERNBASE ≤ PGROUNDUP x.sz * PGSIZE + PGSIZE
  · rw [allocuvm, if_pos htop]
    exact ⟨_, rfl⟩
  · obtain rfl := hfull.resolve_right htop
    have hgrow : ¬PGROUNDUP x.sz * PGSIZE + PGSIZE < PGROUNDUP x.sz * PGSIZE := by omega
    have hpages : PGROUNDUP (PGROUNDUP x.sz * PGSIZE + PGSIZE) -
        PGROUNDUP (PGROUNDUP x.sz * PGSIZE) = 1 := by
      rw [PGROUNDUP_mul_add, PGROUNDUP_mul, Nat.add_sub_cancel_left]
    rw [allocuvm, if_neg htop, if_neg hgrow, hpages]
    exact ⟨_, rfl⟩

/-- `allocpth` with a slot and a page. -/
lemma allocpth_eq_some (hn : n ≠ 0) (hfree : k.kmem n = none) :
    ∃ k₁, k.allocpth p i n = some k₁ ∧ k₁.proc p = (k.proc p).allocpth i k.nextTid n ∧
      k₁.kmem = Function.update k.kmem n (some p) := by
  have hkalloc : k.kalloc p n = some { k with kmem := Function.update k.kmem n (some p) } :=
    if_pos ⟨hn, hfree⟩
  obtain ⟨k₁, hk₁⟩ : ∃ k₁, k.allocpth p i n = some k₁ := by
    rw [Kernel.allocpth, hkalloc]
    exact ⟨_, rfl⟩
  refine ⟨k₁, hk₁, ?_⟩
  rw [Kernel.allocpth, hkalloc] at hk₁
  obtain rfl := Option.some.inj hk₁
  exact ⟨Function.update_self _ _ _, rfl⟩

/-- Without a user stack it returns `-1`, and keeps the page of the kernel stack. -/
lemma threadCreate_noUstack
    (hfind : (tidxs.find? fun i => ((k.proc p).pth i).state = .unused) = some i)
    (hn : n ≠ 0) (hfree : k.kmem n = none) (hu : (k.proc p).ustacks i = 0)
    (hfull : avail = 0 ∨ KERNBASE ≤ PGROUNDUP (k.proc p).sz * PGSIZE + PGSIZE) :
    ∃ k', threadCreate k p (some n) avail = .ok (-1, k') ∧
      k'.kmem = Function.update k.kmem n (some p) := by
  obtain ⟨k₁, halloc, hproc, hkmem⟩ := allocpth_eq_some (p := p) (i := i) hn hfree
  obtain ⟨pgdir, hstack⟩ := allocUstack_fails (x := k₁.proc p) (i := i)
    (by rw [hproc]; exact hu) (by rw [hproc]; exact hfull)
  have hrun : threadCreate k p (some n) avail =
      bad (k₁.updProc p fun _ => { k₁.proc p with pgdir := pgdir }) p ⟨some i, some i, some none⟩ := by
    unfold threadCreate allocpth
    rw [hfind]
    dsimp only
    rw [halloc]
    dsimp only [bind, Except.bind]
    rw [hstack]
  rw [hrun]
  exact ⟨_, rfl, hkmem⟩

/-- So the page is not back on the free list. -/
lemma ustack_not_failsClean
    (hfind : (tidxs.find? fun i => ((k.proc p).pth i).state = .unused) = some i)
    (hn : n ≠ 0) (hfree : k.kmem n = none) (hu : (k.proc p).ustacks i = 0)
    (hfull : avail = 0 ∨ KERNBASE ≤ PGROUNDUP (k.proc p).sz * PGSIZE + PGSIZE) :
    ¬FailsClean k p (some n) avail := by
  rintro ⟨k', hk', hundone⟩
  obtain ⟨k₁, hk₁, hkmem⟩ := threadCreate_noUstack hfind hn hfree hu hfull
  rw [hk₁] at hk'
  obtain rfl : k₁ = k' := (Prod.mk.inj (Except.ok.inj hk')).2
  have hleak := congrFun (hkmem.symm.trans hundone.kmem) n
  rw [Function.update_self, hfree] at hleak
  exact absurd hleak (by simp)

/-- **No failing call of `thread_create` is undone**: the first two failures write through the
null pointer, and the third one keeps the page of the kernel stack. -/
theorem not_failsClean (h : Fails k p page avail) : ¬FailsClean k p page avail := by
  cases h with
  | slot hno =>
    rintro ⟨k', hk', -⟩
    rw [threadCreate_noSlot hno] at hk'
    exact absurd hk' (by simp)
  | kstack =>
    rintro ⟨k', hk', -⟩
    rw [threadCreate_noKstack] at hk'
    exact absurd hk' (by simp)
  | ustack hfind hn hfree hu hfull => exact ustack_not_failsClean hfind hn hfree hu hfull

end

/-! ### A failing call -/

/-- The first process runs, with an unused slot that has no stack. -/
lemma exists_unused : ∃ k, Reach k ∧ k.cpu = .run 0 ∧ (k.proc 0).mypth.Ready ∧
    (tidxs.find? fun i => ((k.proc 0).pth i).state = .unused) = some 1 ∧ k.kmem 2 = none ∧
    (k.proc 0).ustacks 1 = 0 := by
  have hrun : ((run step Kernel.pinit [.userinit 1, .pass]).any fun k =>
      decide (k.cpu = .run 0 ∧ (k.proc 0).mypth.Ready ∧
        (tidxs.find? fun i => ((k.proc 0).pth i).state = .unused) = some 1 ∧ k.kmem 2 = none ∧
        (k.proc 0).ustacks 1 = 0)) = true := by
    decide +kernel
  obtain ⟨k, hk, hall⟩ := (Option.any_eq_true _ _).mp hrun
  exact ⟨k, Reachable.run (fun _ _ _ hs => hs) (.start rfl) hk, of_decide_eq_true hall⟩

/-- There is a page for the kernel stack of its second thread, and none for the user stack. -/
theorem not_failsClean_first : ∃ k, Reach k ∧ Fails k 0 (some 2) 0 ∧
    ¬FailsClean k 0 (some 2) 0 := by
  obtain ⟨k, hk, -, -, hfind, hfree, hu⟩ := exists_unused
  have hfails : Fails k 0 (some 2) 0 := .ustack hfind (by decide) hfree hu (Or.inl rfl)
  exact ⟨k, hk, hfails, not_failsClean hfails⟩

/-- Not every failing call is undone. -/
theorem not_all_failsClean : ¬∀ k, Reach k → ∀ p page avail, k.cpu = .run p →
    (k.proc p).mypth.Ready → Fails k p page avail → FailsClean k p page avail := by
  intro hall
  obtain ⟨k, hk, hcpu, hready, hfind, hfree, hu⟩ := exists_unused
  have hfails : Fails k 0 (some 2) 0 := .ustack hfind (by decide) hfree hu (Or.inl rfl)
  exact ustack_not_failsClean hfind (by decide) hfree hu (Or.inl rfl)
    (hall k hk 0 _ _ hcpu hready hfails)

end Xv6Projects.Threads.Create
