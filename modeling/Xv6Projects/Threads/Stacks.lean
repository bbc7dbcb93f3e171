import Xv6Projects.Threads.Change
import Xv6Projects.Threads.Globals

/-!
# Kernel stacks are given back

The page of a kernel stack is recorded in the thread and in the array `kstacks` of the process.
`thread_join` clears the first record and frees nothing; `thread_create` overwrites the second,
and `wait` frees the pages of the first.  When a process whose thread has been joined neither
creates a thread in that slot nor ends before `exec` has freed the page, every kernel stack is
freed once.
-/

namespace Xv6Projects.Threads

open Library Kernel Vm

/-! ### The property -/

/-- No page has been freed twice, and a page that has not been freed is recorded by the process
it was obtained for, which has not been reaped.  An embryo whose forking thread is ended by a
sibling is such a process: it is never reaped, and keeps its page. -/
structure StacksKept (k : Kernel) : Prop where
  refreed : k.refreed = false
  held : ∀ n p, k.kmem n = some p → (k.proc p).state ≠ .unused ∧ ∃ i, (k.proc p).kstacks i = n

/-- No thread has been joined whose page is still recorded. -/
def Proc.StacksClear (x : Proc) : Prop := ∀ i, (x.pth i).kstack = 0 → x.kstacks i = 0

/-- `alloc_ustack` has a stack for slot `i`, or finds a page below the kernel. -/
def Proc.UstackFits (x : Proc) (i : Tidx) (avail : ℕ) : Prop :=
  x.ustacks i ≠ 0 ∨ (0 < avail ∧ PGROUNDUP x.sz * PGSIZE + PGSIZE < KERNBASE)

/-- The child that the loop of `wait` finds. -/
def Kernel.zombieChild (k : Kernel) (p : Slot) : Option Slot :=
  slots.find? fun q => (k.proc q).parent = some p ∧ (k.proc q).state = .zombie

/-- The steps that keep kernel stacks: a thread is created in a slot with no recorded page, and
finds its user stack; and `wait` reaps a process with no joined thread whose page is recorded. -/
def StackSafe (k : Kernel) : Op → Prop
  | .threadCreate _ avail => ∀ p, k.cpu = .run p → ∀ i,
      tidxs.find? (fun j => ((k.proc p).pth j).state = .unused) = some i →
        (k.proc p).kstacks i = 0 ∧ (k.proc p).UstackFits i avail
  | .wait => ∀ p, k.cpu = .run p → ∀ q, k.zombieChild p = some q → (k.proc q).StacksClear
  | .resume => ∀ p, k.cpu = .resume p → (k.proc p).mypth.cont = .wait →
      ∀ q, k.zombieChild p = some q → (k.proc q).StacksClear
  | _ => True

/-- The states of the runs that meet the condition. -/
def StackReach : Kernel → Prop := Reachable (· = Kernel.pinit) (Guarded Step StackSafe)

/-! ### The invariant -/

/-- The records and the allocator agree. -/
structure Recorded (k : Kernel) : Prop where
  clean : k.refreed = false
  null : k.kmem 0 = none
  held : ∀ n p, k.kmem n = some p → ∃ i, (k.proc p).kstacks i = n
  obtained : ∀ p i, (k.proc p).kstacks i ≠ 0 → k.kmem ((k.proc p).kstacks i) = some p
  once : ∀ p i j, (k.proc p).kstacks i ≠ 0 → (k.proc p).kstacks i = (k.proc p).kstacks j → i = j
  /-- The stack of a thread is the one that its process has recorded. -/
  thread : ∀ p i, ((k.proc p).pth i).kstack ≠ 0 →
    (k.proc p).kstacks i = ((k.proc p).pth i).kstack
  unused : ∀ p, (k.proc p).state = .unused → ∀ i, (k.proc p).kstacks i = 0
  embryo : ∀ p, (k.proc p).state = .embryo → ∀ i, i ≠ 0 → (k.proc p).kstacks i = 0

/-- A process that has been allocated, and has no kernel stack yet, has recorded none. -/
def Fresh (k : Kernel) : Prop := ∀ p i np, k.Live p i → ((k.proc p).pth i).cont = .forkStack np →
  (k.proc np).kstacks 0 = 0

/-- A process under a step that neither obtains nor frees a page for it. -/
structure SameStacks (x y : Proc) : Prop where
  kstacks : y.kstacks = x.kstacks
  kstack : ∀ i, (y.pth i).kstack ≠ 0 → (y.pth i).kstack = (x.pth i).kstack
  unused : y.state = .unused → x.state = .unused ∨ ∀ i, x.kstacks i = 0
  embryo : y.state = .embryo → x.state = .embryo ∨ ∀ i, x.kstacks i = 0

lemma SameStacks.trans {x y z : Proc} (h : SameStacks x y) (h' : SameStacks y z) :
    SameStacks x z where
  kstacks := h'.kstacks.trans h.kstacks
  kstack i hi := by
    have hz := h'.kstack i hi
    exact hz.trans (h.kstack i (by rwa [← hz]))
  unused hz := by
    rcases h'.unused hz with hy | hy
    · exact h.unused hy
    · exact Or.inr fun i => by rw [← h.kstacks, hy]
  embryo hz := by
    rcases h'.embryo hz with hy | hy
    · exact h.embryo hy
    · exact Or.inr fun i => by rw [← h.kstacks, hy]

lemma Still.sameStacks {x y : Proc} (h : Still x y) : SameStacks x y where
  kstacks := h.kstacks
  kstack i _ := (h.pth i).kstack
  unused hy := Or.inl ((h.state.eq_iff State.not_live_unused).mp hy)
  embryo hy := Or.inl ((h.state.eq_iff State.not_live_embryo).mp hy)

lemma SameStacks.refl (x : Proc) : SameStacks x x :=
  ⟨rfl, fun _ _ => rfl, Or.inl, Or.inl⟩

/-- The records agree after a step that obtains and frees nothing. -/
lemma Recorded.same {k k' : Kernel} (hk : Recorded k) (hmem : SameMem k k')
    (h : ∀ p, SameStacks (k.proc p) (k'.proc p)) : Recorded k' where
  clean := hmem.refreed.trans hk.clean
  null := by rw [hmem.kmem, hk.null]
  held n p hn := by
    rw [hmem.kmem] at hn
    rw [(h p).kstacks]
    exact hk.held n p hn
  obtained p i hi := by
    rw [(h p).kstacks] at hi ⊢
    rw [hmem.kmem]
    exact hk.obtained p i hi
  once p i j hi he := by
    rw [(h p).kstacks] at hi he
    exact hk.once p i j hi he
  thread p i hi := by
    have he := (h p).kstack i hi
    rw [(h p).kstacks, he]
    exact hk.thread p i (by rwa [← he])
  unused p hp i := by
    rw [(h p).kstacks]
    rcases (h p).unused hp with hx | hx
    · exact hk.unused p hx i
    · exact hx i
  embryo p hp i hi := by
    rw [(h p).kstacks]
    rcases (h p).embryo hp with hx | hx
    · exact hk.embryo p hx i hi
    · exact hx i

/-- Process `q` obtains page `n` for the thread in slot `i`. -/
lemma Recorded.obtain {k k' : Kernel} (hk : Recorded k) {q : Slot} {i : Tidx} {n : ℕ}
    (hn : n ≠ 0 ∧ k.kmem n = none) (hi : (k.proc q).kstacks i = 0)
    (hmem : k'.kmem = Function.update k.kmem n (some q)) (hclean : k'.refreed = k.refreed)
    (hother : ∀ p, p ≠ q → k'.proc p = k.proc p)
    (hkstacks : (k'.proc q).kstacks = Function.update (k.proc q).kstacks i n)
    (hkstack : ∀ j, ((k'.proc q).pth j).kstack ≠ 0 →
      ((k'.proc q).pth j).kstack = if j = i then n else ((k.proc q).pth j).kstack)
    (hstate : (k'.proc q).state ≠ .unused)
    (hembryo : (k'.proc q).state = .embryo → i = 0 ∧ ((k.proc q).state = .embryo ∨
      (k.proc q).state = .unused)) : Recorded k' := by
  -- no process has recorded the page
  have hfree : ∀ p j, (k.proc p).kstacks j ≠ n := by
    intro p j hj
    have := hk.obtained p j (by rw [hj]; exact hn.1)
    rw [hj, hn.2] at this
    exact absurd this (by simp)
  have hq : ∀ j, (k'.proc q).kstacks j = if j = i then n else (k.proc q).kstacks j := by
    intro j
    rw [hkstacks, Function.update_apply]
  have hcases : ∀ p j, (p = q ∧ j = i ∧ (k'.proc p).kstacks j = n) ∨
      (k'.proc p).kstacks j = (k.proc p).kstacks j := by
    intro p j
    by_cases hp : p = q
    · subst hp
      by_cases hj : j = i
      · exact Or.inl ⟨rfl, hj, by rw [hq, if_pos hj]⟩
      · exact Or.inr (by rw [hq, if_neg hj])
    · rw [hother p hp]
      exact Or.inr rfl
  constructor
  · rw [hclean, hk.clean]
  · rw [hmem, Function.update_of_ne hn.1.symm, hk.null]
  · intro m p hm
    rw [hmem, Function.update_apply] at hm
    split_ifs at hm with he
    · obtain rfl := Option.some.inj hm
      exact ⟨i, by rw [hq, if_pos rfl, he]⟩
    · obtain ⟨j, hj⟩ := hk.held m p hm
      refine ⟨j, ?_⟩
      rcases hcases p j with ⟨rfl, rfl, -⟩ | h
      · rw [hi] at hj
        rw [← hj, hk.null] at hm
        exact absurd hm (by simp)
      · rw [h, hj]
  · intro p j hj
    rcases hcases p j with ⟨rfl, -, h⟩ | h
    · rw [h, hmem, Function.update_self]
    · rw [h] at hj ⊢
      rw [hmem, Function.update_of_ne (hfree p j)]
      exact hk.obtained p j hj
  · intro p j l hj he
    rcases hcases p j with ⟨-, rfl, h⟩ | h <;> rcases hcases p l with ⟨-, rfl, h'⟩ | h'
    · rfl
    · rw [h, h'] at he
      exact absurd he.symm (hfree p l)
    · rw [h, h'] at he
      exact absurd he (hfree p j)
    · rw [h] at hj he
      rw [h'] at he
      exact hk.once p j l hj he
  · intro p j hj
    by_cases hp : p = q
    · subst hp
      have he := hkstack j hj
      rw [hq]
      split_ifs at he ⊢
      · exact he.symm
      · rw [he]
        exact hk.thread p j (by rwa [← he])
    · rw [hother p hp] at hj ⊢
      exact hk.thread p j hj
  · intro p hp j
    have hpq : p ≠ q := by
      rintro rfl
      exact hstate hp
    rw [hother p hpq] at hp ⊢
    exact hk.unused p hp j
  · intro p hp j hj
    by_cases hpq : p = q
    · subst hpq
      obtain ⟨rfl, h⟩ := hembryo hp
      rw [hq, if_neg hj]
      rcases h with h | h
      · exact hk.embryo p h j hj
      · exact hk.unused p h j
    · rw [hother p hpq] at hp ⊢
      exact hk.embryo p hp j hj

/-- `kfree` of different pages that have been obtained. -/
lemma kfreeAll_spec {k k' : Kernel} {ns : List ℕ} (hnd : ns.Nodup)
    (hheld : ∀ n ∈ ns, k.kmem n ≠ none) (h : k.kfreeAll ns = some k') :
    k'.refreed = k.refreed ∧ ∀ n, k'.kmem n = if n ∈ ns then none else k.kmem n := by
  induction ns generalizing k with
  | nil =>
    obtain rfl := Option.some.inj h
    exact ⟨rfl, fun n => by simp⟩
  | cons m ns ih =>
    obtain ⟨k₁, h₁, h₂⟩ := Option.bind_eq_some_iff.mp h
    obtain ⟨-, rfl⟩ := kfree_eq_some.mp h₁
    obtain ⟨hm, hnd⟩ := List.nodup_cons.mp hnd
    have hsome : (k.kmem m).isNone = false := by
      cases hk : k.kmem m with
      | none => exact absurd hk (hheld m List.mem_cons_self)
      | some q => rfl
    obtain ⟨hclean, hmem⟩ := ih hnd (fun n hn => by
      dsimp only
      rw [Function.update_of_ne (by rintro rfl; exact hm hn)]
      exact hheld n (List.mem_cons_of_mem _ hn)) h₂
    refine ⟨?_, fun n => ?_⟩
    · rw [hclean]
      dsimp only
      rw [hsome, Bool.or_false]
    · rw [hmem]
      dsimp only
      rw [Function.update_apply]
      by_cases hnm : n = m
      · simp [hnm]
      · simp [hnm]

/-- The pages in `ns`, which process `q` has recorded, are freed, and their records cleared. -/
lemma Recorded.free {k k' : Kernel} (hk : Recorded k) {q : Slot} (ns : List ℕ)
    (hns : ∀ n ∈ ns, ∃ i, (k.proc q).kstacks i = n)
    (hmem : ∀ n, k'.kmem n = if n ∈ ns then none else k.kmem n) (hclean : k'.refreed = k.refreed)
    (hother : ∀ p, p ≠ q → k'.proc p = k.proc p)
    (hkstacks : ∀ i, (k'.proc q).kstacks i =
      if (k.proc q).kstacks i ∈ ns then 0 else (k.proc q).kstacks i)
    (hkstack : ∀ i, ((k'.proc q).pth i).kstack ≠ 0 →
      ((k'.proc q).pth i).kstack = ((k.proc q).pth i).kstack ∧ (k.proc q).kstacks i ∉ ns)
    (hunused : (k'.proc q).state = .unused → ∀ i, (k'.proc q).kstacks i = 0)
    (hembryo : (k'.proc q).state ≠ .embryo) : Recorded k' := by
  -- the pages belong to `q`
  have hcases : ∀ p i, (k'.proc p).kstacks i = 0 ∨
      (k'.proc p).kstacks i = (k.proc p).kstacks i ∧ ((k.proc p).kstacks i ≠ 0 →
        (k.proc p).kstacks i ∉ ns) := by
    intro p i
    by_cases hp : p = q
    · subst hp
      rw [hkstacks]
      split_ifs with h
      · exact Or.inl rfl
      · exact Or.inr ⟨rfl, fun _ => h⟩
    · rw [hother p hp]
      refine Or.inr ⟨rfl, fun hne hmem => ?_⟩
      obtain ⟨j, hj⟩ := hns _ hmem
      have h₁ := hk.obtained p i hne
      rw [← hj] at h₁ hne
      exact hp (Option.some.inj (h₁.symm.trans (hk.obtained q j hne)))
  constructor
  · rw [hclean, hk.clean]
  · rw [hmem]
    split_ifs
    · rfl
    · exact hk.null
  · intro n p hn
    rw [hmem] at hn
    split_ifs at hn with hnot
    obtain ⟨i, hi⟩ := hk.held n p hn
    refine ⟨i, ?_⟩
    by_cases hp : p = q
    · subst hp
      rw [hkstacks, hi, if_neg hnot]
    · rw [hother p hp, hi]
  · intro p i hi
    rcases hcases p i with h | ⟨h, hnot⟩
    · exact absurd h hi
    · rw [h] at hi ⊢
      rw [hmem, if_neg (hnot hi)]
      exact hk.obtained p i hi
  · intro p i j hi he
    rcases hcases p i with h | ⟨h, -⟩
    · exact absurd h hi
    · rcases hcases p j with h' | ⟨h', -⟩
      · exact absurd (he.trans h') hi
      · rw [h] at hi he
        rw [h'] at he
        exact hk.once p i j hi he
  · intro p i hi
    by_cases hp : p = q
    · subst hp
      obtain ⟨he, hnot⟩ := hkstack i hi
      rw [hkstacks, if_neg hnot, he]
      exact hk.thread p i (by rwa [← he])
    · rw [hother p hp] at hi ⊢
      exact hk.thread p i hi
  · intro p hp i
    by_cases hpq : p = q
    · subst hpq
      exact hunused hp i
    · rw [hother p hpq] at hp ⊢
      exact hk.unused p hp i
  · intro p hp i hi
    have hpq : p ≠ q := by
      rintro rfl
      exact hembryo hp
    rw [hother p hpq] at hp ⊢
    exact hk.embryo p hp i hi

/-! ### Steps that obtain and free nothing -/

/-- Only the first thread is changed, and keeps its kernel stack. -/
lemma sameStacks_first {x y : Proc} (hkstacks : y.kstacks = x.kstacks)
    (h : ∀ i, i ≠ 0 → y.pth i = x.pth i) (h0 : (y.pth 0).kstack = (x.pth 0).kstack)
    (hunused : y.state = .unused → x.state = .unused ∨ ∀ i, x.kstacks i = 0)
    (hembryo : y.state = .embryo → x.state = .embryo ∨ ∀ i, x.kstacks i = 0) :
    SameStacks x y := by
  refine ⟨hkstacks, fun i _ => ?_, hunused, hembryo⟩
  by_cases hi : i = 0
  · rw [hi, h0]
  · rw [h i hi]

lemma Major.sameStacks {k : Kernel} {q : Slot} {op : Op} {x y : Proc} (hr : Recorded k)
    (hop : ¬op.Memory) (h : Major k q op x y) : SameStacks x y := by
  cases h with
  | grow h =>
    obtain ⟨r, -, rfl⟩ := Option.map_eq_some_iff.mp h
    exact ⟨rfl, fun _ _ => rfl, Or.inl, Or.inl⟩
  | fsOp | sleeplocks =>
    refine ⟨rfl, fun i _ => ?_, Or.inl, Or.inl⟩
    rw [Proc.updMypth_pth]
    split_ifs with hi
    · rw [hi]
      rfl
    · rfl
  | exit =>
    refine ⟨rfl, fun i _ => ?_, fun h => State.noConfusion h, fun h => State.noConfusion h⟩
    dsimp only [Proc.exit]
    split_ifs <;> rfl
  | @threadExit c v =>
    have hst := ((k.proc q).wakeup1 c).threadExit_state v
    refine ⟨rfl, fun i _ => ?_, fun h => ?_, fun h => ?_⟩
    · rw [Proc.threadExit_pth]
      split_ifs with hi
      · rw [hi]
        rfl
      · rfl
    · rcases hst with ⟨hl, -⟩ | ⟨hz, -⟩
      · exact absurd h hl.ne_unused
      · exact State.noConfusion (hz.symm.trans h)
    · rcases hst with ⟨hl, -⟩ | ⟨hz, -⟩
      · exact absurd h hl.ne_embryo
      · exact State.noConfusion (hz.symm.trans h)
  | allocSlot hnp =>
    refine sameStacks_first rfl (fun i => Proc.allocSlot_pth) (by rw [Proc.allocSlot_first])
      (fun h => State.noConfusion h) fun _ => Or.inr (hr.unused q (unusedSlot_state hnp))
  | forkDone =>
    exact sameStacks_first rfl (fun i => Proc.forkDone_pth) (by rw [Proc.forkDone_first])
      (fun h => State.noConfusion h) fun h => State.noConfusion h
  | @joinPth _ j =>
    refine ⟨rfl, fun i hi => ?_, Or.inl, Or.inl⟩
    by_cases hij : i = j
    · subst hij
      rw [Proc.joinPth, Proc.updPth_self] at hi
      exact absurd rfl hi
    · rw [Proc.joinPth, Proc.updPth_of_ne _ _ hij]
  | commit | initAllpth | userinit | allocFail | forkFail | forkImage | created =>
    exact absurd trivial hop
  | allocStack _ _ h =>
    rcases h with ⟨n, rfl⟩ | ⟨page, rfl⟩ <;> exact absurd trivial hop
  | reap h =>
    cases op with
    | wait | resume => exact absurd trivial hop
    | _ => exact h.elim

lemma Step.sameStacks {k k' : Kernel} {op : Op} (hk : Shape k) (hr : Recorded k)
    (hop : ¬op.Memory) (h : Step k op k') (p : Slot) : SameStacks (k.proc p) (k'.proc p) := by
  refine Changes.lift (R := SameStacks) SameStacks.refl (fun _ _ _ => SameStacks.trans) ?_
    (h.changes hk p)
  intro x y hxy
  rcases hxy.still_or hk with h | h
  · exact h.sameStacks
  · exact h.sameStacks hr hop

/-- The current thread goes on, or goes to sleep. -/
lemma Recorded.setCont {k : Kernel} (hr : Recorded k) (p : Slot) (c : Cont) :
    Recorded (k.setCont p c) := by
  refine hr.same ⟨rfl, rfl⟩ fun q => ?_
  by_cases hq : q = p
  · subst hq
    rw [Kernel.setCont, updProc_self]
    exact (still_setCont _ c).sameStacks
  · rw [Kernel.setCont, updProc_of_ne _ _ hq]
    exact SameStacks.refl _

lemma Recorded.setCpu {k : Kernel} (hr : Recorded k) (c : Cpu) : Recorded (k.setCpu c) :=
  hr.same ⟨rfl, rfl⟩ fun _ => SameStacks.refl _

lemma Recorded.sleep {k : Kernel} (hk : Shape k) (hr : Recorded k) {p : Slot} (hp : k.Current p)
    (chan : Chan) (c : Cont) : Recorded (k.sleep p chan c) := by
  refine hr.same ⟨rfl, rfl⟩ fun q => ?_
  by_cases hq : q = p
  · subst hq
    rw [Kernel.sleep, setCpu_proc, updProc_self]
    exact (still_sleep hk hp chan c).sameStacks
  · rw [Kernel.sleep, setCpu_proc, updProc_of_ne _ _ hq]
    exact SameStacks.refl _

lemma Recorded.threadJoin {k : Kernel} (hk : Shape k) (hr : Recorded k) {p : Slot}
    (hp : k.Current p) (t : ℤ) (havepth : Bool) : Recorded (k.threadJoin p t havepth).2 := by
  refine hr.same (sameGlobals_threadJoin k p t havepth).mem fun q => ?_
  have hjoins : Op.Joins (.threadJoin t) := trivial
  have hmem : ¬Op.Memory (.threadJoin t) := id
  refine Changes.lift (R := SameStacks) SameStacks.refl (fun _ _ _ => SameStacks.trans) ?_
    (changes_threadJoin hk hjoins hp t havepth q)
  intro x y hxy
  rcases hxy.still_or hk with h | h
  · exact h.sameStacks
  · exact h.sameStacks hr hmem

/-! ### Steps that obtain or free pages -/

lemma update_zero {f : Tidx → ℕ} (h : ∀ i, f i = 0) (n : ℕ) :
    Function.update (fun _ => 0) 0 n = Function.update f 0 n := by
  have hf : f = fun _ => 0 := funext h
  rw [hf]

/-- The first kernel stack of a process. -/
lemma Recorded.allocStack {k k' : Kernel} (hr : Recorded k) {np : Slot}
    (hnp : (k.proc np).state = .embryo) (hzero : ∀ i, (k.proc np).kstacks i = 0) {n : ℕ}
    (h : k.allocStack np n = some k') : Recorded k' := by
  obtain ⟨k₁, h₁, rfl⟩ := Option.map_eq_some_iff.mp h
  obtain ⟨hn, rfl⟩ := kalloc_eq_some.mp h₁
  have hself := updProc_self { k with kmem := Function.update k.kmem n (some np) } np
    (·.allocStack n)
  refine hr.obtain (q := np) (i := 0) hn (hzero 0) rfl rfl (fun p hp => updProc_of_ne _ _ hp)
    ?_ ?_ ?_ ?_
  · rw [hself]
    exact update_zero hzero n
  · intro j _
    rw [hself]
    by_cases hj : j = 0
    · rw [hj, if_pos rfl, Proc.allocStack_first]
    · rw [if_neg hj, Proc.allocStack_pth hj]
  · rw [hself]
    exact fun h => State.noConfusion (hnp.symm.trans h)
  · exact fun _ => ⟨rfl, Or.inl hnp⟩

/-- A process that has been allocated. -/
lemma Recorded.allocSlot {k : Kernel} (hr : Recorded k) {np : Slot}
    (hnp : (k.proc np).state = .unused) : Recorded (k.allocSlot np) := by
  refine hr.same ⟨rfl, rfl⟩ fun q => ?_
  by_cases hq : q = np
  · subst hq
    rw [allocSlot_self]
    exact sameStacks_first rfl (fun i => Proc.allocSlot_pth) (by rw [Proc.allocSlot_first])
      (fun h => State.noConfusion h) fun _ => Or.inr (hr.unused q hnp)
  · rw [allocSlot_of_ne hq]
    exact SameStacks.refl _

lemma Recorded.userinit {k k' : Kernel} (hr : Recorded k) {n : ℕ}
    (h : k.userinit n = some k') : Recorded k' := by
  obtain ⟨np, hnp, h⟩ := Option.bind_eq_some_iff.mp h
  obtain ⟨k₁, h₁, rfl⟩ := Option.map_eq_some_iff.mp h
  have hst := unusedSlot_state hnp
  have hself := allocSlot_self k np
  have hr₁ : Recorded k₁ := by
    refine (hr.allocSlot hst).allocStack ?_ ?_ h₁
    · rw [hself]
      rfl
    · rw [hself]
      exact hr.unused np hst
  have hinit : Recorded (k₁.updProc np Proc.userinit) := by
    refine hr₁.same ⟨rfl, rfl⟩ fun q => ?_
    by_cases hq : q = np
    · subst hq
      rw [updProc_self]
      exact sameStacks_first rfl (fun i => Proc.userinit_pth) (by rw [Proc.userinit_first])
        (fun h => State.noConfusion h) fun h => State.noConfusion h
    · rw [updProc_of_ne _ _ hq]
      exact SameStacks.refl _
  exact hinit.same ⟨rfl, rfl⟩ fun _ => SameStacks.refl _

lemma Recorded.forkStack {k k' : Kernel} (hk : Shape k) (hr : Recorded k) {p np : Slot}
    (hp : k.cpu = .run p) (hc : (k.proc p).mypth.cont = .forkStack np)
    (hfresh : (k.proc np).kstacks 0 = 0) {page : Option ℕ}
    (h : k.forkStack p np page = some k') : Recorded k' := by
  have ht : (k.proc p).mypth.cont.target = some np := by rw [hc]; rfl
  have hemb := hk.target _ _ _ (hk.live_current (Or.inl hp)) ht
  have hzero : ∀ i, (k.proc np).kstacks i = 0 := by
    intro i
    by_cases hi : i = 0
    · rw [hi, hfresh]
    · exact hr.embryo np hemb i hi
  cases page with
  | none =>
    obtain rfl := Option.some.inj h
    refine Recorded.setCont ?_ p .user
    refine hr.same ⟨rfl, rfl⟩ fun q => ?_
    by_cases hq : q = np
    · subst hq
      rw [updProc_self]
      refine sameStacks_first ?_ (fun i => Proc.allocFail_pth) (by rw [Proc.allocFail_first])
        (fun _ => Or.inr hzero) fun h => State.noConfusion h
      exact (funext hzero).symm
    · rw [updProc_of_ne _ _ hq]
      exact SameStacks.refl _
  | some n =>
    obtain ⟨k₁, h₁, rfl⟩ := Option.map_eq_some_iff.mp h
    exact (hr.allocStack hemb hzero h₁).setCont p _

lemma Proc.forkFail_kstacks (x : Proc) (i : Tidx) :
    x.forkFail.kstacks i = if i = 0 then 0 else x.kstacks i := by
  dsimp only [Proc.forkFail]
  exact Function.update_apply _ _ _ _

lemma Recorded.forkCopy {k k' : Kernel} (hk : Shape k) (hr : Recorded k) {p np : Slot}
    (hp : k.cpu = .run p) (hc : (k.proc p).mypth.cont = .forkCopy np) {ok : Bool}
    (h : k.forkCopy p np ok = some k') : Recorded k' := by
  have ht : (k.proc p).mypth.cont.target = some np := by rw [hc]; rfl
  have hemb := hk.target _ _ _ (hk.live_current (Or.inl hp)) ht
  unfold Kernel.forkCopy at h
  split_ifs at h
  · obtain rfl := Option.some.inj h
    refine Recorded.setCont ?_ p _
    refine hr.same ⟨rfl, rfl⟩ fun q => ?_
    by_cases hq : q = np
    · subst hq
      rw [updProc_self]
      exact ⟨rfl, fun _ _ => rfl, Or.inl, Or.inl⟩
    · rw [updProc_of_ne _ _ hq]
      exact SameStacks.refl _
  · -- the page of the first thread is the only one that is recorded
    obtain ⟨k₁, h₁, rfl⟩ := Option.map_eq_some_iff.mp h
    obtain ⟨hne, rfl⟩ := kfree_eq_some.mp h₁
    have h0 := hr.thread np 0 hne
    set n := ((k.proc np).pth 0).kstack
    have hheld : k.kmem n = some np := by
      rw [← h0]
      exact hr.obtained np 0 (by rw [h0]; exact hne)
    refine Recorded.setCont ?_ p _
    refine hr.free (q := np) [n] ?_ ?_ ?_ (fun q hq => updProc_of_ne _ _ hq) ?_ ?_ ?_ ?_
    · intro m hm
      exact ⟨0, by rw [h0, List.mem_singleton.mp hm]⟩
    · intro m
      rw [updProc_kmem]
      simp only [Function.update_apply, List.mem_singleton]
    · rw [updProc_refreed]
      dsimp only
      rw [hheld]
      exact Bool.or_false _
    · intro i
      rw [updProc_self]
      by_cases hi : i = 0
      · rw [hi, h0, if_pos (List.mem_singleton_self _), Proc.forkFail_kstacks, if_pos rfl]
      · rw [hr.embryo np hemb i hi, ite_self, Proc.forkFail_kstacks, if_neg hi]
        exact hr.embryo np hemb i hi
    · intro i hi
      rw [updProc_self] at hi ⊢
      by_cases hi0 : i = 0
      · rw [hi0, Proc.forkFail_first] at hi
        exact absurd rfl hi
      · rw [Proc.forkFail_pth hi0] at hi ⊢
        refine ⟨rfl, fun _ => ?_⟩
        exact hi ((hr.thread np i hi).symm.trans (hr.embryo np hemb i hi0))
    · intro _ i
      rw [updProc_self, Proc.forkFail_kstacks]
      split_ifs with hi
      · rfl
      · exact hr.embryo np hemb i hi
    · rw [updProc_self]
      exact fun h => State.noConfusion h

/-- The recorded pages of some slots, each with one. -/
lemma Recorded.nodup_map {k : Kernel} (hr : Recorded k) (q : Slot) {s : Tidx → Bool}
    (hs : ∀ i, s i = true → (k.proc q).kstacks i ≠ 0) :
    ((tidxs.filter s).map (k.proc q).kstacks).Nodup := by
  refine List.Nodup.map_on ?_ ((List.nodup_finRange NPTH).filter _)
  intro i hi j _ he
  exact hr.once q i j (hs i (List.mem_filter.mp hi).2) he

/-- `init_allpth` frees the recorded pages of the other threads. -/
lemma Recorded.exec {k k' : Kernel} (hk : Shape k) (hr : Recorded k) {p : Slot}
    (hp : k.cpu = .run p) {sz : ℕ} (h : k.exec p sz = some k') : Recorded k' ∧
      ∀ n, k'.kmem n = some p → n = (k'.proc p).kstacks (k'.proc p).onTidx := by
  have halive := hk.alive_current (Or.inl hp)
  obtain ⟨k₁, h₁, rfl⟩ := Option.map_eq_some_iff.mp h
  have hproc : ((k.updProc p fun x => x.commit sz).proc p) = (k.proc p).commit sz :=
    updProc_self _ _ _
  rw [hproc] at h₁
  set x := (k.proc p).commit sz with hx
  -- `HasStack` holds of the slots with a recorded page
  have hhas : ∀ j, x.HasStack x.onTidx j ↔ j ≠ x.onTidx ∧ (k.proc p).kstacks j ≠ 0 := by
    intro j
    refine and_congr_right fun _ => ⟨?_, Or.inr⟩
    rintro (hj | hj)
    · rw [hr.thread p j hj]
      exact hj
    · exact hj
  have hmem : ∀ n, n ∈ x.initPages x.onTidx ↔
      ∃ j, j ≠ x.onTidx ∧ (k.proc p).kstacks j ≠ 0 ∧ (k.proc p).kstacks j = n := by
    intro n
    unfold Proc.initPages
    rw [List.mem_map]
    constructor
    · rintro ⟨j, hj, rfl⟩
      have := (hhas j).mp (of_decide_eq_true (List.mem_filter.mp hj).2)
      exact ⟨j, this.1, this.2, rfl⟩
    · rintro ⟨j, hj, hne, rfl⟩
      exact ⟨j, List.mem_filter.mpr ⟨List.mem_finRange j, decide_eq_true ((hhas j).mpr ⟨hj, hne⟩)⟩,
        rfl⟩
  have hnodup : (x.initPages x.onTidx).Nodup :=
    hr.nodup_map p fun i hi => ((hhas i).mp (of_decide_eq_true hi)).2
  obtain ⟨hclean, hkmem⟩ := kfreeAll_spec hnodup (fun n hn => by
    obtain ⟨j, -, hne, rfl⟩ := (hmem n).mp hn
    rw [updProc_kmem, hr.obtained p j hne]
    simp) h₁
  have hsame : k₁.proc = (k.updProc p fun x => x.commit sz).proc := by
    obtain ⟨m, b, rfl⟩ := kfreeAll_eq h₁
    rfl
  have hself : (k₁.updProc p fun x => x.initAllpth x.onTidx).proc p = x.initAllpth x.onTidx := by
    rw [updProc_self, hsame, hproc]
  rw [hself]
  have hstacks : ∀ i, (x.initAllpth x.onTidx).kstacks i =
      if (k.proc p).kstacks i ∈ x.initPages x.onTidx then 0 else (k.proc p).kstacks i := by
    intro i
    dsimp only [Proc.initAllpth]
    by_cases hi : x.HasStack x.onTidx i
    · obtain ⟨hne, h0⟩ := (hhas i).mp hi
      rw [if_pos hi, if_pos ((hmem _).mpr ⟨i, hne, h0, rfl⟩)]
    · rw [if_neg hi]
      split_ifs with hin
      · obtain ⟨j, hj, h0, he⟩ := (hmem _).mp hin
        obtain rfl := hr.once p j i h0 he
        exact absurd ((hhas j).mpr ⟨hj, h0⟩) hi
      · rfl
  have hrec : Recorded (k₁.updProc p fun x => x.initAllpth x.onTidx) := by
    refine hr.free (q := p) (x.initPages x.onTidx) ?_ ?_ ?_ ?_ ?_ ?_ ?_ ?_
    · intro n hn
      obtain ⟨j, -, -, he⟩ := (hmem n).mp hn
      exact ⟨j, he⟩
    · exact hkmem
    · exact hclean
    · intro q hq
      rw [updProc_of_ne _ _ hq, hsame, updProc_of_ne _ _ hq]
    · intro i
      rw [hself]
      exact hstacks i
    · intro i hi
      rw [hself, Proc.initAllpth_pth] at hi ⊢
      split_ifs at hi ⊢ with hon
      · refine ⟨rfl, fun hin => ?_⟩
        obtain ⟨j, hj, h0, he⟩ := (hmem _).mp hin
        exact hj ((hr.once p j i h0 he).trans hon)
      · exact absurd rfl hi
    · rw [hself]
      exact fun hu => absurd hu halive.ne_unused
    · rw [hself]
      exact halive.ne_embryo
  refine ⟨hrec, fun n hn => ?_⟩
  obtain ⟨i, hi⟩ := hrec.held n p hn
  have hn0 : n ≠ 0 := by
    rintro rfl
    exact absurd (hrec.null.symm.trans hn) (by simp)
  rw [hself] at hi
  by_cases hon : i = x.onTidx
  · rw [← hi, hon]
    rfl
  · -- the other slots have no page any more
    rw [hstacks] at hi
    split_ifs at hi with hin
    · exact absurd hi.symm hn0
    · exact absurd ((hmem _).mpr ⟨i, hon, by rw [hi]; exact hn0, rfl⟩) hin

/-- `wait` frees the pages of the threads, which are all that is recorded. -/
lemma Recorded.reap {k k' : Kernel} (hr : Recorded k) {q : Slot} (hclear : (k.proc q).StacksClear)
    (h : k.reap q = some k') : Recorded k' := by
  obtain ⟨k₁, h₁, rfl⟩ := Option.map_eq_some_iff.mp h
  have hpages : (k.proc q).reapPages =
      (tidxs.filter fun i => ((k.proc q).pth i).kstack ≠ 0).map (k.proc q).kstacks := by
    refine List.map_congr_left fun i hi => (hr.thread q i ?_).symm
    exact of_decide_eq_true (List.mem_filter.mp hi).2
  have hmem : ∀ n, n ∈ (k.proc q).reapPages ↔
      ∃ i, ((k.proc q).pth i).kstack ≠ 0 ∧ (k.proc q).kstacks i = n := by
    intro n
    rw [hpages, List.mem_map]
    constructor
    · rintro ⟨i, hi, rfl⟩
      exact ⟨i, of_decide_eq_true (List.mem_filter.mp hi).2, rfl⟩
    · rintro ⟨i, hi, rfl⟩
      exact ⟨i, List.mem_filter.mpr ⟨List.mem_finRange i, decide_eq_true hi⟩, rfl⟩
  have hne : ∀ i, ((k.proc q).pth i).kstack ≠ 0 → (k.proc q).kstacks i ≠ 0 := by
    intro i hi
    rwa [hr.thread q i hi]
  have hnodup : (k.proc q).reapPages.Nodup := by
    rw [hpages]
    exact hr.nodup_map q fun i hi => hne i (of_decide_eq_true hi)
  obtain ⟨hclean, hkmem⟩ := kfreeAll_spec hnodup (fun n hn => by
    obtain ⟨i, hi, rfl⟩ := (hmem n).mp hn
    rw [hr.obtained q i (hne i hi)]
    simp) h₁
  have hsame : k₁.proc = k.proc := by
    obtain ⟨m, b, rfl⟩ := kfreeAll_eq h₁
    rfl
  have hself : (k₁.updProc q Proc.reap).proc q = (k.proc q).reap := by
    rw [updProc_self, hsame]
  have hzero : ∀ i, (k.proc q).reap.kstacks i = 0 := by
    intro i
    dsimp only [Proc.reap]
    split_ifs with hi
    · rfl
    · exact hclear i (not_not.mp hi)
  refine hr.free (q := q) (k.proc q).reapPages ?_ hkmem hclean ?_ ?_ ?_ ?_ ?_
  · intro n hn
    obtain ⟨i, -, he⟩ := (hmem n).mp hn
    exact ⟨i, he⟩
  · intro p hp
    rw [updProc_of_ne _ _ hp, hsame]
  · intro i
    rw [hself, hzero]
    split_ifs with hin
    · rfl
    · by_cases hi : ((k.proc q).pth i).kstack = 0
      · rw [hclear i hi]
      · exact absurd ((hmem _).mpr ⟨i, hi, rfl⟩) hin
  · intro i hi
    rw [hself] at hi
    exact absurd rfl hi
  · intro _ i
    rw [hself, hzero]
  · rw [hself]
    exact fun h => State.noConfusion h

lemma Recorded.wait {k k' : Kernel} (hk : Shape k) (hr : Recorded k) {p : Slot}
    (hp : k.Current p) (hclear : ∀ q, k.zombieChild p = some q → (k.proc q).StacksClear)
    (h : k.wait p = some k') : Recorded k' := by
  unfold Kernel.wait at h
  split at h
  · rename_i q hq
    obtain ⟨k₁, h₁, rfl⟩ := Option.map_eq_some_iff.mp h
    exact ((hr.reap (hclear q hq) h₁).setCont p _).setCpu _
  · split_ifs at h
    · obtain rfl := Option.some.inj h
      exact hr.sleep hk hp _ _
    · obtain rfl := Option.some.inj h
      exact (hr.setCont p _).setCpu _

/-- `alloc_ustack` succeeds when it has a stack for the slot, or finds a page. -/
lemma Proc.allocUstack_fits {x : Proc} {i : Tidx} {avail : ℕ} (h : x.UstackFits i avail) {ok : Bool}
    (hok : (x.allocUstack i avail).map Prod.fst = some ok) : ok = true := by
  obtain ⟨r, hr, rfl⟩ := Option.map_eq_some_iff.mp hok
  unfold Proc.allocUstack at hr
  split_ifs at hr with h0
  · obtain ⟨havail, hlt⟩ := h.resolve_left (not_not.mpr h0)
    obtain ⟨s, hs, rfl⟩ := Option.map_eq_some_iff.mp hr
    have hnew := PGROUNDUP_mul_add (PGROUNDUP x.sz)
    have hlow : ¬KERNBASE ≤ PGROUNDUP x.sz * PGSIZE + PGSIZE := not_le.mpr hlt
    have hgrow : ¬PGROUNDUP x.sz * PGSIZE + PGSIZE < PGROUNDUP x.sz * PGSIZE := by omega
    unfold allocuvm at hs
    rw [if_neg hlow, if_neg hgrow, hnew, PGROUNDUP_mul, Nat.add_sub_cancel_left] at hs
    obtain ⟨l, hl, rfl⟩ := Option.map_eq_some_iff.mp hs
    obtain ⟨a, rfl⟩ := Nat.exists_eq_add_of_lt havail
    rw [Nat.zero_add, allocLoop] at hl
    split_ifs at hl
    obtain rfl := Option.some.inj hl
    rfl
  · obtain rfl := Option.some.inj hr
    rfl

/-- `allocpth` leaves the user stacks and the size. -/
lemma Proc.allocpth_fits {x : Proc} {i : Tidx} {tid : ℤ} {n avail : ℕ} (h : x.UstackFits i avail) :
    (x.allocpth i tid n).UstackFits i avail := by
  have hsz : (x.allocpth i tid n).sz = x.sz := rfl
  have hustacks : (x.allocpth i tid n).ustacks = x.ustacks := rfl
  rw [Proc.UstackFits, hsz, hustacks]
  exact h

lemma Recorded.threadCreate {k k' : Kernel} (hk : Shape k) (hr : Recorded k) {p : Slot}
    (hp : k.cpu = .run p) {page : Option ℕ} {avail : ℕ}
    (hsafe : ∀ i, tidxs.find? (fun j => ((k.proc p).pth j).state = .unused) = some i →
      (k.proc p).kstacks i = 0 ∧ (k.proc p).UstackFits i avail)
    (h : k.threadCreate p page avail = some k') : Recorded k' := by
  have halive := hk.alive_current (Or.inl hp)
  obtain ⟨i, n, ok, y, -, hy, hok⟩ := threadCreate_created h
  obtain ⟨hzero, hfits⟩ := hsafe i hy.find
  obtain rfl : ok = true := Proc.allocUstack_fits (Proc.allocpth_fits hfits) hok
  obtain ⟨sz, pgdir, ustacks, hpr⟩ := hy.proc
  have hself : k'.proc p = y := by rw [hy.table, updProc_self]
  have hstate : y.state = (k.proc p).state := by rw [hpr]
  refine hr.obtain (q := p) (i := i) hy.page hzero ?_ ?_ ?_ ?_ ?_ ?_ ?_
  · rw [hy.kernel]
  · rw [hy.kernel]
    rfl
  · intro q hq
    rw [hy.table, updProc_of_ne _ _ hq]
  · rw [hself, hpr]
    rfl
  · intro j _
    rw [hself, hy.pth]
    split_ifs <;> rfl
  · rw [hself, hstate]
    exact halive.ne_unused
  · rw [hself, hstate]
    exact fun h => absurd h halive.ne_embryo

/-! ### The step -/

/-- One step that meets the condition keeps the records. -/
lemma Recorded.step {k k' : Kernel} {op : Op} (hk : Shape k) (hr : Recorded k) (hf : Fresh k)
    (h : Step k op k') (hsafe : StackSafe k op) : Recorded k' := by
  by_cases hop : op.Memory
  · unfold Step at h
    cases op with
    | userinit n => exact hr.userinit (Option.ite_none_right_eq_some.mp h).2
    | forkStack page =>
      obtain ⟨p, hp, h⟩ := onCpu_eq_some.mp h
      rcases forkStep_eq_some h with ⟨np, pg, hc, -, h⟩ | ⟨_, _, _, he, _⟩ | ⟨_, _, he, _⟩
      · exact hr.forkStack hk hp hc (hf p _ np (hk.live_current (Or.inl hp)) hc) h
      · exact absurd he (by simp)
      · exact absurd he (by simp)
    | forkCopy ok =>
      obtain ⟨p, hp, h⟩ := onCpu_eq_some.mp h
      rcases forkStep_eq_some h with ⟨_, _, _, he, _⟩ | ⟨np, b, hc, -, h⟩ | ⟨_, _, he, _⟩
      · exact absurd he (by simp)
      · exact hr.forkCopy hk hp hc h
      · exact absurd he (by simp)
    | exec sz =>
      obtain ⟨p, hp, -, h⟩ := syscall_eq_some.mp h
      exact (hr.exec hk hp (Option.ite_none_right_eq_some.mp h).2).1
    | wait =>
      obtain ⟨p, hp, -, h⟩ := syscall_eq_some.mp h
      exact hr.wait hk (Or.inl hp) (hsafe p hp) h
    | resume =>
      obtain ⟨p, hp, h⟩ := onResume_eq_some.mp h
      rcases resumeStep_eq_some h with ⟨hc, h⟩ | ⟨t, havepth, -, rfl⟩
      · exact hr.wait hk (Or.inr hp) (hsafe p hp hc) h
      · exact hr.threadJoin hk (Or.inr hp) t havepth
    | threadCreate page avail =>
      obtain ⟨p, hp, -, h⟩ := syscall_eq_some.mp h
      exact hr.threadCreate hk hp (hsafe p hp) h
    | _ => exact hop.elim
  · exact hr.same (h.sameMem hop) (h.sameStacks hk hr hop)

/-- The user memory of a process, and where its stacks are, stay as they are. -/
structure SameMemory (x y : Proc) : Prop where
  sz : y.sz = x.sz
  pgdir : y.pgdir = x.pgdir
  ustacks : y.ustacks = x.ustacks

/-- The operations that copy or grow a user memory. -/
def Op.Maps : Op → Prop
  | .forkCopy _ | .sbrk _ _ => True
  | _ => False

/-- What a process under construction keeps, when it gets no kernel stack: its records, and its
memory when none is copied. -/
def EmbryoKept (op : Op) (x y : Proc) : Prop :=
  y.kstacks = x.kstacks ∧ (¬op.Maps → SameMemory x y)

lemma embryoKept_of_eq {op : Op} {x y : Proc} (hk : y.kstacks = x.kstacks) (hsz : y.sz = x.sz)
    (hpgdir : y.pgdir = x.pgdir) (hu : y.ustacks = x.ustacks) : EmbryoKept op x y :=
  ⟨hk, fun _ => ⟨hsz, hpgdir, hu⟩⟩

/-- A process under construction keeps its records as long as it has no kernel stack. -/
lemma Major.kept_of_embryo {k : Kernel} {q : Slot} {op : Op} {x y : Proc} (hk : Shape k)
    (he : (k.proc q).state = .embryo) (hop : ¬∃ n, op = .userinit n)
    (hop' : ¬∃ page, op = .forkStack page) (h : Major k q op x y) :
    (x.state ≠ .embryo → y.state ≠ .embryo) ∧ (y.state = .embryo → EmbryoKept op x y) := by
  have hcur : ¬k.Current q := fun hq => (hk.alive_current hq).ne_embryo he
  cases h with
  | grow h =>
    obtain ⟨r, -, rfl⟩ := Option.map_eq_some_iff.mp h
    exact ⟨id, fun _ => ⟨rfl, fun hno => absurd trivial hno⟩⟩
  | commit hp => exact absurd (Or.inl hp) hcur
  | fsOp | sleeplocks | joinPth => exact ⟨id, fun _ => embryoKept_of_eq rfl rfl rfl rfl⟩
  | forkImage => exact ⟨id, fun _ => ⟨rfl, fun hno => absurd trivial hno⟩⟩
  | initAllpth hp => exact absurd (Or.inl hp) hcur
  | exit => exact ⟨fun _ h => State.noConfusion h, fun h => State.noConfusion h⟩
  | threadExit c hp _ => exact absurd (Or.inl hp) hcur
  | allocSlot hnp => exact State.noConfusion (he.symm.trans (unusedSlot_state hnp))
  | allocStack _ _ h =>
    rcases h with h | h
    · exact absurd h hop
    · exact absurd h hop'
  | userinit => exact absurd ⟨_, rfl⟩ hop
  | allocFail => exact absurd ⟨_, rfl⟩ hop'
  | forkFail => exact ⟨fun _ h => State.noConfusion h, fun h => State.noConfusion h⟩
  | forkDone => exact ⟨fun _ h => State.noConfusion h, fun h => State.noConfusion h⟩
  | reap => exact ⟨fun _ h => State.noConfusion h, fun h => State.noConfusion h⟩
  | created hp => exact absurd (Or.inl hp) hcur

lemma Step.kept_of_embryo {k k' : Kernel} {op : Op} (hk : Shape k) (h : Step k op k')
    {q : Slot} (he : (k.proc q).state = .embryo) (he' : (k'.proc q).state = .embryo)
    (hop : ¬∃ n, op = .userinit n) (hop' : ¬∃ page, op = .forkStack page) :
    EmbryoKept op (k.proc q) (k'.proc q) := by
  refine (Changes.lift (R := fun x y => (x.state ≠ .embryo → y.state ≠ .embryo) ∧
    (y.state = .embryo → EmbryoKept op x y)) ?_ ?_ ?_ (h.changes hk q)).2 he'
  · exact fun x => ⟨id, fun _ => embryoKept_of_eq rfl rfl rfl rfl⟩
  · rintro x y z ⟨h₁, h₂⟩ ⟨h₁', h₂'⟩
    refine ⟨fun hx => h₁' (h₁ hx), fun hz => ?_⟩
    have hy : y.state = .embryo := by
      by_contra hy
      exact h₁' hy hz
    obtain ⟨hrec, hmem⟩ := h₂ hy
    obtain ⟨hrec', hmem'⟩ := h₂' hz
    refine ⟨hrec'.trans hrec, fun hno => ?_⟩
    exact ⟨(hmem' hno).sz.trans (hmem hno).sz, (hmem' hno).pgdir.trans (hmem hno).pgdir,
      (hmem' hno).ustacks.trans (hmem hno).ustacks⟩
  · intro x y hxy
    rcases hxy.still_or hk with h | h
    · have hst := h.state.eq_iff State.not_live_embryo
      exact ⟨fun hx hy => hx (hst.mp hy), fun _ =>
        embryoKept_of_eq h.kstacks h.sz h.pgdir h.ustacks⟩
    · exact h.kept_of_embryo hk he hop hop'

lemma userinit_of_ne {k k' : Kernel} {n : ℕ} (h : k.userinit n = some k') {q : Slot}
    (hq : (k.proc q).state ≠ .unused) : k'.proc q = k.proc q := by
  obtain ⟨np, hnp, h⟩ := Option.bind_eq_some_iff.mp h
  obtain ⟨k₁, h₁, rfl⟩ := Option.map_eq_some_iff.mp h
  obtain ⟨k₂, h₂, rfl⟩ := Option.map_eq_some_iff.mp h₁
  obtain ⟨-, rfl⟩ := kalloc_eq_some.mp h₂
  have hne : q ≠ np := by
    rintro rfl
    exact hq (unusedSlot_state hnp)
  dsimp only
  rw [updProc_of_ne _ _ hne, updProc_of_ne _ _ hne]
  exact allocSlot_of_ne hne

/-- The rest of `allocproc` in `fork` changes the new process and the place of the parent. -/
lemma forkStack_of_ne {k k' : Kernel} {p np : Slot} {page : Option ℕ}
    (h : k.forkStack p np page = some k') (hne : np ≠ p) :
    (∀ q, q ≠ np → q ≠ p → k'.proc q = k.proc q) ∧
      ∀ r, ((k'.proc p).pth (k.proc p).onTidx).cont ≠ .forkStack r := by
  cases page with
  | none =>
    obtain rfl := Option.some.inj h
    refine ⟨fun q hq hqp => ?_, fun r => ?_⟩
    · rw [Kernel.setCont, updProc_of_ne _ _ hqp, updProc_of_ne _ _ hq]
    · rw [setCont_pth, updProc_of_ne _ _ hne.symm, if_pos ⟨rfl, rfl⟩]
      exact Cont.noConfusion
  | some n =>
    obtain ⟨k₁, h₁, rfl⟩ := Option.map_eq_some_iff.mp h
    obtain ⟨k₂, h₂, rfl⟩ := Option.map_eq_some_iff.mp h₁
    obtain ⟨-, rfl⟩ := kalloc_eq_some.mp h₂
    refine ⟨fun q hq hqp => ?_, fun r => ?_⟩
    · rw [Kernel.setCont, updProc_of_ne _ _ hqp, updProc_of_ne _ _ hq]
    · rw [setCont_pth, updProc_of_ne _ _ hne.symm, if_pos ⟨rfl, rfl⟩]
      exact Cont.noConfusion

/-- After `allocproc` has found a slot. -/
lemma Fresh.forkAlloc {k : Kernel} (hk : Shape k) (hr : Recorded k) (hf : Fresh k) (p : Slot) :
    Fresh (k.forkAlloc p) := by
  unfold Kernel.forkAlloc
  split
  · exact hf
  · rename_i np hnp
    have hst := unusedSlot_state hnp
    have hkstacks : ∀ q, (((k.allocSlot np).setCont p (.forkStack np)).proc q).kstacks =
        (k.proc q).kstacks := by
      intro q
      rw [Kernel.setCont, updProc_proc]
      split_ifs with hq
      · rw [hq]
        by_cases hpn : p = np
        · rw [hpn, allocSlot_self]
          rfl
        · rw [allocSlot_of_ne hpn]
          rfl
      · by_cases hqn : q = np
        · rw [hqn, allocSlot_self]
          rfl
        · rw [allocSlot_of_ne hqn]
    intro q i r hl hc
    rw [hkstacks]
    rw [setCont_pth] at hc
    split_ifs at hc with hqi
    · obtain rfl : np = r := by simpa using hc
      exact hr.unused np hst 0
    · by_cases hqn : q = np
      · -- the new process has no thread that can run
        subst hqn
        refine absurd (setCont_live.mp hl) ?_
        refine ((hk.allocSlot hst).proc q).not_live_of_embryo ?_ i
        rw [allocSlot_self]
        rfl
      · have hl₀ := setCont_live.mp hl
        rw [Kernel.Live, allocSlot_of_ne hqn] at hl₀
        rw [allocSlot_of_ne hqn] at hc
        exact hf q i r hl₀ hc

/-- One step keeps the records of processes without a kernel stack. -/
lemma Fresh.step {k k' : Kernel} {op : Op} (hk : Shape k) (hr : Recorded k) (hf : Fresh k)
    (h : Step k op k') : Fresh k' := by
  by_cases hfork : op = .forkAlloc
  · subst hfork
    obtain ⟨p, -, -, h⟩ := syscall_eq_some.mp h
    obtain rfl := Option.some.inj h
    exact hf.forkAlloc hk hr p
  intro p i np hl hc
  have hold : k.Live p i ∧ ((k.proc p).pth i).cont = .forkStack np := by
    rcases h.place hk p i hl with ⟨hl₀, hc₀⟩ | he
    · exact ⟨hl₀, hc₀.symm.trans hc⟩
    · rw [hc] at he
      rcases he with (he | ⟨-, -, he⟩ | ⟨r, he⟩ | ⟨r, he, -⟩) | ⟨⟨n, he⟩ | he, -⟩ | ⟨-, he⟩ |
        ⟨-, t, he⟩
      · exact absurd he (by simp)
      · exact absurd he hfork
      all_goals exact absurd he (by simp)
  have ht : ((k.proc p).pth i).cont.target = some np := by rw [hold.2]; rfl
  have hemb := hk.target p i np hold.1 ht
  have hemb' := (hk.step h).target p i np hl (by rw [hc]; rfl)
  by_cases hop : ∃ n, op = .userinit n
  · obtain ⟨n, rfl⟩ := hop
    have hne : (k.proc np).state ≠ .unused := by
      rw [hemb]
      exact State.noConfusion
    rw [userinit_of_ne (Option.ite_none_right_eq_some.mp h).2 hne]
    exact hf p i np hold.1 hold.2
  by_cases hop' : ∃ page, op = .forkStack page
  · obtain ⟨page, rfl⟩ := hop'
    obtain ⟨r, hrun, h⟩ := onCpu_eq_some.mp h
    rcases forkStep_eq_some h with ⟨nr, pg, hcr, -, h⟩ | ⟨_, _, _, he, _⟩ | ⟨_, _, he, _⟩
    · have htr : (k.proc r).mypth.cont.target = some nr := by rw [hcr]; rfl
      obtain ⟨hsame, hcont⟩ := forkStack_of_ne h (hk.target_ne (Or.inl hrun) htr)
      -- another thread constructs the process
      have hnr : np ≠ nr := by
        rintro rfl
        obtain ⟨rfl, rfl⟩ := hk.only (Or.inl hrun) htr hold.1 ht
        exact hcont np hc
      have hnp : np ≠ r := by
        rintro rfl
        exact (hk.alive_current (Or.inl hrun)).ne_embryo hemb
      rw [hsame np hnr hnp]
      exact hf p i np hold.1 hold.2
    · exact absurd he (by simp)
    · exact absurd he (by simp)
  rw [(h.kept_of_embryo hk hemb hemb' hop hop').1]
  exact hf p i np hold.1 hold.2

lemma recorded_pinit : Recorded Kernel.pinit where
  clean := rfl
  null := rfl
  held _ _ h := absurd h (by simp [Kernel.pinit])
  obtained _ _ h := absurd rfl h
  once _ _ _ h := absurd rfl h
  thread _ _ h := absurd rfl h
  unused _ _ _ := rfl
  embryo _ h := State.noConfusion h

/-- The invariants, along the runs that meet the condition. -/
lemma StackReach.inv {k : Kernel} (h : StackReach k) : Shape k ∧ Recorded k ∧ Fresh k := by
  refine Reachable.invariant (I := fun k => Shape k ∧ Recorded k ∧ Fresh k) ?_ ?_ h
  · rintro _ rfl
    exact ⟨shape_pinit, recorded_pinit, fun _ _ _ hl => absurd rfl hl.ne_unused⟩
  · rintro s op s' ⟨hs, hr, hf⟩ ⟨hstep, hsafe⟩
    exact ⟨hs.step hstep, hr.step hs hf hstep hsafe, hf.step hs hr hstep⟩

/-! ### The runs -/

/-- **Kernel stacks are given back**, in every run that meets the condition: no page is freed
twice, a page that has not been freed belongs to a process that has not been reaped, and after
`exec` the process has only the page of the caller. -/
theorem stacksKept_of_stackSafe {k : Kernel} (h : StackReach k) : StacksKept k ∧
    ∀ p sz k', k.cpu = .run p → Step k (.exec sz) k' → ∀ n, k'.kmem n = some p →
      n = (k'.proc p).kstacks (k'.proc p).onTidx := by
  obtain ⟨hs, hr, -⟩ := h.inv
  refine ⟨⟨hr.clean, fun n p hn => ⟨fun hu => ?_, hr.held n p hn⟩⟩, fun p sz k' hp hk' => ?_⟩
  · obtain ⟨i, hi⟩ := hr.held n p hn
    rw [hr.unused p hu i] at hi
    rw [← hi, hr.null] at hn
    exact absurd hn (by simp)
  · obtain ⟨p', hp', -, hk'⟩ := syscall_eq_some.mp hk'
    obtain rfl := Cpu.run.inj (hp.symm.trans hp')
    exact (hr.exec hs hp (Option.ite_none_right_eq_some.mp hk').2).2

/-- No zombie has a joined thread whose page is recorded. -/
def zombiesClear (k : Kernel) : Bool :=
  slots.all fun q => (k.proc q).state ≠ .zombie || tidxs.all fun i =>
    ((k.proc q).pth i).kstack ≠ 0 || (k.proc q).kstacks i = 0

/-- Every slot of `p` is without a record, or in use, and there is room for a user stack. -/
def slotsClear (k : Kernel) (p : Slot) (avail : ℕ) : Bool :=
  (0 < avail ∧ PGROUNDUP (k.proc p).sz * PGSIZE + PGSIZE < KERNBASE) && tidxs.all fun i =>
    ((k.proc p).pth i).state ≠ .unused || (k.proc p).kstacks i = 0

/-- A condition that is enough, computed. -/
def stackSafe (k : Kernel) : Op → Bool
  | .threadCreate _ avail => slots.all fun p => k.cpu ≠ .run p || slotsClear k p avail
  | .wait | .resume => zombiesClear k
  | _ => true

lemma stacksClear_of_zombiesClear {k : Kernel} (h : zombiesClear k = true) {p q : Slot}
    (hq : k.zombieChild p = some q) : (k.proc q).StacksClear := by
  intro i hi
  have hz := (find_zombie hq).2
  have hall := List.all_eq_true.mp h q (List.mem_finRange q)
  rcases Bool.or_eq_true_iff.mp hall with hne | hall
  · exact absurd hz (of_decide_eq_true hne)
  · rcases Bool.or_eq_true_iff.mp (List.all_eq_true.mp hall i (List.mem_finRange i)) with h | h
    · exact absurd hi (of_decide_eq_true h)
    · exact of_decide_eq_true h

lemma stackSafe_of_eq_true {k : Kernel} {op : Op} (h : stackSafe k op = true) :
    StackSafe k op := by
  cases op with
  | wait => exact fun p _ q => stacksClear_of_zombiesClear h
  | resume => exact fun p _ _ q => stacksClear_of_zombiesClear h
  | threadCreate page avail =>
    intro p hp i hi
    have hall := List.all_eq_true.mp h p (List.mem_finRange p)
    rcases Bool.or_eq_true_iff.mp hall with hne | hall
    · exact absurd hp (of_decide_eq_true hne)
    · obtain ⟨hroom, hall⟩ := Bool.and_eq_true_iff.mp hall
      refine ⟨?_, Or.inr (of_decide_eq_true hroom)⟩
      have hslot : ((k.proc p).pth i).state = .unused := by simpa using List.find?_some hi
      rcases Bool.or_eq_true_iff.mp (List.all_eq_true.mp hall i (List.mem_finRange i)) with h | h
      · exact absurd hslot (of_decide_eq_true h)
      · exact of_decide_eq_true h
  | _ => trivial

/-- The child of the first process creates a thread, executes `exec`, and ends. -/
def stackOps : List Op :=
  [.userinit 1, .pass, .forkAlloc, .forkStack (some 2), .forkCopy true, .forkDone, .wait,
    .schedule, .threadCreate (some 3) 1, .exec 8192, .exitBegin] ++
    List.replicate (NOFILE + 1) .exitFile ++ [.exit, .schedule, .pass, .resume]

/-- The child is reaped, and both of its pages have been given back. -/
theorem stacksKept_of_stackSafe_child : ∃ k, StackReach k ∧ (k.proc 1).state = .unused ∧
    k.nextpid = 3 ∧ ∀ n, k.kmem n ≠ some 1 := by
  have hrun : ((run (guardedNext step fun k op => stackSafe k op = true) Kernel.pinit stackOps).any
      fun k => decide ((k.proc 1).state = .unused ∧ k.nextpid = 3)) = true := by
    decide +kernel
  obtain ⟨k, hk, hall⟩ := (Option.any_eq_true _ _).mp hrun
  have hnext : ∀ s i s', guardedNext step (fun k op => stackSafe k op = true) s i = some s' →
      Guarded Step StackSafe s i s' := fun s i s' hs =>
    ⟨(guardedNext_eq_some.mp hs).1, stackSafe_of_eq_true (guardedNext_eq_some.mp hs).2⟩
  have hreach : StackReach k := Reachable.run hnext (.start rfl) hk
  obtain ⟨hu, hpid⟩ := of_decide_eq_true hall
  exact ⟨k, hreach, hu, hpid, fun n hn => ((stacksKept_of_stackSafe hreach).1.held n 1 hn).1 hu⟩

/-- The child of the first process creates a thread and joins it, and ends. -/
def joinedStackOps : List Op :=
  [.userinit 1, .pass, .forkAlloc, .forkStack (some 2), .forkCopy true, .forkDone, .wait,
    .schedule, .threadCreate (some 3) 1, .threadJoin 3, .schedule, .threadExit 7, .schedule, .pass,
    .resume, .exitBegin] ++
    List.replicate (NOFILE + 1) .exitFile ++ [.exit, .schedule, .pass, .resume]

/-- The child is reaped, and the page of the thread has not been given back. -/
theorem not_stacksKept : ∃ k, Reach k ∧ k.LockFree ∧ (k.proc 1).state = .unused ∧
    k.kmem 3 = some 1 := by
  have hrun : ((run step Kernel.pinit joinedStackOps).any fun k =>
      decide (k.LockFree ∧ (k.proc 1).state = .unused ∧ k.kmem 3 = some 1)) = true := by
    decide +kernel
  obtain ⟨k, hk, hall⟩ := (Option.any_eq_true _ _).mp hrun
  exact ⟨k, Reachable.run (fun _ _ _ hs => hs) (.start rfl) hk, of_decide_eq_true hall⟩

end Xv6Projects.Threads
