import Xv6Projects.Threads.Shape

/-!
# The globals under a step

Most steps change the table and the CPU only.  The counters for pids and thread ids, and
`initproc`, change when a process or a thread is created.
-/

namespace Xv6Projects.Threads

open Library Kernel

/-- Besides the table and the CPU nothing has changed. -/
def SameGlobals (k k' : Kernel) : Prop := k' = { k with proc := k'.proc, cpu := k'.cpu }

/-- The counter for thread ids and `initproc` have not changed. -/
structure SameIds (k k' : Kernel) : Prop where
  nextTid : k'.nextTid = k.nextTid
  initproc : k'.initproc = k.initproc

/-- The allocator has not changed. -/
structure SameMem (k k' : Kernel) : Prop where
  kmem : k'.kmem = k.kmem
  refreed : k'.refreed = k.refreed

/-- The log and the sleeplocks have not changed. -/
structure SameLog (k k' : Kernel) : Prop where
  outstanding : k'.outstanding = k.outstanding
  committing : k'.committing = k.committing
  locked : k'.locked = k.locked

/-- The operations that work on the table only. -/
def Op.Local : Op → Prop
  | .pass | .schedule | .timer | .wakeup _ | .sleep _ | .kill _ | .forkDone | .sbrk _ _
  | .exitBegin | .exitFile | .exit | .threadExit _ | .threadJoin _ | .fdalloc _ | .close _
  | .chdir _ => True
  | _ => False

/-- The operations on the log and on sleeplocks. -/
def Op.Log : Op → Prop
  | .beginOp | .endOp | .commitDone | .logWrite | .acquiresleep _ | .releasesleep _ => True
  | _ => False

section
variable {k k' : Kernel}

lemma SameGlobals.ids (h : SameGlobals k k') : SameIds k k' := by
  rw [SameGlobals] at h
  constructor
  · rw [h]
  · rw [h]

lemma SameGlobals.mem (h : SameGlobals k k') : SameMem k k' := by
  rw [SameGlobals] at h
  constructor
  · rw [h]
  · rw [h]

lemma SameGlobals.log (h : SameGlobals k k') : SameLog k k' := by
  rw [SameGlobals] at h
  constructor
  · rw [h]
  · rw [h]
  · rw [h]

lemma sameGlobals_sleepAddr (k : Kernel) (p : Slot) (a : ℕ) : SameGlobals k (k.sleepAddr p a) :=
  rfl

lemma sameGlobals_timer (k : Kernel) (p : Slot) : SameGlobals k (k.timer p) := by
  unfold Kernel.timer
  dsimp only
  split_ifs <;> rfl

lemma sameGlobals_pass (k : Kernel) (ps : List Slot) : SameGlobals k (k.pass ps) := by
  unfold Kernel.pass
  split <;> rfl

lemma sameGlobals_schedule (k : Kernel) (p : Slot) : SameGlobals k (k.schedule p) := by
  unfold Kernel.schedule
  split
  · rfl
  · exact sameGlobals_pass k _

lemma sameGlobals_kill (k : Kernel) (pid : ℤ) : SameGlobals k (k.kill pid) := by
  unfold Kernel.kill
  split <;> rfl

lemma sameGlobals_growproc {p : Slot} {n avail : ℕ} (h : k.growproc p n avail = some k') :
    SameGlobals k k' := by
  obtain ⟨y, -, rfl⟩ := Option.map_eq_some_iff.mp h
  rfl

lemma sameGlobals_exitBegin {p : Slot} (h : k.exitBegin p = some k') : SameGlobals k k' := by
  unfold Kernel.exitBegin at h
  split_ifs at h
  obtain rfl := Option.some.inj h
  rfl

lemma sameGlobals_exitFile (k : Kernel) (p : Slot) (fd : ℕ) : SameGlobals k (k.exitFile p fd) := by
  unfold Kernel.exitFile
  split_ifs <;> rfl

lemma sameGlobals_exit (k : Kernel) (p : Slot) : SameGlobals k (k.exit p) := by
  unfold Kernel.exit Kernel.reparent
  split_ifs <;> rfl

lemma sameGlobals_threadJoin (k : Kernel) (p : Slot) (t : ℤ) (havepth : Bool) :
    SameGlobals k (k.threadJoin p t havepth).2 := by
  unfold Kernel.threadJoin
  split
  · split_ifs <;> rfl
  · split_ifs <;> rfl

lemma sameGlobals_fdalloc (k : Kernel) (p : Slot) (f : ℕ) : SameGlobals k (k.fdalloc p f) := by
  unfold Kernel.fdalloc
  split <;> rfl

/-- A local operation changes no global. -/
lemma Step.sameGlobals {op : Op} (h : Step k op k') (hop : op.Local) : SameGlobals k k' := by
  unfold Step at h
  cases op with
  | pass =>
    obtain ⟨-, h⟩ := Option.ite_none_right_eq_some.mp h
    obtain rfl := Option.some.inj h
    exact sameGlobals_pass k _
  | schedule =>
    obtain ⟨p, -, h⟩ := onSched_eq_some.mp h
    obtain rfl := Option.some.inj h
    exact sameGlobals_schedule k p
  | timer =>
    obtain ⟨p, -, h⟩ := onCpu_eq_some.mp h
    obtain rfl := Option.some.inj h
    exact sameGlobals_timer k p
  | wakeup a =>
    obtain ⟨-, h⟩ := Option.ite_none_right_eq_some.mp h
    obtain rfl := Option.some.inj h
    rfl
  | sleep a =>
    obtain ⟨p, -, h⟩ := onCpu_eq_some.mp h
    obtain rfl := Option.some.inj h
    exact sameGlobals_sleepAddr k p a
  | kill pid =>
    obtain ⟨p, -, -, h⟩ := syscall_eq_some.mp h
    obtain rfl := Option.some.inj h
    exact sameGlobals_kill k pid
  | forkDone =>
    obtain ⟨p, -, h⟩ := onCpu_eq_some.mp h
    rcases forkStep_eq_some h with ⟨_, _, _, he, _⟩ | ⟨_, _, _, he, _⟩ | ⟨np, -, -, rfl⟩
    · exact absurd he (by simp)
    · exact absurd he (by simp)
    · rfl
  | sbrk n avail =>
    obtain ⟨p, -, -, h⟩ := syscall_eq_some.mp h
    exact sameGlobals_growproc (Option.ite_none_right_eq_some.mp h).2
  | exitBegin =>
    obtain ⟨p, -, -, h⟩ := syscall_eq_some.mp h
    exact sameGlobals_exitBegin h
  | exitFile =>
    obtain ⟨p, -, h⟩ := onCpu_eq_some.mp h
    rcases exitStep_eq_some (Option.ite_none_right_eq_some.mp h).2 with
      ⟨fd, -, -, rfl⟩ | ⟨_, he, _⟩
    · exact sameGlobals_exitFile k p fd
    · exact absurd he (by simp)
  | exit =>
    obtain ⟨p, -, h⟩ := onCpu_eq_some.mp h
    rcases exitStep_eq_some (Option.ite_none_right_eq_some.mp h).2 with
      ⟨_, _, he, _⟩ | ⟨-, -, rfl⟩
    · exact absurd he (by simp)
    · exact sameGlobals_exit k p
  | threadExit v =>
    obtain ⟨p, -, -, h⟩ := syscall_eq_some.mp h
    obtain rfl := Option.some.inj h
    rfl
  | threadJoin t =>
    obtain ⟨p, -, -, h⟩ := syscall_eq_some.mp h
    obtain rfl := Option.some.inj h
    exact sameGlobals_threadJoin k p t false
  | fdalloc f =>
    obtain ⟨p, -, h⟩ := onCpu_eq_some.mp h
    obtain ⟨-, h⟩ := Option.ite_none_right_eq_some.mp h
    obtain rfl := Option.some.inj h
    exact sameGlobals_fdalloc k p f
  | close fd =>
    obtain ⟨p, -, h⟩ := onCpu_eq_some.mp h
    obtain ⟨-, h⟩ := Option.ite_none_right_eq_some.mp h
    obtain rfl := Option.some.inj h
    rfl
  | chdir ip =>
    obtain ⟨p, -, h⟩ := onCpu_eq_some.mp h
    obtain ⟨-, h⟩ := Option.ite_none_right_eq_some.mp h
    obtain rfl := Option.some.inj h
    rfl
  | userinit | forkAlloc | forkStack | forkCopy | exec | wait | threadCreate | resume | beginOp
  | endOp | commitDone | logWrite | acquiresleep | releasesleep => exact hop.elim

/-- An operation on the log or a sleeplock changes neither counters nor the allocator. -/
lemma Step.sameOfLog {op : Op} (h : Step k op k') (hop : op.Log) : SameIds k k' ∧ SameMem k k' := by
  unfold Step at h
  cases op with
  | beginOp =>
    obtain ⟨p, -, h⟩ := onCpu_eq_some.mp h
    obtain ⟨-, h⟩ := Option.ite_none_right_eq_some.mp h
    obtain rfl := Option.some.inj h
    unfold Kernel.beginOp
    split_ifs
    all_goals exact ⟨⟨rfl, rfl⟩, rfl, rfl⟩
  | endOp =>
    obtain ⟨p, -, h⟩ := onCpu_eq_some.mp h
    obtain ⟨-, h⟩ := Option.ite_none_right_eq_some.mp h
    unfold Kernel.endOp at h
    split_ifs at h
    all_goals
      obtain rfl := Option.some.inj h
      exact ⟨⟨rfl, rfl⟩, rfl, rfl⟩
  | commitDone =>
    obtain ⟨p, -, h⟩ := onCpu_eq_some.mp h
    obtain ⟨-, h⟩ := Option.ite_none_right_eq_some.mp h
    obtain rfl := Option.some.inj h
    exact ⟨⟨rfl, rfl⟩, rfl, rfl⟩
  | logWrite =>
    obtain ⟨p, -, h⟩ := onCpu_eq_some.mp h
    obtain ⟨-, h⟩ := Option.ite_none_right_eq_some.mp h
    unfold Kernel.logWrite at h
    split_ifs at h
    obtain rfl := Option.some.inj h
    exact ⟨⟨rfl, rfl⟩, rfl, rfl⟩
  | acquiresleep l =>
    obtain ⟨p, -, h⟩ := onCpu_eq_some.mp h
    obtain rfl := Option.some.inj h
    unfold Kernel.acquiresleep
    split_ifs
    all_goals exact ⟨⟨rfl, rfl⟩, rfl, rfl⟩
  | releasesleep l =>
    obtain ⟨p, -, h⟩ := onCpu_eq_some.mp h
    obtain ⟨-, h⟩ := Option.ite_none_right_eq_some.mp h
    obtain rfl := Option.some.inj h
    exact ⟨⟨rfl, rfl⟩, rfl, rfl⟩
  | _ => exact hop.elim

end

/-! ### Thread ids and `initproc` -/

/-- The operations that count up `nextTid`. -/
def Op.Creates : Op → Prop
  | .userinit _ | .forkAlloc | .threadCreate _ _ => True
  | _ => False

section
variable {k k' : Kernel}

lemma sameIds_forkStack {p np : Slot} {page : Option ℕ} (h : k.forkStack p np page = some k') :
    SameIds k k' := by
  cases page with
  | none =>
    obtain rfl := Option.some.inj h
    exact ⟨rfl, rfl⟩
  | some n =>
    obtain ⟨k₁, h₁, rfl⟩ := Option.map_eq_some_iff.mp h
    obtain ⟨k₂, h₂, rfl⟩ := Option.map_eq_some_iff.mp h₁
    obtain ⟨-, rfl⟩ := kalloc_eq_some.mp h₂
    exact ⟨rfl, rfl⟩

lemma sameIds_forkCopy {p np : Slot} {ok : Bool} (h : k.forkCopy p np ok = some k') :
    SameIds k k' := by
  unfold Kernel.forkCopy at h
  split_ifs at h
  · obtain rfl := Option.some.inj h
    exact ⟨rfl, rfl⟩
  · obtain ⟨k₁, h₁, rfl⟩ := Option.map_eq_some_iff.mp h
    obtain ⟨-, rfl⟩ := kfree_eq_some.mp h₁
    exact ⟨rfl, rfl⟩

lemma sameIds_exec {p : Slot} {sz : ℕ} (h : k.exec p sz = some k') : SameIds k k' := by
  obtain ⟨k₁, h₁, rfl⟩ := Option.map_eq_some_iff.mp h
  obtain ⟨m, b, rfl⟩ := kfreeAll_eq h₁
  exact ⟨rfl, rfl⟩

lemma sameIds_wait {p : Slot} (h : k.wait p = some k') : SameIds k k' := by
  unfold Kernel.wait at h
  split at h
  · obtain ⟨k₁, h₁, rfl⟩ := Option.map_eq_some_iff.mp h
    obtain ⟨k₂, h₂, rfl⟩ := Option.map_eq_some_iff.mp h₁
    obtain ⟨m, b, rfl⟩ := kfreeAll_eq h₂
    exact ⟨rfl, rfl⟩
  · split_ifs at h
    · obtain rfl := Option.some.inj h
      exact ⟨rfl, rfl⟩
    · obtain rfl := Option.some.inj h
      exact ⟨rfl, rfl⟩

/-- Only the creation of a process or a thread hands out an id. -/
lemma Step.sameIds {op : Op} (h : Step k op k') (hop : ¬op.Creates) : SameIds k k' := by
  by_cases hlocal : op.Local
  · exact (h.sameGlobals hlocal).ids
  by_cases hlog : op.Log
  · exact (h.sameOfLog hlog).1
  unfold Step at h
  cases op with
  | forkStack page =>
    obtain ⟨p, -, h⟩ := onCpu_eq_some.mp h
    rcases forkStep_eq_some h with ⟨np, pg, -, -, h⟩ | ⟨_, _, _, he, _⟩ | ⟨_, _, he, _⟩
    · exact sameIds_forkStack h
    · exact absurd he (by simp)
    · exact absurd he (by simp)
  | forkCopy ok =>
    obtain ⟨p, -, h⟩ := onCpu_eq_some.mp h
    rcases forkStep_eq_some h with ⟨_, _, _, he, _⟩ | ⟨np, b, -, -, h⟩ | ⟨_, _, he, _⟩
    · exact absurd he (by simp)
    · exact sameIds_forkCopy h
    · exact absurd he (by simp)
  | exec sz =>
    obtain ⟨p, -, -, h⟩ := syscall_eq_some.mp h
    exact sameIds_exec (Option.ite_none_right_eq_some.mp h).2
  | wait =>
    obtain ⟨p, -, -, h⟩ := syscall_eq_some.mp h
    exact sameIds_wait h
  | resume =>
    obtain ⟨p, -, h⟩ := onResume_eq_some.mp h
    rcases resumeStep_eq_some h with ⟨-, h⟩ | ⟨t, havepth, -, rfl⟩
    · exact sameIds_wait h
    · exact (sameGlobals_threadJoin k p t havepth).ids
  | userinit | forkAlloc | threadCreate => exact absurd trivial hop
  | beginOp | endOp | commitDone | logWrite | acquiresleep | releasesleep =>
    exact absurd trivial hlog
  | _ => exact absurd trivial hlocal

lemma Step.initproc {op : Op} (h : Step k op k') :
    k'.initproc = k.initproc ∨ ∃ n, op = .userinit n := by
  by_cases hop : op.Creates
  · cases op with
    | userinit n => exact Or.inr ⟨n, rfl⟩
    | forkAlloc =>
      obtain ⟨p, -, -, h⟩ := syscall_eq_some.mp h
      obtain rfl := Option.some.inj h
      refine Or.inl ?_
      unfold Kernel.forkAlloc
      split <;> rfl
    | threadCreate page avail =>
      obtain ⟨p, -, -, h⟩ := syscall_eq_some.mp h
      obtain ⟨i, n, ok, y, -, hy, -⟩ := threadCreate_created h
      rw [hy.kernel]
      exact Or.inl rfl
    | _ => exact hop.elim
  · exact Or.inl (h.sameIds hop).initproc

end

/-! ### Pages -/

/-- The operations that can obtain a page for a kernel stack, or free one. -/
def Op.Memory : Op → Prop
  | .userinit _ | .forkStack _ | .forkCopy _ | .exec _ | .wait | .resume | .threadCreate _ _ => True
  | _ => False

section
variable {k k' : Kernel}

lemma sameMem_forkAlloc (k : Kernel) (p : Slot) : SameMem k (k.forkAlloc p) := by
  unfold Kernel.forkAlloc
  split
  all_goals exact ⟨rfl, rfl⟩

/-- The other operations leave the allocator as it is. -/
lemma Step.sameMem {op : Op} (h : Step k op k') (hop : ¬op.Memory) : SameMem k k' := by
  by_cases hlocal : op.Local
  · exact (h.sameGlobals hlocal).mem
  by_cases hlog : op.Log
  · exact (h.sameOfLog hlog).2
  unfold Step at h
  cases op with
  | forkAlloc =>
    obtain ⟨p, -, -, h⟩ := syscall_eq_some.mp h
    obtain rfl := Option.some.inj h
    exact sameMem_forkAlloc k p
  | userinit | forkStack | forkCopy | exec | wait | resume | threadCreate =>
    exact absurd trivial hop
  | beginOp | endOp | commitDone | logWrite | acquiresleep | releasesleep =>
    exact absurd trivial hlog
  | _ => exact absurd trivial hlocal

end

/-! ### The log -/

section
variable {k k' : Kernel}

lemma sameLog_userinit {n : ℕ} (h : k.userinit n = some k') : SameLog k k' := by
  obtain ⟨np, -, h⟩ := Option.bind_eq_some_iff.mp h
  obtain ⟨k₁, h₁, rfl⟩ := Option.map_eq_some_iff.mp h
  obtain ⟨k₂, h₂, rfl⟩ := Option.map_eq_some_iff.mp h₁
  obtain ⟨-, rfl⟩ := kalloc_eq_some.mp h₂
  exact ⟨rfl, rfl, rfl⟩

lemma sameLog_forkAlloc (k : Kernel) (p : Slot) : SameLog k (k.forkAlloc p) := by
  unfold Kernel.forkAlloc
  split
  all_goals exact ⟨rfl, rfl, rfl⟩

lemma sameLog_forkStack {p np : Slot} {page : Option ℕ} (h : k.forkStack p np page = some k') :
    SameLog k k' := by
  cases page with
  | none =>
    obtain rfl := Option.some.inj h
    exact ⟨rfl, rfl, rfl⟩
  | some n =>
    obtain ⟨k₁, h₁, rfl⟩ := Option.map_eq_some_iff.mp h
    obtain ⟨k₂, h₂, rfl⟩ := Option.map_eq_some_iff.mp h₁
    obtain ⟨-, rfl⟩ := kalloc_eq_some.mp h₂
    exact ⟨rfl, rfl, rfl⟩

lemma sameLog_forkCopy {p np : Slot} {ok : Bool} (h : k.forkCopy p np ok = some k') :
    SameLog k k' := by
  unfold Kernel.forkCopy at h
  split_ifs at h
  · obtain rfl := Option.some.inj h
    exact ⟨rfl, rfl, rfl⟩
  · obtain ⟨k₁, h₁, rfl⟩ := Option.map_eq_some_iff.mp h
    obtain ⟨-, rfl⟩ := kfree_eq_some.mp h₁
    exact ⟨rfl, rfl, rfl⟩

lemma sameLog_exec {p : Slot} {sz : ℕ} (h : k.exec p sz = some k') : SameLog k k' := by
  obtain ⟨k₁, h₁, rfl⟩ := Option.map_eq_some_iff.mp h
  obtain ⟨m, b, rfl⟩ := kfreeAll_eq h₁
  exact ⟨rfl, rfl, rfl⟩

lemma sameLog_wait {p : Slot} (h : k.wait p = some k') : SameLog k k' := by
  unfold Kernel.wait at h
  split at h
  · obtain ⟨k₁, h₁, rfl⟩ := Option.map_eq_some_iff.mp h
    obtain ⟨k₂, h₂, rfl⟩ := Option.map_eq_some_iff.mp h₁
    obtain ⟨m, b, rfl⟩ := kfreeAll_eq h₂
    exact ⟨rfl, rfl, rfl⟩
  · split_ifs at h
    all_goals
      obtain rfl := Option.some.inj h
      exact ⟨rfl, rfl, rfl⟩

/-- The other operations leave the log and the sleeplocks as they are. -/
lemma Step.sameLog {op : Op} (h : Step k op k') (hop : ¬op.Log) : SameLog k k' := by
  by_cases hlocal : op.Local
  · exact (h.sameGlobals hlocal).log
  unfold Step at h
  cases op with
  | userinit n => exact sameLog_userinit (Option.ite_none_right_eq_some.mp h).2
  | forkAlloc =>
    obtain ⟨p, -, -, h⟩ := syscall_eq_some.mp h
    obtain rfl := Option.some.inj h
    exact sameLog_forkAlloc k p
  | forkStack page =>
    obtain ⟨p, -, h⟩ := onCpu_eq_some.mp h
    rcases forkStep_eq_some h with ⟨np, pg, -, -, h⟩ | ⟨_, _, _, he, _⟩ | ⟨_, _, he, _⟩
    · exact sameLog_forkStack h
    · exact absurd he (by simp)
    · exact absurd he (by simp)
  | forkCopy ok =>
    obtain ⟨p, -, h⟩ := onCpu_eq_some.mp h
    rcases forkStep_eq_some h with ⟨_, _, _, he, _⟩ | ⟨np, b, -, -, h⟩ | ⟨_, _, he, _⟩
    · exact absurd he (by simp)
    · exact sameLog_forkCopy h
    · exact absurd he (by simp)
  | exec sz =>
    obtain ⟨p, -, -, h⟩ := syscall_eq_some.mp h
    exact sameLog_exec (Option.ite_none_right_eq_some.mp h).2
  | wait =>
    obtain ⟨p, -, -, h⟩ := syscall_eq_some.mp h
    exact sameLog_wait h
  | resume =>
    obtain ⟨p, -, h⟩ := onResume_eq_some.mp h
    rcases resumeStep_eq_some h with ⟨-, h⟩ | ⟨t, havepth, -, rfl⟩
    · exact sameLog_wait h
    · exact (sameGlobals_threadJoin k p t havepth).log
  | threadCreate page avail =>
    obtain ⟨p, -, -, h⟩ := syscall_eq_some.mp h
    obtain ⟨i, n, ok, y, -, hy, -⟩ := threadCreate_created h
    constructor
    all_goals rw [hy.kernel]; rfl
  | beginOp | endOp | commitDone | logWrite | acquiresleep | releasesleep =>
    exact absurd trivial hop
  | _ => exact absurd trivial hlocal

end

/-- The thread slot that the operation gives a thread id. -/
def NewTid (k : Kernel) (q : Slot) (i : Tidx) : Op → Prop
  | .userinit _ | .forkAlloc => k.unusedSlot = some q ∧ i = 0
  | .threadCreate _ _ => k.cpu = .run q ∧
      tidxs.find? (fun j => ((k.proc q).pth j).state = .unused) = some i
  | _ => False

lemma NewTid.eq {k : Kernel} {op : Op} {q r : Slot} {i j : Tidx} (h : NewTid k q i op)
    (h' : NewTid k r j op) : q = r ∧ i = j := by
  cases op with
  | userinit | forkAlloc =>
    obtain ⟨h₁, rfl⟩ := h
    obtain ⟨h₂, rfl⟩ := h'
    exact ⟨Option.some.inj (h₁.symm.trans h₂), rfl⟩
  | threadCreate =>
    obtain ⟨h₁, h₂⟩ := h
    obtain ⟨h₃, h₄⟩ := h'
    obtain rfl := Cpu.run.inj (h₁.symm.trans h₃)
    exact ⟨rfl, Option.some.inj (h₂.symm.trans h₄)⟩
  | _ => exact h.elim

/-- A new thread gets `nextTid`, which is counted up. -/
lemma Step.nextTid {k k' : Kernel} {op : Op} (h : Step k op k') :
    (∃ q i, NewTid k q i op) ∧ k'.nextTid = (k.nextTid + 1).bmod (2 ^ 32) ∨
      (∀ q i, ¬NewTid k q i op) ∧ k'.nextTid = k.nextTid := by
  by_cases hop : op.Creates
  · unfold Step at h
    cases op with
    | userinit n =>
      obtain ⟨-, h⟩ := Option.ite_none_right_eq_some.mp h
      obtain ⟨np, hnp, h⟩ := Option.bind_eq_some_iff.mp h
      obtain ⟨k₁, h₁, rfl⟩ := Option.map_eq_some_iff.mp h
      obtain ⟨k₂, h₂, rfl⟩ := Option.map_eq_some_iff.mp h₁
      obtain ⟨-, rfl⟩ := kalloc_eq_some.mp h₂
      exact Or.inl ⟨⟨np, 0, hnp, rfl⟩, rfl⟩
    | forkAlloc =>
      obtain ⟨p, -, -, h⟩ := syscall_eq_some.mp h
      obtain rfl := Option.some.inj h
      unfold Kernel.forkAlloc
      split
      · rename_i hnone
        refine Or.inr ⟨?_, rfl⟩
        rintro q i ⟨hq, -⟩
        exact absurd (hnone.symm.trans hq) (by simp)
      · rename_i np hnp
        exact Or.inl ⟨⟨np, 0, hnp, rfl⟩, rfl⟩
    | threadCreate page avail =>
      obtain ⟨p, hp, -, h⟩ := syscall_eq_some.mp h
      obtain ⟨i, n, ok, y, -, hy, -⟩ := threadCreate_created h
      refine Or.inl ⟨⟨p, i, hp, hy.find⟩, ?_⟩
      rw [hy.kernel]
    | _ => exact hop.elim
  · refine Or.inr ⟨?_, (h.sameIds hop).nextTid⟩
    intro q i hnew
    cases op with
    | userinit | forkAlloc | threadCreate => exact hop trivial
    | _ => exact hnew.elim

end Xv6Projects.Threads
