import Xv6Projects.Threads.Shape

/-!
# The calls of the threads, and the stores of a failed `fork`

A finer system over the same kernel.  It keeps the call in which each thread is, and takes apart
the two stores with which a failed `fork` gives its process back: they are made without the lock,
and the thread can be preempted between `p->state = UNUSED` and `pth->state = UNUSED`.
-/

namespace Xv6Projects.Threads

open Library Kernel

/-! ### Calls -/

/-- The call in which a thread is. -/
inductive Call
  /-- None, or one that neither uses files nor gives a process back. -/
  | none
  /-- A system call on files, the part of `exec` before its commit, or the loop of `exit` that
  closes the files. -/
  | file
  /-- A `fork` that has failed: slot `np` is marked unused, and its first thread is not. -/
  | undo (np : Slot)
deriving DecidableEq, Repr

/-- The operations of the log and of sleeplocks that change what the thread holds. -/
def Op.Holds : Op → Bool
  | .beginOp | .endOp | .commitDone | .acquiresleep _ | .releasesleep _ => true
  | _ => false

/-- The operations of a call on files. -/
def Op.OnFiles : Op → Bool
  | .fdalloc _ | .close _ | .chdir _ | .exitFile | .logWrite => true
  | o => o.Holds

/-- The operations that start a system call. -/
def Op.Starts : Op → Bool
  | .kill _ | .forkAlloc | .exec _ | .sbrk _ _ | .exitBegin | .wait | .threadCreate _ _
  | .threadExit _ | .threadJoin _ => true
  | _ => false

/-- The operations that give a process back at once. -/
def Op.GivesBack : Op → Bool
  | .forkStack none | .forkCopy false => true
  | _ => false

/-- The operations of interrupt handlers. -/
def Op.Interrupt : Op → Bool
  | .timer | .wakeup _ => true
  | _ => false

/-- The thread that runs, in this call, can perform the operation. -/
def Call.allows : Call → Op → Bool
  | .none, o => !(o.OnFiles || o.GivesBack)
  | .file, o => !(o.Starts || o.GivesBack)
  | .undo _, o => o.Interrupt

/-! ### The two stores -/

namespace Proc

/-- `allocproc` finds no page, up to `p->state = UNUSED`. -/
def allocGiveUp (x : Proc) : Proc :=
  { x with kstacks := fun _ => 0, ustacks := fun _ => 0, state := .unused }

/-- The new process of a `fork` whose `copyuvm` has failed, up to `np->state = UNUSED`. -/
def forkGiveUp (x : Proc) : Proc :=
  { x.updPth 0 fun t => { t with kstack := 0 } with
    kstacks := Function.update x.kstacks 0 0
    state := .unused }

/-- The store `UNUSED` to the state of the first thread. -/
def undo (x : Proc) : Proc := x.updPth 0 fun t => { t with state := .unused }

/-- The two stores together. -/
lemma undo_allocGiveUp (x : Proc) : x.allocGiveUp.undo = x.allocFail := rfl

lemma undo_forkGiveUp (x : Proc) : x.forkGiveUp.undo = x.forkFail := by
  simp [undo, forkGiveUp, forkFail, updPth]

end Proc

/-- A `fork` that cannot go on marks its new process unused: the slot, and the state. -/
def giveUp (k : Kernel) (p : Slot) : Cont → Option (Slot × Kernel)
  | .forkStack np => some (np, (k.updProc np Proc.allocGiveUp).setCont p .user)
  | .forkCopy np => (k.kfree ((k.proc np).pth 0).kstack).map fun k =>
      (np, (k.updProc np Proc.forkGiveUp).setCont p .user)
  | _ => none

/-! ### The finer system -/

/-- The kernel, with the call in which each thread is. -/
structure CallState where
  kernel : Kernel
  call : Slot → Tidx → Call

/-- The operations of the finer system. -/
inductive CallOp
  | op (o : Op)
  /-- `fork` fails, and makes the first of its two stores. -/
  | giveUp
  /-- The second store; `fork` returns. -/
  | undo
  /-- A system call on files starts. -/
  | enter
  /-- It returns. -/
  | leave
deriving DecidableEq, Repr

namespace CallState

/-- The call of the thread that runs. -/
def mycall (s : CallState) : Call :=
  match s.kernel.cpu with
  | .run p => s.call p (s.kernel.proc p).onTidx
  | _ => .none

/-- The thread that runs on process `p` is in call `c`. -/
def setCall (s : CallState) (p : Slot) (c : Call) : CallState :=
  { s with
    call := Function.update s.call p (Function.update (s.call p) (s.kernel.proc p).onTidx c) }

/-- The next state of the kernel is `k`: a thread that cannot run is in no call. -/
def next (s : CallState) (k : Kernel) : CallState where
  kernel := k
  call q i := if ((k.proc q).pth i).state.Live then s.call q i else .none

/-- After an operation that leads to `k`: `exit` enters its loop, or leaves it. -/
def after (s : CallState) (o : Op) (k : Kernel) : CallState :=
  match o, k.cpu with
  | .exitBegin, .run p => (s.next k).setCall p .file
  | .exitFile, .run p =>
      if (k.proc p).mypth.cont = .exitLock then (s.next k).setCall p .none else s.next k
  | _, _ => s.next k

/-- The step of the process that runs. -/
def onCpu (s : CallState) (f : Slot → Option CallState) : Option CallState :=
  match s.kernel.cpu with
  | .run p => f p
  | _ => none

/-- The state after `pinit`. -/
def pinit : CallState := ⟨Kernel.pinit, fun _ _ => .none⟩

end CallState

/-- One operation of the finer system. -/
def callStep (s : CallState) : CallOp → Option CallState
  | .op o => if s.mycall.allows o then (step s.kernel o).map fun k => s.after o k else none
  | .giveUp => s.onCpu fun p =>
      if s.mycall = .none then
        (giveUp s.kernel p (s.kernel.proc p).mypth.cont).map fun r =>
          (s.setCall p (.undo r.1)).next r.2
      else none
  | .undo => s.onCpu fun p =>
      match s.mycall with
      | .undo np => some ((s.setCall p .none).next (s.kernel.updProc np Proc.undo))
      | _ => none
  | .enter => s.onCpu fun p =>
      if s.mycall = .none ∧ (s.kernel.proc p).mypth.Ready then some (s.setCall p .file) else none
  | .leave => s.onCpu fun p =>
      if s.mycall = .file ∧ (s.kernel.proc p).mypth.Ready then some (s.setCall p .none) else none

/-- The operation leads from one state to the other. -/
def CallStep (s : CallState) (o : CallOp) (s' : CallState) : Prop := callStep s o = some s'

/-- Operations of `step`, one after the other. -/
def callOps (os : List Op) : List CallOp := os.map .op

/-- The states of the finer system reachable from `pinit`. -/
def CallReach : CallState → Prop := Reachable (· = CallState.pinit) CallStep

/-- `allocproc` does not take the slot of a `fork` that is between its two stores. -/
def NoReuse (s : CallState) : CallOp → Prop
  | .op .forkAlloc | .op (.userinit _) =>
      ∀ np, s.kernel.unusedSlot = some np → ∀ q i, s.call q i ≠ .undo np
  | _ => True

/-- The operation takes no slot of a `fork` that is between its two stores, and meets `C` when it
is one of `step`. -/
def Meets (C : Kernel → Op → Prop) (s : CallState) (o : CallOp) : Prop :=
  NoReuse s o ∧ ∀ op, o = .op op → C s.kernel op

/-! ### The steps of the finer system -/

/-- What an operation of the finer system does. -/
def CallState.Does (s s' : CallState) : CallOp → Prop
  | .op o => s.mycall.allows o = true ∧ ∃ k, Step s.kernel o k ∧ s' = s.after o k
  | .giveUp => ∃ p np k, s.kernel.cpu = .run p ∧ s.mycall = .none ∧
      giveUp s.kernel p (s.kernel.proc p).mypth.cont = some (np, k) ∧
      s' = (s.setCall p (.undo np)).next k
  | .undo => ∃ p np, s.kernel.cpu = .run p ∧ s.mycall = .undo np ∧
      s' = (s.setCall p .none).next (s.kernel.updProc np Proc.undo)
  | .enter => ∃ p, s.kernel.cpu = .run p ∧ s.mycall = .none ∧
      (s.kernel.proc p).mypth.Ready ∧ s' = s.setCall p .file
  | .leave => ∃ p, s.kernel.cpu = .run p ∧ s.mycall = .file ∧
      (s.kernel.proc p).mypth.Ready ∧ s' = s.setCall p .none

section
variable {s s' : CallState} {o : CallOp} {a k k' : Kernel} {p q : Slot} {i : Tidx}

lemma CallState.onCpu_eq_some {f : Slot → Option CallState} :
    s.onCpu f = some s' ↔ ∃ p, s.kernel.cpu = .run p ∧ f p = some s' := by
  unfold CallState.onCpu
  cases h : s.kernel.cpu <;> simp

lemma CallState.mycall_eq (hp : s.kernel.cpu = .run p) :
    s.mycall = s.call p (s.kernel.proc p).onTidx := by
  rw [CallState.mycall, hp]

lemma CallStep.does (h : CallStep s o s') : s.Does s' o := by
  unfold CallStep callStep at h
  cases o with
  | op o =>
    obtain ⟨hc, h⟩ := Option.ite_none_right_eq_some.mp h
    obtain ⟨k, hk, rfl⟩ := Option.map_eq_some_iff.mp h
    exact ⟨hc, k, hk, rfl⟩
  | giveUp =>
    obtain ⟨p, hp, h⟩ := CallState.onCpu_eq_some.mp h
    obtain ⟨hc, h⟩ := Option.ite_none_right_eq_some.mp h
    obtain ⟨⟨np, k⟩, hk, rfl⟩ := Option.map_eq_some_iff.mp h
    exact ⟨p, np, k, hp, hc, hk, rfl⟩
  | undo =>
    obtain ⟨p, hp, h⟩ := CallState.onCpu_eq_some.mp h
    split at h
    · rename_i np hc
      exact ⟨p, np, hp, hc, (Option.some.inj h).symm⟩
    · exact absurd h (by simp)
  | enter =>
    obtain ⟨p, hp, h⟩ := CallState.onCpu_eq_some.mp h
    obtain ⟨⟨hc, hr⟩, h⟩ := Option.ite_none_right_eq_some.mp h
    exact ⟨p, hp, hc, hr, (Option.some.inj h).symm⟩
  | leave =>
    obtain ⟨p, hp, h⟩ := CallState.onCpu_eq_some.mp h
    obtain ⟨⟨hc, hr⟩, h⟩ := Option.ite_none_right_eq_some.mp h
    exact ⟨p, hp, hc, hr, (Option.some.inj h).symm⟩

/-- In no call are the two stores of a failed `fork` one step. -/
lemma Call.not_givesBack {c : Call} {o : Op} (h : c.allows o = true) : o.GivesBack = false := by
  cases c with
  | none => exact (Bool.or_eq_false_iff.mp ((Bool.not_eq_true' _).mp h)).2
  | file => exact (Bool.or_eq_false_iff.mp ((Bool.not_eq_true' _).mp h)).2
  | undo np =>
    have h : o.Interrupt = true := h
    unfold Op.Interrupt at h
    split at h
    · rfl
    · rfl
    · exact absurd h (by simp)

/-- The operations on files are performed in a call on files. -/
lemma Call.eq_file {c : Call} {o : Op} (h : c.allows o = true) (ho : o.OnFiles = true) :
    c = .file := by
  cases c with
  | none =>
    have h := (Bool.or_eq_false_iff.mp ((Bool.not_eq_true' _).mp h)).1
    exact absurd (ho.symm.trans h) (by simp)
  | file => rfl
  | undo np =>
    have h : o.Interrupt = true := h
    unfold Op.Interrupt at h
    split at h
    · exact absurd ho (by simp [Op.OnFiles, Op.Holds])
    · exact absurd ho (by simp [Op.OnFiles, Op.Holds])
    · exact absurd h (by simp)

lemma Op.onFiles_of_holds {o : Op} (h : o.Holds = true) : o.OnFiles = true := by
  unfold Op.OnFiles
  split <;> first | rfl | exact h

/-- Some thread runs, and is in the call. -/
lemma CallState.mycall_run {c : Call} (h : s.mycall = c) (hc : c ≠ .none) :
    ∃ p, s.kernel.cpu = .run p ∧ s.call p (s.kernel.proc p).onTidx = c := by
  unfold CallState.mycall at h
  split at h
  · rename_i p hp
    exact ⟨p, hp, h⟩
  · exact absurd h.symm hc

/-- The call of one thread is written. -/
lemma CallState.setCall_call (s : CallState) (p : Slot) (c : Call) (q : Slot) (i : Tidx) :
    (s.setCall p c).call q i =
      if q = p ∧ i = (s.kernel.proc p).onTidx then c else s.call q i := by
  dsimp only [CallState.setCall]
  by_cases hq : q = p
  · subst hq
    rw [Function.update_self, Function.update_apply]
    simp
  · rw [Function.update_of_ne hq, if_neg fun h => hq h.1]

@[simp] lemma CallState.setCall_kernel (s : CallState) (p : Slot) (c : Call) :
    (s.setCall p c).kernel = s.kernel := rfl

@[simp] lemma CallState.next_kernel (s : CallState) (k : Kernel) : (s.next k).kernel = k := rfl

lemma CallState.after_kernel (s : CallState) (o : Op) (k : Kernel) : (s.after o k).kernel = k := by
  unfold CallState.after
  split
  · rfl
  · split_ifs <;> rfl
  · rfl

/-- A thread stays in its call, unless it has ended, or `exit` enters or leaves its loop. -/
lemma CallState.after_call (s : CallState) (o : Op) (k : Kernel) (q : Slot) (i : Tidx) :
    (s.after o k).call q i = s.call q i ∨ (s.after o k).call q i = .file ∨
      (s.after o k).call q i = .none ∧ (¬k.Live q i ∨
        o = .exitFile ∧ k.cpu = .run q ∧ i = (k.proc q).onTidx) := by
  have hnext : (s.next k).call q i = s.call q i ∨ (s.next k).call q i = .none ∧ ¬k.Live q i := by
    by_cases hl : ((k.proc q).pth i).state.Live
    · exact Or.inl (if_pos hl)
    · exact Or.inr ⟨if_neg hl, hl⟩
  have hkept : ∀ P : Prop, (s.next k).call q i = s.call q i ∨ (s.next k).call q i = .file ∨
      (s.next k).call q i = .none ∧ (¬k.Live q i ∨ P) := fun _ =>
    hnext.imp_right fun h => Or.inr ⟨h.1, Or.inl h.2⟩
  unfold CallState.after
  split
  · rw [CallState.setCall_call]
    split_ifs
    · exact Or.inr (Or.inl rfl)
    · exact hkept _
  · rename_i p hp
    split_ifs
    · rw [CallState.setCall_call]
      split_ifs with hmine
      · obtain ⟨rfl, rfl⟩ := hmine
        exact Or.inr (Or.inr ⟨rfl, Or.inr ⟨rfl, hp, rfl⟩⟩)
      · exact hkept _
    · exact hkept _
  · exact hkept _

end

end Xv6Projects.Threads
