import Xv6Projects.Threads.Change

/-!
# Replacing the image of a process that has several threads

`exec` stores the new image into the process statement by statement without a lock, takes the
lock to end the other threads in `init_allpth`, and frees the old page directory at last.  Here
the thread can be preempted between any two of these statements.  When no other thread is
dispatched between the store of `curproc->pgdir` and `init_allpth`, the image is replaced as a
whole.
-/

namespace Xv6Projects.Threads

open Library Vm

/-! ### Threads inside exec -/

/-- Where a thread stands in `exec`: `pgdir` is the new page directory, for an image of `sz`
bytes, and `old` is what it has read from `curproc->pgdir`. -/
inductive ExecPlace
  /-- User code, and every other system call. -/
  | user
  /-- The page directory is allocated, and the image is read. -/
  | build (pgdir sz : ℕ)
  /-- Before `curproc->pgdir` is stored. -/
  | setPgdir (pgdir sz old : ℕ)
  /-- Before `curproc->sz` is stored. -/
  | setSz (sz old : ℕ)
  /-- Before the user stack of the thread is recorded. -/
  | setUstack (sz old : ℕ)
  | initAllpth (old : ℕ)
  | switchuvm (old : ℕ)
  | freevm (old : ℕ)
  /-- `exec` returns zero. -/
  | returned
deriving DecidableEq, Repr

/-- A process whose page directories have numbers, the thread that the CPU executes if it is one
of this process, and where the threads stand.  The directories that were replaced, and those that
were passed to `freevm`, are listed with the last one first.  A thread is stale when another one
has installed a page directory since it was created. -/
structure Exec where
  proc : Proc
  current : Option Tidx
  place : Tidx → ExecPlace
  pgdir : ℕ
  nextPgdir : ℕ
  replaced : List ℕ
  freed : List ℕ
  stale : Tidx → Bool

/-- What happens to the process: its current thread does something, a sleeping thread is woken
up, or the scheduler dispatches a thread, of a process scheduled anew or not. -/
inductive ExecOp
  /-- The current thread calls `exec`, for an image of `sz` bytes. -/
  | exec (sz : ℕ)
  /-- The next statement of `exec`. -/
  | next
  /-- The label `bad` of `exec`, when the image cannot be read. -/
  | bad
  | preempt
  | sleep (a : ℕ)
  | sbrk (n avail : ℕ)
  | threadCreate (tid : ℤ) (page avail : ℕ)
  | threadExit (v : UInt32)
  | threadJoin (j : Tidx)
  | exit
  | wakeup (c : Chan)
  | kill
  | dispatch (i : Tidx) (anew : Bool)
deriving DecidableEq, Repr

namespace Exec

/-- The thread can still run. -/
def Live (s : Exec) (i : Tidx) : Prop := (s.proc.pth i).state.Live

instance (s : Exec) (i : Tidx) : Decidable (s.Live i) :=
  inferInstanceAs (Decidable (State.Live _))

/-- Thread `i` goes on at place `c`. -/
def goOn (s : Exec) (i : Tidx) (c : ExecPlace) : Exec :=
  { s with place := Function.update s.place i c }

/-- The next statement of thread `i`, which stands at a place in `exec`. -/
def next (s : Exec) (i : Tidx) : ExecPlace → Option Exec
  | .user => none
  | .build pgdir sz => some (s.goOn i (.setPgdir pgdir sz s.pgdir))
  | .setPgdir pgdir sz old =>
      some { s.goOn i (.setSz sz old) with
        proc := { s.proc with pgdir := fun v => v < sz / PGSIZE }
        pgdir := pgdir
        replaced := s.pgdir :: s.replaced
        stale := fun j => j ≠ i && (s.proc.pth j).state ≠ .unused }
  | .setSz sz old =>
      some { s.goOn i (.setUstack sz old) with proc := { s.proc with sz := sz } }
  | .setUstack sz old =>
      some { s.goOn i (.initAllpth old) with
        proc := { s.proc with ustacks := Function.update s.proc.ustacks s.proc.onTidx sz } }
  | .initAllpth old => some { s.goOn i (.switchuvm old) with proc := s.proc.initAllpth i }
  | .switchuvm old => some (s.goOn i (.freevm old))
  | .freevm old => some { s.goOn i .returned with freed := old :: s.freed }
  | .returned => some (s.goOn i .user)

/-- `thread_create` for slot `j`, which gets a thread id and a page for the kernel stack. -/
def create (s : Exec) (tid : ℤ) (page avail : ℕ) (j : Tidx) : Option Exec :=
  ((s.proc.allocpth j tid page).allocUstack j avail).map fun r =>
    { s.goOn j .user with
      proc := if r.1 then r.2.createDone j else r.2.createFail j
      stale := Function.update s.stale j false }

/-- The current thread `i` does something outside `exec`. -/
def call (s : Exec) (i : Tidx) : ExecOp → Option Exec
  | .exec sz => some { s.goOn i (.build s.nextPgdir sz) with nextPgdir := s.nextPgdir + 1 }
  | .sbrk n avail => (s.proc.growproc n avail).map fun x => { s with proc := x }
  | .threadCreate tid page avail =>
      (tidxs.find? fun j => (s.proc.pth j).state = .unused).bind fun j => s.create tid page avail j
  | .threadExit v => some { s with proc := s.proc.threadExit v, current := none }
  | .threadJoin j =>
      if (s.proc.pth j).state = .zombie then some { s with proc := s.proc.joinPth j } else none
  | .exit => some { s with proc := s.proc.exit, current := none }
  | _ => none

/-- What the current thread `i` does. -/
def perform (s : Exec) (i : Tidx) (op : ExecOp) : Option Exec :=
  match op, s.place i with
  | .next, c => s.next i c
  | .bad, .build pgdir _ => some { s.goOn i .user with freed := pgdir :: s.freed }
  | .preempt, _ => some { s with proc := s.proc.yield, current := none }
  | .sleep a, .user | .sleep a, .build _ _ =>
      some { s with proc := s.proc.sleep (.addr a) .user, current := none }
  | op, .user => s.call i op
  | _, _ => none

/-- The switch to thread `i`. -/
def switchTo (s : Exec) (i : Tidx) (anew : Bool) : Exec :=
  { s with
    proc := { s.proc.updPth i fun t => { t with state := .running, chan := .word 0 } with
      onTidx := i
      state := if anew then .running else s.proc.state }
    current := some i }

/-- One operation.  Any runnable thread can be dispatched. -/
def step (s : Exec) : ExecOp → Option Exec
  | .wakeup c => some { s with proc := s.proc.wakeup1 c }
  | .kill => some { s with proc := s.proc.kill }
  | .dispatch i anew =>
      if s.current = none ∧ (s.proc.pth i).state = .runnable then some (s.switchTo i anew)
      else none
  | op => s.current.bind fun i => s.perform i op

/-- The operation leads from one state to the other. -/
def Step (s : Exec) (op : ExecOp) (s' : Exec) : Prop := s.step op = some s'

/-- A process with no thread inside `exec`. -/
structure Start (s : Exec) : Prop where
  place : ∀ i, s.place i = .user
  running : ∀ i, (s.proc.pth i).state = .running → s.current = some i
  mine : ∀ i, s.current = some i → (s.proc.pth i).state = .running ∧ s.proc.onTidx = i
  pgdir : s.pgdir < s.nextPgdir
  replaced : s.replaced = []
  freed : s.freed = []
  stale : ∀ i, s.stale i = false

end Exec

/-! ### What is wanted -/

/-- The page directory that the thread is going to free. -/
def ExecPlace.old : ExecPlace → Option ℕ
  | .setSz _ old | .setUstack _ old | .initAllpth old | .switchuvm old | .freevm old => some old
  | _ => none

/-- No thread runs after another one has installed a page directory; every replaced directory is
freed once, or is going to be, and the installed one is not; and when `exec` returns, its thread
is the only one. -/
structure ExecRight (s : Exec) : Prop where
  dispatched : ∀ j, s.stale j = true → (s.proc.pth j).state ≠ .running
  once : ∀ d ∈ s.replaced, s.freed.count d = 1 ∨
    s.freed.count d = 0 ∧ ∃ i, s.Live i ∧ (s.place i).old = some d
  installed : s.pgdir ∉ s.freed
  alone : ∀ i, s.Live i → s.place i = .returned → ∀ j, j ≠ i → (s.proc.pth j).state = .unused

/-- The thread has installed its page directory, and the other threads are still there. -/
def ExecPlace.Window : ExecPlace → Prop
  | .setSz _ _ | .setUstack _ _ | .initAllpth _ => True
  | _ => False

instance : DecidablePred ExecPlace.Window := fun c => by
  cases c <;> dsimp only [ExecPlace.Window] <;> infer_instance

/-- No thread is dispatched while another one has installed its page directory and has not
executed `init_allpth`. -/
def ExecSafe (s : Exec) : ExecOp → Prop
  | .dispatch i _ => ∀ j, j ≠ i → s.Live j → ¬(s.place j).Window
  | _ => True

instance (s : Exec) : ∀ op, Decidable (ExecSafe s op)
  | .dispatch i _ =>
      inferInstanceAs (Decidable (∀ j, j ≠ i → s.Live j → ¬(s.place j).Window))
  | .exec _ | .next | .bad | .preempt | .sleep _ | .sbrk _ _ | .threadCreate _ _ _
  | .threadExit _ | .threadJoin _ | .exit | .wakeup _ | .kill => isTrue trivial

/-! ### The invariant -/

/-- The new page directory that the thread has not installed yet. -/
def ExecPlace.new : ExecPlace → Option ℕ
  | .build pgdir _ | .setPgdir pgdir _ _ => some pgdir
  | _ => none

/-- The thread has installed its page directory, and has not returned to user code. -/
def ExecPlace.Committed : ExecPlace → Prop
  | .user | .build _ _ | .setPgdir _ _ _ => False
  | _ => True

/-- Who runs, and where the page directories are. -/
structure ExecBase (s : Exec) : Prop where
  running : ∀ i, (s.proc.pth i).state = .running → s.current = some i
  mine : ∀ i, s.current = some i → (s.proc.pth i).state = .running ∧ s.proc.onTidx = i
  fresh : ∀ i d, s.Live i → (s.place i).new = some d →
    d < s.nextPgdir ∧ d ≠ s.pgdir ∧ d ∉ s.freed ∧ d ∉ s.replaced
  apart : ∀ i j d, s.Live i → s.Live j → (s.place i).new = some d → (s.place j).new = some d →
    i = j
  pgdir : s.pgdir < s.nextPgdir ∧ s.pgdir ∉ s.freed
  freed : ∀ d ∈ s.freed, d < s.nextPgdir
  replaced : ∀ d ∈ s.replaced, d < s.nextPgdir

/-- No thread has installed a page directory and is still in `exec`. -/
structure ExecCalm (s : Exec) : Prop where
  place : ∀ i, s.Live i → ¬(s.place i).Committed
  stale : ∀ j, s.stale j = true → (s.proc.pth j).state = .unused
  read : ∀ i d sz old, s.Live i → s.place i = .setPgdir d sz old → old = s.pgdir
  once : ∀ d ∈ s.replaced, s.freed.count d = 1

/-- Thread `b` has installed a page directory and is still in `exec`: no other thread runs, and
after `init_allpth` there is none. -/
structure ExecBusy (s : Exec) (b : Tidx) : Prop where
  live : s.Live b
  place : (s.place b).Committed
  others : ∀ j, j ≠ b → (s.proc.pth j).state ≠ .running
  window : ∀ j, j ≠ b → s.Live j → ¬(s.place j).Committed
  after : ¬(s.place b).Window → ∀ j, j ≠ b → (s.proc.pth j).state = .unused
  stale : ∀ j, s.stale j = true → j ≠ b
  once : ∀ d ∈ s.replaced, s.freed.count d = 1 ∨ s.freed.count d = 0 ∧ (s.place b).old = some d
  old : ∀ d, (s.place b).old = some d → d ∈ s.replaced ∧ d ∉ s.freed ∧ d ≠ s.pgdir

/-- The invariant. -/
structure ExecInv (s : Exec) : Prop where
  base : ExecBase s
  phase : ExecCalm s ∨ ∃ b, ExecBusy s b

section
variable {s s' : Exec} {i : Tidx} {c : ExecPlace}

lemma Exec.goOn_place (s : Exec) (i j : Tidx) (c : ExecPlace) :
    (s.goOn i c).place j = if j = i then c else s.place j :=
  Function.update_apply _ _ _ _

lemma ExecPlace.new_eq_none (h : c.Committed) : c.new = none := by
  cases c <;> first | exact h.elim | rfl

lemma ExecBase.live (h : ExecBase s) (hi : s.current = some i) : s.Live i :=
  Or.inr (Or.inr (h.mine i hi).1)

/-- While a thread is committed, no other one executes. -/
lemma ExecInv.calm (h : ExecInv s) (hi : s.current = some i) (hc : ¬(s.place i).Committed) :
    ExecCalm s := by
  rcases h.phase with hcalm | ⟨b, hb⟩
  · exact hcalm
  · by_cases hib : i = b
    · rw [hib] at hc
      exact absurd hb.place hc
    · exact absurd (h.base.mine i hi).1 (hb.others i hib)

lemma ExecInv.busy (h : ExecInv s) (hi : s.current = some i) (hc : (s.place i).Committed) :
    ExecBusy s i := by
  rcases h.phase with hcalm | ⟨b, hb⟩
  · exact absurd hc (hcalm.place i (h.base.live hi))
  · by_cases hib : i = b
    · rwa [hib]
    · exact absurd (h.base.mine i hi).1 (hb.others i hib)

/-- Nothing but the states of the threads and of the CPU is changed. -/
structure Exec.SamePlaces (s s' : Exec) : Prop where
  place : s'.place = s.place
  pgdir : s'.pgdir = s.pgdir
  nextPgdir : s'.nextPgdir = s.nextPgdir
  replaced : s'.replaced = s.replaced
  freed : s'.freed = s.freed
  stale : s'.stale = s.stale

/-- Threads start and stop running. -/
lemma ExecInv.move (h : ExecInv s) (hsame : s.SamePlaces s')
    (hkind : ∀ j, SameKind (s.proc.pth j).state (s'.proc.pth j).state)
    (hrun : ∀ j, (s'.proc.pth j).state = .running → s'.current = some j)
    (hmine : ∀ j, s'.current = some j →
      (s'.proc.pth j).state = .running ∧ s'.proc.onTidx = j)
    (hothers : ∀ b, ExecBusy s b → ∀ j, j ≠ b → (s'.proc.pth j).state ≠ .running) :
    ExecInv s' := by
  obtain ⟨hplace, hpgdir, hnext, hrep, hfreed, hstale⟩ := hsame
  have hlive : ∀ j, s'.Live j ↔ s.Live j := fun j => (hkind j).live_iff
  have hun : ∀ j, (s'.proc.pth j).state = .unused ↔ (s.proc.pth j).state = .unused := fun j =>
    (hkind j).eq_iff State.not_live_unused
  refine ⟨⟨hrun, hmine, ?_, ?_, ?_, ?_, ?_⟩, ?_⟩
  · intro j d hl hd
    rw [hplace] at hd
    rw [hpgdir, hnext, hrep, hfreed]
    exact h.base.fresh j d ((hlive j).mp hl) hd
  · intro j l d hj hl hdj hdl
    rw [hplace] at hdj hdl
    exact h.base.apart j l d ((hlive j).mp hj) ((hlive l).mp hl) hdj hdl
  · rw [hpgdir, hnext, hfreed]
    exact h.base.pgdir
  · rw [hfreed, hnext]
    exact h.base.freed
  · rw [hrep, hnext]
    exact h.base.replaced
  · -- no thread has moved, so the phase is the same
    rcases h.phase with hc | ⟨b, hb⟩
    · refine Or.inl ⟨fun j hl => ?_, fun j hj => ?_, fun j d sz old hl hj => ?_, ?_⟩
      · rw [hplace]
        exact hc.place j ((hlive j).mp hl)
      · rw [hstale] at hj
        exact (hun j).mpr (hc.stale j hj)
      · rw [hplace] at hj
        rw [hpgdir]
        exact hc.read j d sz old ((hlive j).mp hl) hj
      · rw [hrep, hfreed]
        exact hc.once
    · refine Or.inr ⟨b, (hlive b).mpr hb.live, ?_, hothers b hb, fun j hj hl => ?_, ?_, ?_, ?_, ?_⟩
      · rw [hplace]
        exact hb.place
      · rw [hplace]
        exact hb.window j hj ((hlive j).mp hl)
      · rw [hplace]
        exact fun hw j hj => (hun j).mpr (hb.after hw j hj)
      · rw [hstale]
        exact hb.stale
      · rw [hrep, hfreed, hplace]
        exact hb.once
      · rw [hrep, hfreed, hplace, hpgdir]
        exact hb.old

/-- While no thread is committed, threads end, or start outside `exec`. -/
lemma ExecInv.shrink (h : ExecInv s) (hc : ExecCalm s) (hpgdir : s'.pgdir = s.pgdir)
    (hnext : s'.nextPgdir = s.nextPgdir) (hrep : s'.replaced = s.replaced)
    (hfreed : s'.freed = s.freed)
    (hlive : ∀ j, s'.Live j → s.Live j ∧ s'.place j = s.place j ∨ s'.place j = .user)
    (hstale : ∀ j, s'.stale j = true → (s'.proc.pth j).state = .unused)
    (hrun : ∀ j, (s'.proc.pth j).state = .running → s'.current = some j)
    (hmine : ∀ j, s'.current = some j →
      (s'.proc.pth j).state = .running ∧ s'.proc.onTidx = j) : ExecInv s' := by
  have hold : ∀ j, s'.Live j → s'.place j ≠ .user → s.Live j ∧ s'.place j = s.place j :=
    fun j hl hj => (hlive j hl).resolve_right hj
  have hnew : ∀ j d, (s'.place j).new = some d → s'.place j ≠ .user := by
    intro j d hd hu
    rw [hu] at hd
    exact absurd hd (by simp [ExecPlace.new])
  refine ⟨⟨hrun, hmine, ?_, ?_, ?_, ?_, ?_⟩, Or.inl ⟨?_, hstale, ?_, ?_⟩⟩
  · intro j d hl hd
    obtain ⟨hl, hp⟩ := hold j hl (hnew j d hd)
    rw [hp] at hd
    rw [hpgdir, hnext, hrep, hfreed]
    exact h.base.fresh j d hl hd
  · intro j l d hj hl hdj hdl
    obtain ⟨hj, hpj⟩ := hold j hj (hnew j d hdj)
    obtain ⟨hl, hpl⟩ := hold l hl (hnew l d hdl)
    rw [hpj] at hdj
    rw [hpl] at hdl
    exact h.base.apart j l d hj hl hdj hdl
  · rw [hpgdir, hnext, hfreed]
    exact h.base.pgdir
  · rw [hfreed, hnext]
    exact h.base.freed
  · rw [hrep, hnext]
    exact h.base.replaced
  · intro j hl
    rcases hlive j hl with ⟨hl, hp⟩ | hp
    · rw [hp]
      exact hc.place j hl
    · rw [hp]
      exact fun hf => hf
  · intro j d sz old hl hj
    obtain ⟨hl, hp⟩ := hold j hl (by rw [hj]; exact ExecPlace.noConfusion)
    rw [hp] at hj
    rw [hpgdir]
    exact hc.read j d sz old hl hj
  · rw [hrep, hfreed]
    exact hc.once

/-! ### The scheduler and the other system calls -/

/-- Sleeping threads are made runnable. -/
lemma ExecInv.woken (h : ExecInv s) {y : Proc} (hy : CalmProc s.proc y) :
    ExecInv { s with proc := y } := by
  have hrun : ∀ j, (y.pth j).state = .running ↔ (s.proc.pth j).state = .running := fun j =>
    (hy.pth j).eq_iff State.noConfusion State.noConfusion
  refine h.move ⟨rfl, rfl, rfl, rfl, rfl, rfl⟩ (fun j => (hy.pth j).sameKind) (fun j hj => ?_)
    (fun j hj => ?_) fun b hb j hj => ?_
  · exact h.base.running j ((hrun j).mp hj)
  · obtain ⟨hst, hon⟩ := h.base.mine j hj
    exact ⟨(hrun j).mpr hst, hy.onTidx.trans hon⟩
  · exact fun hst => hb.others j hj ((hrun j).mp hst)

/-- The current thread gives up the CPU, and can be dispatched again. -/
lemma ExecInv.switchOut (h : ExecInv s) (hi : s.current = some i) {y : Proc}
    (hother : ∀ j, j ≠ i → y.pth j = s.proc.pth j)
    (hmine : (y.pth i).state = .sleeping ∨ (y.pth i).state = .runnable) :
    ExecInv { s with proc := y, current := none } := by
  -- afterwards nobody runs
  have hnone : ∀ j, (y.pth j).state ≠ .running := by
    intro j hj
    by_cases hji : j = i
    · rw [hji] at hj
      rcases hmine with hm | hm
      · exact State.noConfusion (hm.symm.trans hj)
      · exact State.noConfusion (hm.symm.trans hj)
    · rw [hother j hji] at hj
      exact hji (Option.some.inj ((h.base.running j hj).symm.trans hi))
  refine h.move ⟨rfl, rfl, rfl, rfl, rfl, rfl⟩ (fun j => ?_) (fun j hj => absurd hj (hnone j))
    (fun j hj => absurd hj (by simp)) fun b _ j _ => hnone j
  by_cases hji : j = i
  · rw [hji]
    exact Or.inr ⟨h.base.live hi, hmine.elim Or.inl fun hm => Or.inr (Or.inl hm)⟩
  · exact Or.inl (by rw [hother j hji])

lemma ExecInv.dispatch (h : ExecInv s) {anew : Bool} (hnone : s.current = none)
    (hi : (s.proc.pth i).state = .runnable)
    (hsafe : ∀ j, j ≠ i → s.Live j → ¬(s.place j).Window) : ExecInv (s.switchTo i anew) := by
  have hpth : ∀ j, (s.switchTo i anew).proc.pth j = if j = i then
      { s.proc.pth i with state := .running, chan := .word 0 } else s.proc.pth j := fun j =>
    Function.update_apply _ _ _ _
  have hidle : ∀ j, (s.proc.pth j).state ≠ .running := fun j hj =>
    absurd (hnone.symm.trans (h.base.running j hj)) (by simp)
  refine h.move ⟨rfl, rfl, rfl, rfl, rfl, rfl⟩ (fun j => ?_) (fun j hj => ?_) (fun j hj => ?_)
    fun b hb j hj hrun => ?_
  · rw [hpth]
    split_ifs with hji
    · rw [hji, hi]
      exact Or.inr ⟨Or.inr (Or.inl rfl), Or.inr (Or.inr rfl)⟩
    · exact Or.inl rfl
  · rw [hpth] at hj
    split_ifs at hj with hji
    · rw [hji]
      rfl
    · exact absurd hj (hidle j)
  · obtain rfl := Option.some.inj hj
    rw [hpth, if_pos rfl]
    exact ⟨rfl, rfl⟩
  · rw [hpth] at hrun
    split_ifs at hrun with hji
    · -- the thread is there although another one is committed, and is not in the window
      rw [hji] at hj
      have hun := hb.after (hsafe b hj.symm hb.live) i hj
      exact State.noConfusion (hun.symm.trans hi)
    · exact hidle j hrun

/-- The current thread, or all threads, end. -/
lemma ExecInv.finish (h : ExecInv s) (hi : s.current = some i) (hu : s.place i = .user) {y : Proc}
    (hstate : ∀ j, (y.pth j).state = (s.proc.pth j).state ∧ j ≠ i ∨
      (y.pth j).state = .zombie ∧ (s.proc.pth j).state ≠ .unused ∨ (y.pth j).state = .unused) :
    ExecInv { s with proc := y, current := none } := by
  have hc := h.calm hi (by rw [hu]; exact fun hf => hf)
  refine h.shrink hc rfl rfl rfl rfl (fun j hl => Or.inl ⟨?_, rfl⟩) (fun j hj => ?_)
    (fun j hj => ?_) fun j hj => absurd hj (by simp)
  · rcases hstate j with ⟨he, -⟩ | ⟨he, -⟩ | he
    · have hl' : (y.pth j).state.Live := hl
      rwa [he] at hl'
    · exact absurd he hl.ne_zombie
    · exact absurd he hl.ne_unused
  · have hun := hc.stale j hj
    rcases hstate j with ⟨he, -⟩ | ⟨-, he⟩ | he
    · exact he.trans hun
    · exact absurd hun he
    · exact he
  · have hj : (y.pth j).state = .running := hj
    rcases hstate j with ⟨he, hji⟩ | ⟨he, -⟩ | he
    · exact absurd (Option.some.inj ((h.base.running j (he ▸ hj)).symm.trans hi)) hji
    · exact State.noConfusion (he.symm.trans hj)
    · exact State.noConfusion (he.symm.trans hj)

lemma ExecInv.threadJoin (h : ExecInv s) (hi : s.current = some i) (hu : s.place i = .user)
    {j : Tidx} (hz : (s.proc.pth j).state = .zombie) :
    ExecInv { s with proc := s.proc.joinPth j } := by
  have hc := h.calm hi (by rw [hu]; exact fun hf => hf)
  have hpth : ∀ l, ((s.proc.joinPth j).pth l).state =
      if l = j then .unused else (s.proc.pth l).state := by
    intro l
    rw [Proc.joinPth, Proc.updPth_pth]
    split_ifs <;> rfl
  refine h.shrink hc rfl rfl rfl rfl (fun l hl => Or.inl ⟨?_, rfl⟩) (fun l hl => ?_)
    (fun l hl => ?_) fun l hl => ?_
  · have hl' : ((s.proc.joinPth j).pth l).state.Live := hl
    rw [hpth] at hl'
    split_ifs at hl'
    · exact absurd rfl hl'.ne_unused
    · exact hl'
  · rw [hpth]
    split_ifs
    · rfl
    · exact hc.stale l hl
  · rw [hpth] at hl
    split_ifs at hl
    exact h.base.running l hl
  · obtain ⟨hst, hon⟩ := h.base.mine l hl
    refine ⟨?_, hon⟩
    rw [hpth, if_neg]
    · exact hst
    · rintro rfl
      exact State.noConfusion (hst.symm.trans hz)

lemma ExecInv.create (h : ExecInv s) (hi : s.current = some i) (hu : s.place i = .user)
    {tid : ℤ} {page avail : ℕ} {j : Tidx} (hj : (s.proc.pth j).state = .unused)
    (hs : s.create tid page avail j = some s') : ExecInv s' := by
  have hc := h.calm hi (by rw [hu]; exact fun hf => hf)
  obtain ⟨r, hr, rfl⟩ := Option.map_eq_some_iff.mp hs
  obtain ⟨sz, pgdir, ustacks, hy⟩ := Proc.allocUstack_eq hr
  set y := if r.1 then r.2.createDone j else r.2.createFail j with hydef
  -- only slot `j` is changed, and its thread does not run yet
  have hpth : ∀ l, l ≠ j → y.pth l = s.proc.pth l := by
    intro l hl
    have halloc : (s.proc.allocpth j tid page).pth l = s.proc.pth l := Function.update_of_ne hl _ _
    rw [hydef, hy]
    split_ifs
    · rw [Proc.createDone]
      dsimp only
      rw [Proc.updPth_of_ne _ _ hl]
      exact halloc
    · rw [Proc.createFail]
      dsimp only
      rw [Proc.updPth_of_ne _ _ hl]
      exact halloc
  have hnew : (y.pth j).state ≠ .running := by
    rw [hydef]
    split_ifs
    · rw [Proc.createDone]
      dsimp only
      rw [Proc.updPth_self]
      exact State.noConfusion
    · rw [Proc.createFail]
      dsimp only
      rw [Proc.updPth_self]
      exact State.noConfusion
  have hon : y.onTidx = s.proc.onTidx := by
    rw [hydef, hy]
    split_ifs <;> rfl
  refine h.shrink hc rfl rfl rfl rfl (fun l hl => ?_) (fun l hl => ?_) (fun l hl => ?_)
    fun l hl => ?_
  · by_cases hlj : l = j
    · refine Or.inr ?_
      dsimp only
      rw [Exec.goOn_place, if_pos hlj]
    · refine Or.inl ⟨?_, ?_⟩
      · have hl' : (y.pth l).state.Live := hl
        rwa [hpth l hlj] at hl'
      · dsimp only
        rw [Exec.goOn_place, if_neg hlj]
  · dsimp only at hl
    rw [Function.update_apply] at hl
    split_ifs at hl with hlj
    dsimp only
    rw [hpth l hlj]
    exact hc.stale l hl
  · by_cases hlj : l = j
    · rw [hlj] at hl
      exact absurd hl hnew
    · have hl' : (y.pth l).state = .running := hl
      rw [hpth l hlj] at hl'
      exact h.base.running l hl'
  · obtain ⟨hst, hmine⟩ := h.base.mine l hl
    have hlj : l ≠ j := by
      rintro rfl
      exact State.noConfusion (hst.symm.trans hj)
    exact ⟨by dsimp only; rw [hpth l hlj]; exact hst, hon.trans hmine⟩

/-! ### The statements of `exec` -/

/-- A page directory is allocated. -/
lemma ExecInv.enter (h : ExecInv s) (hi : s.current = some i) (hu : s.place i = .user) (sz : ℕ) :
    ExecInv { s.goOn i (.build s.nextPgdir sz) with nextPgdir := s.nextPgdir + 1 } := by
  have hc := h.calm hi (by rw [hu]; exact fun hf => hf)
  have hb := h.base
  refine ⟨⟨hb.running, hb.mine, ?_, ?_, ⟨Nat.lt_succ_of_lt hb.pgdir.1, hb.pgdir.2⟩,
    fun d hd => Nat.lt_succ_of_lt (hb.freed d hd),
    fun d hd => Nat.lt_succ_of_lt (hb.replaced d hd)⟩, Or.inl ⟨?_, hc.stale, ?_, hc.once⟩⟩
  all_goals dsimp only
  · intro j d hl hd
    rw [Exec.goOn_place] at hd
    split_ifs at hd
    · -- the number of the new directory has not been used
      obtain rfl := Option.some.inj hd
      exact ⟨Nat.lt_succ_self _, hb.pgdir.1.ne', fun hf => lt_irrefl _ (hb.freed _ hf),
        fun hr => lt_irrefl _ (hb.replaced _ hr)⟩
    · obtain ⟨hlt, hrest⟩ := hb.fresh j d hl hd
      exact ⟨Nat.lt_succ_of_lt hlt, hrest⟩
  · intro j l d hj hl hdj hdl
    rw [Exec.goOn_place] at hdj hdl
    split_ifs at hdj hdl with hji hli hli
    · rw [hji, hli]
    · obtain rfl := Option.some.inj hdj
      exact absurd (hb.fresh l _ hl hdl).1 (lt_irrefl _)
    · obtain rfl := Option.some.inj hdl
      exact absurd (hb.fresh j _ hj hdj).1 (lt_irrefl _)
    · exact hb.apart j l d hj hl hdj hdl
  · intro j hl
    rw [Exec.goOn_place]
    split_ifs
    · exact fun hf => hf
    · exact hc.place j hl
  · intro j d sz' old hl hj
    rw [Exec.goOn_place] at hj
    split_ifs at hj
    exact hc.read j d sz' old hl hj

/-- The image cannot be read, and the new page directory is freed. -/
lemma ExecInv.bad (h : ExecInv s) (hi : s.current = some i) {pgdir sz : ℕ}
    (hp : s.place i = .build pgdir sz) :
    ExecInv { s.goOn i .user with freed := pgdir :: s.freed } := by
  have hc := h.calm hi (by rw [hp]; exact fun hf => hf)
  have hb := h.base
  have hmine : (s.place i).new = some pgdir := by rw [hp]; rfl
  obtain ⟨hlt, hne, -, hrep⟩ := hb.fresh i pgdir (hb.live hi) hmine
  -- the other threads keep the directories they build
  have hnew : ∀ j d, ((s.goOn i .user).place j).new = some d →
      j ≠ i ∧ (s.place j).new = some d := by
    intro j d hd
    rw [Exec.goOn_place] at hd
    split_ifs at hd with hji
    · exact absurd hd (by simp [ExecPlace.new])
    · exact ⟨hji, hd⟩
  refine ⟨⟨hb.running, hb.mine, ?_, ?_, ⟨hb.pgdir.1, ?_⟩, ?_, hb.replaced⟩,
    Or.inl ⟨?_, hc.stale, ?_, ?_⟩⟩
  all_goals dsimp only
  · intro j d hl hd
    obtain ⟨hji, hd⟩ := hnew j d hd
    obtain ⟨hlt', hne', hfreed, hrep'⟩ := hb.fresh j d hl hd
    refine ⟨hlt', hne', ?_, hrep'⟩
    rw [List.mem_cons, not_or]
    refine ⟨?_, hfreed⟩
    rintro rfl
    exact hji (hb.apart j i _ hl (hb.live hi) hd hmine)
  · intro j l d hj hl hdj hdl
    exact hb.apart j l d hj hl (hnew j d hdj).2 (hnew l d hdl).2
  · rw [List.mem_cons, not_or]
    exact ⟨hne.symm, hb.pgdir.2⟩
  · intro d hd
    rcases List.mem_cons.mp hd with rfl | hd
    · exact hlt
    · exact hb.freed d hd
  · intro j hl
    rw [Exec.goOn_place]
    split_ifs
    · exact fun hf => hf
    · exact hc.place j hl
  · intro j d sz' old hl hj
    rw [Exec.goOn_place] at hj
    split_ifs at hj
    exact hc.read j d sz' old hl hj
  · intro d hd
    rw [List.count_cons_of_ne, hc.once d hd]
    rintro rfl
    exact hrep hd

/-- `curproc->pgdir` is read. -/
lemma ExecInv.read (h : ExecInv s) (hi : s.current = some i) {pgdir sz : ℕ}
    (hp : s.place i = .build pgdir sz) : ExecInv (s.goOn i (.setPgdir pgdir sz s.pgdir)) := by
  have hc := h.calm hi (by rw [hp]; exact fun hf => hf)
  have hb := h.base
  have hnew : ∀ j, ((s.goOn i (.setPgdir pgdir sz s.pgdir)).place j).new = (s.place j).new := by
    intro j
    rw [Exec.goOn_place]
    split_ifs with hji
    · rw [hji, hp]
      rfl
    · rfl
  refine ⟨⟨hb.running, hb.mine, ?_, ?_, hb.pgdir, hb.freed, hb.replaced⟩,
    Or.inl ⟨?_, hc.stale, ?_, hc.once⟩⟩
  · intro j d hl hd
    rw [hnew] at hd
    exact hb.fresh j d hl hd
  · intro j l d hj hl hdj hdl
    rw [hnew] at hdj hdl
    exact hb.apart j l d hj hl hdj hdl
  · intro j hl
    rw [Exec.goOn_place]
    split_ifs
    · exact fun hf => hf
    · exact hc.place j hl
  · intro j d sz' old hl hj
    rw [Exec.goOn_place] at hj
    split_ifs at hj
    · exact (ExecPlace.setPgdir.inj hj).2.2.symm
    · exact hc.read j d sz' old hl hj

/-- The new page directory is installed. -/
lemma ExecInv.store (h : ExecInv s) (hi : s.current = some i) {pgdir sz old : ℕ}
    (hp : s.place i = .setPgdir pgdir sz old) {y : Proc} (hpth : y.pth = s.proc.pth)
    (hon : y.onTidx = s.proc.onTidx) :
    ExecInv { s.goOn i (.setSz sz old) with
      proc := y
      pgdir := pgdir
      replaced := s.pgdir :: s.replaced
      stale := fun j => j ≠ i && (s.proc.pth j).state ≠ .unused } := by
  have hc := h.calm hi (by rw [hp]; exact fun hf => hf)
  have hb := h.base
  have hlive := hb.live hi
  -- nobody has installed a directory since `curproc->pgdir` was read
  obtain rfl := hc.read i pgdir sz old hlive hp
  have hmine : (s.place i).new = some pgdir := by rw [hp]; rfl
  obtain ⟨hlt, hne, hfreed, hrep⟩ := hb.fresh i pgdir hlive hmine
  have hnew : ∀ j d, ((s.goOn i (.setSz sz s.pgdir)).place j).new = some d →
      j ≠ i ∧ (s.place j).new = some d := by
    intro j d hd
    rw [Exec.goOn_place] at hd
    split_ifs at hd with hji
    · exact absurd hd (by simp [ExecPlace.new])
    · exact ⟨hji, hd⟩
  have hplace : (s.goOn i (.setSz sz s.pgdir)).place i = .setSz sz s.pgdir := by
    rw [Exec.goOn_place, if_pos rfl]
  refine ⟨⟨?_, ?_, ?_, ?_, ⟨hlt, hfreed⟩, hb.freed, ?_⟩,
    Or.inr ⟨i, ?_, ?_, ?_, ?_, ?_, ?_, ?_, ?_⟩⟩
  all_goals try dsimp only [Exec.Live]
  all_goals try rw [hpth]
  · exact hb.running
  · rw [hon]
    exact hb.mine
  · intro j d hl hd
    obtain ⟨hji, hd⟩ := hnew j d hd
    obtain ⟨hlt', hne', hfreed', hrep'⟩ := hb.fresh j d hl hd
    refine ⟨hlt', ?_, hfreed', ?_⟩
    · rintro rfl
      exact hji (hb.apart j i _ hl hlive hd hmine)
    · rw [List.mem_cons, not_or]
      exact ⟨hne', hrep'⟩
  · intro j l d hj hl hdj hdl
    exact hb.apart j l d hj hl (hnew j d hdj).2 (hnew l d hdl).2
  · intro d hd
    rcases List.mem_cons.mp hd with rfl | hd
    · exact hb.pgdir.1
    · exact hb.replaced d hd
  · exact hlive
  · rw [hplace]
    trivial
  · -- the thread is the current one, so no other runs
    intro j hji hj
    exact hji (Option.some.inj ((hb.running j hj).symm.trans hi))
  · intro j hji hl
    rw [Exec.goOn_place, if_neg hji]
    exact hc.place j hl
  · rw [hplace]
    exact fun hw => absurd trivial hw
  · intro j hj
    simpa using (Bool.and_eq_true_iff.mp hj).1
  · intro d hd
    rw [hplace]
    rcases List.mem_cons.mp hd with rfl | hd
    · exact Or.inr ⟨List.count_eq_zero.mpr hb.pgdir.2, rfl⟩
    · exact Or.inl (hc.once d hd)
  · intro d hd
    rw [hplace] at hd
    obtain rfl := Option.some.inj hd
    exact ⟨List.mem_cons_self, hb.pgdir.2, hne.symm⟩

/-- The committed thread goes on, and the others are ended by the step, or before the window is
left. -/
lemma ExecInv.advance (h : ExecInv s) (hi : s.current = some i) (hcom : (s.place i).Committed)
    (hcom' : c.Committed) (hold : c.old = (s.place i).old) {y : Proc}
    (hmine : (y.pth i).state = (s.proc.pth i).state) (hon : y.onTidx = s.proc.onTidx)
    (hother : ∀ j, j ≠ i → (y.pth j).state = (s.proc.pth j).state ∨ (y.pth j).state = .unused)
    (hafter : ¬c.Window → ∀ j, j ≠ i → (y.pth j).state = .unused) :
    ExecInv { s.goOn i c with proc := y } := by
  have hb := h.base
  have hbusy := h.busy hi hcom
  have hlive : ∀ j, (y.pth j).state.Live → s.Live j := by
    intro j hl
    by_cases hji : j = i
    · rw [hji]
      exact hb.live hi
    · rcases hother j hji with he | he
      · rwa [he] at hl
      · exact absurd he hl.ne_unused
  -- the others did not run, and have not been dispatched
  have hidle : ∀ j, j ≠ i → (y.pth j).state ≠ .running := by
    intro j hji hj
    rcases hother j hji with he | he
    · exact hbusy.others j hji (he ▸ hj)
    · exact State.noConfusion (he.symm.trans hj)
  have hplace : (s.goOn i c).place i = c := by rw [Exec.goOn_place, if_pos rfl]
  have hnew : ∀ j d, ((s.goOn i c).place j).new = some d → (s.place j).new = some d := by
    intro j d hd
    rw [Exec.goOn_place] at hd
    split_ifs at hd
    · rw [ExecPlace.new_eq_none hcom'] at hd
      exact absurd hd (by simp)
    · exact hd
  refine ⟨⟨?_, ?_, ?_, ?_, hb.pgdir, hb.freed, hb.replaced⟩,
    Or.inr ⟨i, ?_, ?_, hidle, ?_, ?_, hbusy.stale, ?_, ?_⟩⟩
  · intro j hj
    by_cases hji : j = i
    · rw [hji]
      exact hi
    · exact absurd hj (hidle j hji)
  · intro j hj
    obtain ⟨hst, hmy⟩ := hb.mine j hj
    obtain rfl : j = i := Option.some.inj (Eq.trans (Eq.symm hj) hi)
    exact ⟨hmine.trans hst, hon.trans hmy⟩
  · exact fun j d hl hd => hb.fresh j d (hlive j hl) (hnew j d hd)
  · exact fun j l d hj hl hdj hdl =>
      hb.apart j l d (hlive j hj) (hlive l hl) (hnew j d hdj) (hnew l d hdl)
  · have hst : (y.pth i).state.Live := by
      rw [hmine]
      exact hb.live hi
    exact hst
  · dsimp only
    rw [hplace]
    exact hcom'
  · intro j hji hl
    dsimp only
    rw [Exec.goOn_place, if_neg hji]
    exact hbusy.window j hji (hlive j hl)
  · dsimp only
    rw [hplace]
    exact hafter
  · dsimp only
    rw [hplace, hold]
    exact hbusy.once
  · dsimp only
    rw [hplace, hold]
    exact hbusy.old

/-- The old page directory is freed. -/
lemma ExecInv.free (h : ExecInv s) (hi : s.current = some i) {old : ℕ}
    (hp : s.place i = .freevm old) :
    ExecInv { s.goOn i .returned with freed := old :: s.freed } := by
  have hb := h.base
  have hbusy := h.busy hi (by rw [hp]; trivial)
  obtain ⟨hrep, hfreed, hne⟩ := hbusy.old old (by rw [hp]; rfl)
  have hplace : (s.goOn i .returned).place i = .returned := by rw [Exec.goOn_place, if_pos rfl]
  have hnew : ∀ j d, ((s.goOn i .returned).place j).new = some d → (s.place j).new = some d := by
    intro j d hd
    rw [Exec.goOn_place] at hd
    split_ifs at hd
    · exact absurd hd (by simp [ExecPlace.new])
    · exact hd
  refine ⟨⟨hb.running, hb.mine, ?_, ?_, ⟨hb.pgdir.1, ?_⟩, ?_, hb.replaced⟩,
    Or.inr ⟨i, hbusy.live, ?_, hbusy.others, ?_, ?_, hbusy.stale, ?_, ?_⟩⟩
  all_goals dsimp only
  · intro j d hl hd
    obtain ⟨hlt', hne', hfreed', hrep'⟩ := hb.fresh j d hl (hnew j d hd)
    refine ⟨hlt', hne', ?_, hrep'⟩
    rw [List.mem_cons, not_or]
    refine ⟨?_, hfreed'⟩
    rintro rfl
    exact hrep' hrep
  · exact fun j l d hj hl hdj hdl => hb.apart j l d hj hl (hnew j d hdj) (hnew l d hdl)
  · rw [List.mem_cons, not_or]
    exact ⟨hne.symm, hb.pgdir.2⟩
  · intro d hd
    rcases List.mem_cons.mp hd with rfl | hd
    · exact hb.replaced d hrep
    · exact hb.freed d hd
  · rw [hplace]
    trivial
  · intro j hji hl
    rw [Exec.goOn_place, if_neg hji]
    exact hbusy.window j hji hl
  · intro _ j hji
    exact hbusy.after (by rw [hp]; exact fun hw => hw) j hji
  · intro d hd
    refine Or.inl ?_
    -- the directory is freed for the first time, and every other one has been freed before
    by_cases hdo : d = old
    · rw [hdo, List.count_cons_self, List.count_eq_zero.mpr hfreed]
    · rw [List.count_cons_of_ne (Ne.symm hdo)]
      refine (hbusy.once d hd).resolve_right fun hr => hdo ?_
      have hmine := hr.2
      rw [hp] at hmine
      exact (Option.some.inj hmine).symm
  · intro d hd
    rw [hplace] at hd
    exact absurd hd (by simp [ExecPlace.old])

/-- `exec` returns. -/
lemma ExecInv.leave (h : ExecInv s) (hi : s.current = some i) (hp : s.place i = .returned) :
    ExecInv (s.goOn i .user) := by
  have hb := h.base
  have hbusy := h.busy hi (by rw [hp]; trivial)
  have halone := hbusy.after (by rw [hp]; exact fun hw => hw)
  -- `init_allpth` has left one thread
  have honly : ∀ j, s.Live j → j = i := by
    intro j hl
    by_contra hji
    exact hl.ne_unused (halone j hji)
  have hplace : (s.goOn i .user).place i = .user := by rw [Exec.goOn_place, if_pos rfl]
  have hnone : ∀ j d, s.Live j → ((s.goOn i .user).place j).new ≠ some d := by
    intro j d hl
    rw [honly j hl, hplace]
    simp [ExecPlace.new]
  refine ⟨⟨hb.running, hb.mine, fun j d hl hd => absurd hd (hnone j d hl),
    fun j l d hj _ hd => absurd hd (hnone j d hj), hb.pgdir, hb.freed, hb.replaced⟩,
    Or.inl ⟨fun j hl => ?_, fun j hj => halone j (hbusy.stale j hj), fun j d sz old hl hj => ?_,
      fun d hd => ?_⟩⟩
  · rw [honly j hl, hplace]
    exact fun hf => hf
  · rw [honly j hl, hplace] at hj
    exact ExecPlace.noConfusion hj
  · refine (hbusy.once d hd).resolve_right fun hr => ?_
    have hmine := hr.2
    rw [hp] at hmine
    exact absurd hmine (by simp [ExecPlace.old])

/-- The next statement of `exec`. -/
lemma ExecInv.next (h : ExecInv s) (hi : s.current = some i)
    (hs : s.next i (s.place i) = some s') : ExecInv s' := by
  cases hp : s.place i with
  | user =>
    rw [hp] at hs
    exact absurd hs (by simp [Exec.next])
  | build pgdir sz =>
    rw [hp] at hs
    obtain rfl := Option.some.inj hs
    exact h.read hi hp
  | setPgdir pgdir sz old =>
    rw [hp] at hs
    obtain rfl := Option.some.inj hs
    exact h.store hi hp rfl rfl
  | setSz sz old =>
    rw [hp] at hs
    obtain rfl := Option.some.inj hs
    refine h.advance hi ?_ ?_ ?_ rfl rfl (fun _ _ => Or.inl rfl) fun hw => absurd trivial hw
    · rw [hp]
      trivial
    · trivial
    · rw [hp]
      rfl
  | setUstack sz old =>
    rw [hp] at hs
    obtain rfl := Option.some.inj hs
    refine h.advance hi ?_ ?_ ?_ rfl rfl (fun _ _ => Or.inl rfl) fun hw => absurd trivial hw
    · rw [hp]
      trivial
    · trivial
    · rw [hp]
      rfl
  | initAllpth old =>
    rw [hp] at hs
    obtain rfl := Option.some.inj hs
    -- the window is left, and the other threads are gone
    have hother : ∀ j, j ≠ i → ((s.proc.initAllpth i).pth j).state = .unused := by
      intro j hji
      rw [Proc.initAllpth_pth, if_neg hji]
    refine h.advance hi ?_ ?_ ?_ ?_ rfl (fun j hji => Or.inr (hother j hji)) fun _ => hother
    · rw [hp]
      trivial
    · trivial
    · rw [hp]
      rfl
    · rw [Proc.initAllpth_pth, if_pos rfl]
  | switchuvm old =>
    rw [hp] at hs
    obtain rfl := Option.some.inj hs
    have hcom : (s.place i).Committed := by
      rw [hp]
      trivial
    refine h.advance hi hcom ?_ ?_ rfl rfl (fun _ _ => Or.inl rfl) fun _ => ?_
    · trivial
    · rw [hp]
      rfl
    · refine (h.busy hi hcom).after ?_
      rw [hp]
      exact fun hw => hw
  | freevm old =>
    rw [hp] at hs
    obtain rfl := Option.some.inj hs
    exact h.free hi hp
  | returned =>
    rw [hp] at hs
    obtain rfl := Option.some.inj hs
    exact h.leave hi hp

/-! ### The steps -/

lemma ExecInv.call (h : ExecInv s) (hi : s.current = some i) (hu : s.place i = .user) {op : ExecOp}
    (hs : s.call i op = some s') : ExecInv s' := by
  obtain ⟨-, hon⟩ := h.base.mine i hi
  cases op with
  | exec sz =>
    obtain rfl := Option.some.inj hs
    exact h.enter hi hu sz
  | sbrk n avail =>
    obtain ⟨x, hx, rfl⟩ := Option.map_eq_some_iff.mp hs
    obtain ⟨r, -, rfl⟩ := Option.map_eq_some_iff.mp hx
    exact h.woken (CalmProc.of_eq rfl rfl rfl rfl)
  | threadCreate tid page avail =>
    obtain ⟨j, hj, hs⟩ := Option.bind_eq_some_iff.mp hs
    exact h.create hi hu (by simpa using List.find?_some hj) hs
  | threadExit v =>
    obtain rfl := Option.some.inj hs
    refine h.finish hi hu fun j => ?_
    rw [Proc.threadExit_pth]
    split_ifs with hj
    · refine Or.inr (Or.inl ⟨rfl, ?_⟩)
      rw [hj, hon]
      exact (h.base.live hi).ne_unused
    · rw [hon] at hj
      exact Or.inl ⟨rfl, hj⟩
  | threadJoin j =>
    obtain ⟨hz, hs⟩ := Option.ite_none_right_eq_some.mp hs
    obtain rfl := Option.some.inj hs
    exact h.threadJoin hi hu hz
  | exit =>
    obtain rfl := Option.some.inj hs
    refine h.finish hi hu fun j => Or.inr ?_
    dsimp only [Proc.exit]
    split_ifs with hj
    · exact Or.inr hj
    · exact Or.inl ⟨rfl, hj⟩
  | _ => cases hs

/-- What the current thread can do. -/
lemma Exec.perform_cases {op : ExecOp} (h : s.perform i op = some s') :
    (s.next i (s.place i) = some s') ∨
    (∃ pgdir sz, s.place i = .build pgdir sz ∧
      s' = { s.goOn i .user with freed := pgdir :: s.freed }) ∨
    s' = { s with proc := s.proc.yield, current := none } ∨
    (∃ a, s' = { s with proc := s.proc.sleep (.addr a) .user, current := none }) ∨
    s.place i = .user ∧ s.call i op = some s' := by
  rw [Exec.perform.eq_def] at h
  cases op with
  | next => exact Or.inl h
  | preempt => exact Or.inr (Or.inr (Or.inl (Option.some.inj h).symm))
  | bad =>
    cases hp : s.place i with
    | build pgdir sz =>
      rw [hp] at h
      exact Or.inr (Or.inl ⟨pgdir, sz, rfl, (Option.some.inj h).symm⟩)
    | _ =>
      rw [hp] at h
      cases h
  | sleep a =>
    cases hp : s.place i with
    | user | build pgdir sz =>
      rw [hp] at h
      exact Or.inr (Or.inr (Or.inr (Or.inl ⟨a, (Option.some.inj h).symm⟩)))
    | _ =>
      rw [hp] at h
      exact absurd h (by simp)
  | _ =>
    cases hp : s.place i with
    | user =>
      rw [hp] at h
      exact Or.inr (Or.inr (Or.inr (Or.inr ⟨rfl, h⟩)))
    | _ =>
      rw [hp] at h
      exact absurd h (by simp)

lemma ExecInv.perform (h : ExecInv s) (hi : s.current = some i) {op : ExecOp}
    (hs : s.perform i op = some s') : ExecInv s' := by
  obtain ⟨-, hon⟩ := h.base.mine i hi
  rcases Exec.perform_cases hs with hs | ⟨pgdir, sz, hp, rfl⟩ | rfl | ⟨a, rfl⟩ | ⟨hu, hs⟩
  · exact h.next hi hs
  · exact h.bad hi hp
  · refine h.switchOut hi (fun j hj => ?_) (Or.inr ?_)
    · rw [Proc.yield_pth, hon, if_neg hj]
    · rw [Proc.yield_pth, hon, if_pos rfl]
  · refine h.switchOut hi (fun j hj => ?_) (Or.inl ?_)
    · rw [Proc.sleep_pth, hon, if_neg hj]
    · rw [Proc.sleep_pth, hon, if_pos rfl]
  · exact h.call hi hu hs

lemma ExecInv.step (h : ExecInv s) {op : ExecOp} (hs : s.Step op s') (hsafe : ExecSafe s op) :
    ExecInv s' := by
  cases op with
  | wakeup c =>
    obtain rfl := Option.some.inj hs
    exact h.woken (calmProc_wakeup1 _ _)
  | kill =>
    obtain rfl := Option.some.inj hs
    exact h.woken (calmProc_kill _)
  | dispatch i anew =>
    obtain ⟨⟨hnone, hi⟩, hs⟩ := Option.ite_none_right_eq_some.mp hs
    obtain rfl := Option.some.inj hs
    exact h.dispatch hnone hi hsafe
  | _ =>
    obtain ⟨i, hi, hs⟩ := Option.bind_eq_some_iff.mp hs
    exact h.perform hi hs

end

/-! ### The result -/

lemma Exec.Start.execInv {s : Exec} (h : s.Start) : ExecInv s := by
  have hnew : ∀ i, (s.place i).new = none := by
    intro i
    rw [h.place i]
    rfl
  refine ⟨⟨h.running, h.mine, fun i d _ hd => ?_, fun i j d _ _ hd => ?_, ⟨h.pgdir, ?_⟩, ?_, ?_⟩,
    Or.inl ⟨fun i _ => ?_, fun j hj => ?_, fun i d sz old _ hi => ?_, ?_⟩⟩
  · rw [hnew] at hd
    exact absurd hd (by simp)
  · rw [hnew] at hd
    exact absurd hd (by simp)
  · rw [h.freed]
    exact List.not_mem_nil
  · rw [h.freed]
    exact List.forall_mem_nil _
  · rw [h.replaced]
    exact List.forall_mem_nil _
  · rw [h.place]
    exact fun hf => hf
  · rw [h.stale] at hj
    exact absurd hj (by simp)
  · rw [h.place] at hi
    exact ExecPlace.noConfusion hi
  · rw [h.replaced]
    exact List.forall_mem_nil _

lemma ExecInv.execRight {s : Exec} (h : ExecInv s) : ExecRight s := by
  refine ⟨fun j hj hrun => ?_, fun d hd => ?_, h.base.pgdir.2, fun i hl hp j hji => ?_⟩
  · -- a stale thread is gone, or waits for `init_allpth`
    rcases h.phase with hc | ⟨b, hb⟩
    · exact State.noConfusion ((hc.stale j hj).symm.trans hrun)
    · exact hb.others j (hb.stale j hj) hrun
  · rcases h.phase with hc | ⟨b, hb⟩
    · exact Or.inl (hc.once d hd)
    · exact (hb.once d hd).imp_right fun hr => ⟨hr.1, b, hb.live, hr.2⟩
  · have hcom : (s.place i).Committed := by
      rw [hp]
      trivial
    rcases h.phase with hc | ⟨b, hb⟩
    · exact absurd hcom (hc.place i hl)
    · by_cases hib : i = b
      · subst hib
        exact hb.after (by rw [hp]; exact fun hw => hw) j hji
      · exact absurd hcom (hb.window i hib hl)

/-- **`exec` replaces the whole process**, in every run in which no thread is dispatched while
another one has installed its page directory and has not executed `init_allpth`. -/
theorem execRight_of_execSafe {s₀ s : Exec} (h₀ : s₀.Start)
    (h : Reachable (· = s₀) (Guarded Exec.Step ExecSafe) s) : ExecRight s := by
  refine ExecInv.execRight (Reachable.invariant ?_ ?_ h)
  · rintro _ rfl
    exact h₀.execInv
  · rintro s op s' hs ⟨hstep, hsafe⟩
    exact hs.step hstep hsafe

/-- A process with two threads. -/
def execStart : Exec where
  proc := { Proc.zero with
    state := .running
    pth := Function.update (Function.update Proc.zero.pth 0
      { Pthread.zero with state := .running, tid := 1 }) 1
      { Pthread.zero with state := .runnable, tid := 2 } }
  current := some 0
  place := fun _ => .user
  pgdir := 0
  nextPgdir := 1
  replaced := []
  freed := []
  stale := fun _ => false

lemma start_execStart : execStart.Start := by
  have hpth : (∀ i, (execStart.proc.pth i).state = .running → execStart.current = some i) ∧
      ∀ i, execStart.current = some i →
        (execStart.proc.pth i).state = .running ∧ execStart.proc.onTidx = i := by
    decide +kernel
  exact ⟨fun _ => rfl, hpth.1, hpth.2, Nat.zero_lt_one, rfl, rfl, fun _ => rfl⟩

/-- Both threads call `exec`, and the first one is dispatched again before the second one has
installed its page directory. -/
def execOps : List ExecOp :=
  [.exec 8192, .next, .preempt, .dispatch 1 false, .exec 4096, .preempt, .dispatch 0 true] ++
    List.replicate 6 .next

theorem execRight_of_execSafe_two : ∃ s : Exec,
    Reachable (· = execStart) (Guarded Exec.Step ExecSafe) s ∧ s.place 0 = .returned ∧
      s.pgdir = 1 ∧ s.freed = [0] ∧ (s.proc.pth 1).state = .unused ∧ ExecRight s := by
  have hrun : ((run (guardedNext Exec.step ExecSafe) execStart execOps).any fun s =>
      decide (s.place 0 = .returned ∧ s.pgdir = 1 ∧ s.freed = [0] ∧
        (s.proc.pth 1).state = .unused)) = true := by
    decide +kernel
  obtain ⟨s, hs, hall⟩ := (Option.any_eq_true _ _).mp hrun
  obtain ⟨hplace, hpgdir, hfreed, hun⟩ := of_decide_eq_true hall
  have hnext : ∀ s op s', guardedNext Exec.step ExecSafe s op = some s' →
      Guarded Exec.Step ExecSafe s op s' := fun _ _ _ h => guardedNext_eq_some.mp h
  have hreach : Reachable (· = execStart) (Guarded Exec.Step ExecSafe) s :=
    Reachable.run hnext (.start rfl) hs
  exact ⟨s, hreach, hplace, hpgdir, hfreed, hun, execRight_of_execSafe start_execStart hreach⟩

/-- The first thread is preempted when it has installed its page directory. -/
def staleOps : List ExecOp := [.exec 8192, .next, .next, .preempt, .dispatch 1 false]

/-- The second thread runs in the new image.  When it calls `exec` too, it ends the first thread
in `init_allpth`, and the page directory of the old image is never freed. -/
theorem not_execRight :
    (∃ s : Exec, Reachable (· = execStart) Exec.Step s ∧ s.stale 1 = true ∧
      (s.proc.pth 1).state = .running ∧ ¬ExecRight s) ∧
    ∃ s : Exec, Reachable (· = execStart) Exec.Step s ∧ s.place 1 = .returned ∧
      0 ∈ s.replaced ∧ s.freed = [1] ∧ (∀ i, s.Live i → (s.place i).old = none) ∧
      ¬ExecRight s := by
  have hrun : ((run Exec.step execStart staleOps).any fun s =>
      decide (s.stale 1 = true ∧ (s.proc.pth 1).state = .running)) = true := by
    decide +kernel
  have hlong : ((run Exec.step execStart (staleOps ++ .exec 4096 :: List.replicate 7 .next)).any
      fun s => decide (s.place 1 = .returned ∧ 0 ∈ s.replaced ∧ s.freed = [1] ∧
        ∀ i, s.Live i → (s.place i).old = none)) = true := by
    decide +kernel
  constructor
  · obtain ⟨s, hs, hall⟩ := (Option.any_eq_true _ _).mp hrun
    obtain ⟨hstale, hst⟩ := of_decide_eq_true hall
    exact ⟨s, Reachable.run (fun _ _ _ h => h) (.start rfl) hs, hstale, hst,
      fun h => h.dispatched 1 hstale hst⟩
  · obtain ⟨s, hs, hall⟩ := (Option.any_eq_true _ _).mp hlong
    obtain ⟨hplace, hrep, hfreed, hnone⟩ := of_decide_eq_true hall
    refine ⟨s, Reachable.run (fun _ _ _ h => h) (.start rfl) hs, hplace, hrep, hfreed, hnone,
      fun h => ?_⟩
    rcases h.once 0 hrep with hone | ⟨-, i, hl, hold⟩
    · rw [hfreed] at hone
      exact absurd hone (by decide)
    · exact absurd ((hnone i hl).symm.trans hold) (by simp)

end Xv6Projects.Threads
