import Mathlib.Tactic.SplitIfs
import Mathlib.Tactic.Common
import Xv6Projects.Threads.System

/-!
# The shape of the table

Which states of processes and threads go together, and the invariant of all runs: the
running thread is the current thread of the CPU, and a process under construction belongs to
one thread in `fork`.
-/

namespace Xv6Projects.Threads

open Library Kernel

/-! ### Projections -/

namespace Proc
variable (x : Proc) (i j : Tidx) (f : Pthread → Pthread)

lemma updPth_pth : (x.updPth i f).pth j = if j = i then f (x.pth i) else x.pth j := by
  simp only [updPth, Function.update_apply]

@[simp] lemma updPth_self : (x.updPth i f).pth i = f (x.pth i) := by
  rw [updPth_pth, if_pos rfl]

lemma updPth_of_ne {i j : Tidx} (h : j ≠ i) : (x.updPth i f).pth j = x.pth j := by
  rw [updPth_pth, if_neg h]

@[simp] lemma updPth_state : (x.updPth i f).state = x.state := rfl
@[simp] lemma updPth_parent : (x.updPth i f).parent = x.parent := rfl
@[simp] lemma updPth_onTidx : (x.updPth i f).onTidx = x.onTidx := rfl
@[simp] lemma updPth_ofile : (x.updPth i f).ofile = x.ofile := rfl
@[simp] lemma updPth_cwd : (x.updPth i f).cwd = x.cwd := rfl
@[simp] lemma updPth_kstacks : (x.updPth i f).kstacks = x.kstacks := rfl
@[simp] lemma updPth_ustacks : (x.updPth i f).ustacks = x.ustacks := rfl
@[simp] lemma updPth_sz : (x.updPth i f).sz = x.sz := rfl
@[simp] lemma updPth_pgdir : (x.updPth i f).pgdir = x.pgdir := rfl

lemma setProcState_state : x.setProcState.state = x.procState := rfl
@[simp] lemma setProcState_pth : x.setProcState.pth = x.pth := rfl
@[simp] lemma setProcState_parent : x.setProcState.parent = x.parent := rfl
@[simp] lemma setProcState_onTidx : x.setProcState.onTidx = x.onTidx := rfl
@[simp] lemma setProcState_ofile : x.setProcState.ofile = x.ofile := rfl
@[simp] lemma setProcState_cwd : x.setProcState.cwd = x.cwd := rfl
@[simp] lemma setProcState_kstacks : x.setProcState.kstacks = x.kstacks := rfl

lemma hasState_iff {s : State} : x.hasState s = true ↔ ∃ i, (x.pth i).state = s := by
  simp [hasState, tidxs]

/-- With a thread that can still run, the process can. -/
lemma setProcState_live {x : Proc} {i : Tidx} (h : (x.pth i).state.Live) :
    x.setProcState.state.Live := by
  rw [setProcState_state, procState]
  split_ifs with hrun hable hsleep hzom
  · exact Or.inr (Or.inr rfl)
  · exact Or.inr (Or.inl rfl)
  · exact Or.inl rfl
  all_goals
    rw [hasState_iff] at hrun hable hsleep
    rcases h with h | h | h
    · exact absurd ⟨i, h⟩ hsleep
    · exact absurd ⟨i, h⟩ hable
    · exact absurd ⟨i, h⟩ hrun

/-- Without one, and with a zombie, it is a zombie. -/
lemma setProcState_zombie {x : Proc} {i : Tidx} (h : (x.pth i).state = .zombie)
    (hlive : ∀ j, ¬(x.pth j).state.Live) : x.setProcState.state = .zombie := by
  have hno : ∀ s : State, s.Live → ¬x.hasState s = true := by
    rintro s hs hx
    obtain ⟨j, hj⟩ := x.hasState_iff.mp hx
    exact hlive j (by rwa [hj])
  rw [setProcState_state, procState, if_neg (hno .running (Or.inr (Or.inr rfl))),
    if_neg (hno .runnable (Or.inr (Or.inl rfl))), if_neg (hno .sleeping (Or.inl rfl)),
    if_pos (x.hasState_iff.mpr ⟨i, h⟩)]

end Proc

namespace Kernel
variable (k : Kernel) (p q : Slot) (f : Proc → Proc) (c : Cpu)

lemma updProc_proc : (k.updProc p f).proc q = if q = p then f (k.proc p) else k.proc q := by
  simp only [updProc, Function.update_apply]

@[simp] lemma updProc_self : (k.updProc p f).proc p = f (k.proc p) := by
  rw [updProc_proc, if_pos rfl]

lemma updProc_of_ne {p q : Slot} (h : q ≠ p) : (k.updProc p f).proc q = k.proc q := by
  rw [updProc_proc, if_neg h]

@[simp] lemma updProc_cpu : (k.updProc p f).cpu = k.cpu := rfl
@[simp] lemma updProc_initproc : (k.updProc p f).initproc = k.initproc := rfl
@[simp] lemma updProc_kmem : (k.updProc p f).kmem = k.kmem := rfl
@[simp] lemma updProc_refreed : (k.updProc p f).refreed = k.refreed := rfl
@[simp] lemma updProc_nextTid : (k.updProc p f).nextTid = k.nextTid := rfl

@[simp] lemma mapProc_proc : (k.mapProc f).proc p = f (k.proc p) := rfl
@[simp] lemma mapProc_cpu : (k.mapProc f).cpu = k.cpu := rfl

@[simp] lemma setCpu_cpu : (k.setCpu c).cpu = c := rfl
@[simp] lemma setCpu_proc : (k.setCpu c).proc = k.proc := rfl
@[simp] lemma setCpu_initproc : (k.setCpu c).initproc = k.initproc := rfl
@[simp] lemma setCpu_kmem : (k.setCpu c).kmem = k.kmem := rfl
@[simp] lemma setCpu_refreed : (k.setCpu c).refreed = k.refreed := rfl
@[simp] lemma setCpu_nextTid : (k.setCpu c).nextTid = k.nextTid := rfl

end Kernel

/-! ### One process -/

/-- The states of a process and its threads that go together. -/
structure ProcShape (x : Proc) : Prop where
  unused : x.state = .unused → ∀ i, (x.pth i).state = .unused
  embryo : x.state = .embryo → ((x.pth 0).state = .embryo ∧ (x.pth 0).cont = .user) ∧
    ∀ i, i ≠ 0 → (x.pth i).state = .unused
  zombie : x.state = .zombie → ∀ i, ¬(x.pth i).state.Live
  notEmbryo : x.state ≠ .embryo → ∀ i, (x.pth i).state ≠ .embryo
  parent : x.state = .unused → x.parent = none

/-- A process with a thread that can still run can run. -/
lemma ProcShape.alive {x : Proc} (hx : ProcShape x) {i : Tidx} (h : (x.pth i).state.Live) :
    x.state.Live := by
  cases hs : x.state with
  | unused => rw [hx.unused hs i] at h; simp [State.Live] at h
  | embryo =>
    obtain ⟨h0, hne⟩ := hx.embryo hs
    by_cases hi : i = 0
    · rw [hi, h0.1] at h
      simp [State.Live] at h
    · rw [hne i hi] at h
      simp [State.Live] at h
  | zombie => exact absurd h (hx.zombie hs i)
  | sleeping => simp [State.Live]
  | runnable => simp [State.Live]
  | running => simp [State.Live]

lemma State.Live.ne_unused {s : State} (h : s.Live) : s ≠ .unused := by
  rintro rfl; simp [State.Live] at h

lemma State.Live.ne_embryo {s : State} (h : s.Live) : s ≠ .embryo := by
  rintro rfl; simp [State.Live] at h

lemma State.Live.ne_zombie {s : State} (h : s.Live) : s ≠ .zombie := by
  rintro rfl; simp [State.Live] at h

/-- For a process that can run, only threads under construction are excluded. -/
lemma procShape_of_live {x : Proc} (hs : x.state.Live) (h : ∀ i, (x.pth i).state ≠ .embryo) :
    ProcShape x where
  unused hu := absurd hu hs.ne_unused
  embryo he := absurd he hs.ne_embryo
  zombie hz := absurd hz hs.ne_zombie
  notEmbryo _ := h
  parent hu := absurd hu hs.ne_unused

/-! ### The table -/

/-- The CPU executes a thread of `p`. -/
def Kernel.Current (k : Kernel) (p : Slot) : Prop := k.cpu = .run p ∨ k.cpu = .resume p

/-- The process that the thread constructs. -/
def Cont.target : Cont → Option Slot
  | .forkStack np | .forkCopy np | .forkDone np => some np
  | _ => none

/-- The process has not been given its parent yet. -/
def Cont.Unfinished (c : Cont) (np : Slot) : Prop := c = .forkStack np ∨ c = .forkCopy np

/-- The thread can still run. -/
def Kernel.Live (k : Kernel) (p : Slot) (i : Tidx) : Prop := ((k.proc p).pth i).state.Live

/-- A sleeping thread in `wait` or `thread_join` sleeps on the channel of that function. -/
def Pthread.ChanOk (t : Pthread) (p : Slot) : Prop :=
  t.state = .sleeping → (t.cont = .wait → t.chan = .proc p) ∧
    ∀ n havepth, t.cont = .join n havepth → t.chan = .word n

/-- The invariant of all runs. -/
structure Shape (k : Kernel) : Prop where
  proc : ∀ p, ProcShape (k.proc p)
  /-- The current thread runs, at a place that fits the state of the CPU. -/
  place : ∀ p, k.Current p →
    (k.proc p).mypth.state = .running ∧ k.cpu = cpuAt p (k.proc p).mypth.cont
  /-- No other thread runs. -/
  running : ∀ p i, ((k.proc p).pth i).state = .running → k.Current p ∧ i = (k.proc p).onTidx
  /-- A process under construction is an embryo, -/
  target : ∀ p i np, k.Live p i → ((k.proc p).pth i).cont.target = some np →
    (k.proc np).state = .embryo
  /-- belongs to one thread, -/
  owner : ∀ p i q j np, k.Live p i → k.Live q j → ((k.proc p).pth i).cont.target = some np →
    ((k.proc q).pth j).cont.target = some np → p = q ∧ i = j
  /-- and has no parent before it is copied. -/
  orphan : ∀ p i np, k.Live p i → ((k.proc p).pth i).cont.Unfinished np →
    (k.proc np).parent = none
  chan : ∀ p i, ((k.proc p).pth i).ChanOk p

lemma Cont.Unfinished.target {c : Cont} {np : Slot} (h : c.Unfinished np) :
    c.target = some np := by
  rcases h with rfl | rfl
  · rfl
  · rfl

/-- Only the table and the CPU matter. -/
lemma Shape.congr {k k' : Kernel} (hk : Shape k) (hproc : k'.proc = k.proc)
    (hcpu : k'.cpu = k.cpu) : Shape k' := by
  have hcur : ∀ p, k'.Current p ↔ k.Current p := by
    intro p
    rw [Kernel.Current, Kernel.Current, hcpu]
  have hlive : ∀ p i, k'.Live p i ↔ k.Live p i := by
    intro p i
    rw [Kernel.Live, Kernel.Live, hproc]
  constructor
  · rw [hproc]
    exact hk.proc
  · intro p hp
    rw [hproc, hcpu]
    exact hk.place p ((hcur p).mp hp)
  · intro p i h
    rw [hproc] at h ⊢
    exact ⟨(hcur p).mpr (hk.running p i h).1, (hk.running p i h).2⟩
  · intro p i np hl ht
    rw [hproc] at ht ⊢
    exact hk.target p i np ((hlive p i).mp hl) ht
  · intro p i q j np hl hl' ht ht'
    rw [hproc] at ht ht'
    exact hk.owner p i q j np ((hlive p i).mp hl) ((hlive q j).mp hl') ht ht'
  · intro p i np hl ht
    rw [hproc] at ht ⊢
    exact hk.orphan p i np ((hlive p i).mp hl) ht
  · rw [hproc]
    exact hk.chan

/-- The current process can run. -/
lemma Shape.live_current {k : Kernel} (hk : Shape k) {p : Slot} (hp : k.Current p) :
    k.Live p (k.proc p).onTidx := Or.inr (Or.inr (hk.place p hp).1)

lemma Shape.alive_current {k : Kernel} (hk : Shape k) {p : Slot} (hp : k.Current p) :
    (k.proc p).state.Live := (hk.proc p).alive (hk.live_current hp)

/-- The CPU has one current process. -/
lemma Kernel.Current.eq {k : Kernel} {p q : Slot} (hp : k.Current p) (hq : k.Current q) :
    p = q := by
  rcases hp with hp | hp <;> rcases hq with hq | hq <;> simp_all

end Xv6Projects.Threads
