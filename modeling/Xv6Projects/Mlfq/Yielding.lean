import Xv6Projects.Mlfq.Dispatch

/-!
# What a process gives up with `yield`

`yield` makes its caller runnable and changes nothing else: the caller keeps its level, its
priority and its ticket, and competes with them in the next pass of the scheduler.  On one CPU
only interrupt handlers run before that pass, and all they do to the table is to wake processes
up.
-/

namespace Xv6Projects.Mlfq

open Library Kernel

variable {k k' k₁ : Kernel} {c i j : Slot}

/-- Process `c` calls `yield`, interrupt handlers wake up the sleepers on `chans`, and the
scheduler makes its next pass. -/
def Kernel.yieldPass (k : Kernel) (c : Slot) (chans : List Chan) : Option (Option Slot × Kernel) :=
  (yield k c).bind fun k => (chans.foldlM wakeup k).bind scheduler

/-- Process `j` is another runnable process of the level of `c` and, in `L3`, of its priority. -/
def Peer (k : Kernel) (c j : Slot) : Prop :=
  j ≠ c ∧ (k.proc j).state = .runnable ∧ (k.proc j).qlev = (k.proc c).qlev ∧
    ((k.proc c).qlev = L3 → (k.proc j).priority = (k.proc c).priority)

instance (k : Kernel) (c j : Slot) : Decidable (Peer k c j) := inferInstanceAs (Decidable (_ ∧ _))

/-- The process dispatched next after `c` calls `yield` is another one, whatever is woken up in
between. -/
def GivesUp (k : Kernel) (c : Slot) : Prop :=
  ∀ chans, ∃ d k', k.yieldPass c chans = some (some d, k') ∧ d ≠ c

/-- The lock is free, and another runnable process comes before `c`. -/
def YieldSafe (k : Kernel) (c : Slot) : Prop :=
  k.locked = false ∧ ∃ j, j ≠ c ∧ (k.proc j).state = .runnable ∧ SchedLe k j c

/-! ### The order of the scheduler -/

lemma SchedLe.antisymm (hij : SchedLe k i j) (hji : SchedLe k j i) : i = j := by
  rw [Fin.ext_iff]
  simp only [SchedLe, Fin.le_def] at hij hji
  omega

/-! ### From the call to the pass -/

/-- Levels, priorities and tickets stay, runnable processes stay runnable, and the lock and the
mode are as before. -/
structure Waits (k k' : Kernel) : Prop where
  locked : k'.locked = k.locked
  moqActive : k'.moqActive = k.moqActive
  qlev : ∀ i, (k'.proc i).qlev = (k.proc i).qlev
  priority : ∀ i, (k'.proc i).priority = (k.proc i).priority
  seq : ∀ i, (k'.proc i).seq = (k.proc i).seq
  runnable : ∀ i, (k.proc i).state = .runnable → (k'.proc i).state = .runnable

lemma Waits.refl (k : Kernel) : Waits k k :=
  ⟨rfl, rfl, fun _ => rfl, fun _ => rfl, fun _ => rfl, fun _ => id⟩

lemma Waits.trans (h : Waits k k₁) (h' : Waits k₁ k') : Waits k k' where
  locked := h'.locked.trans h.locked
  moqActive := h'.moqActive.trans h.moqActive
  qlev i := (h'.qlev i).trans (h.qlev i)
  priority i := (h'.priority i).trans (h.priority i)
  seq i := (h'.seq i).trans (h.seq i)
  runnable i hi := h'.runnable i (h.runnable i hi)

lemma Waits.schedLe (h : Waits k k') : SchedLe k' i j ↔ SchedLe k i j := by
  simp only [SchedLe, h.qlev, h.priority, h.seq]

lemma Waits.of_proc (hl : k'.locked = k.locked) (hm : k'.moqActive = k.moqActive)
    (h : ∀ i, ((k'.proc i).qlev = (k.proc i).qlev ∧ (k'.proc i).priority = (k.proc i).priority ∧
      (k'.proc i).seq = (k.proc i).seq) ∧
      ((k.proc i).state = .runnable → (k'.proc i).state = .runnable)) : Waits k k' :=
  ⟨hl, hm, fun i => (h i).1.1, fun i => (h i).1.2.1, fun i => (h i).1.2.2, fun i => (h i).2⟩

/-- `yield` only changes the state of its caller. -/
lemma yield_waits (hk : k.locked = false) (c : Slot) :
    ∃ k', yield k c = some k' ∧ Waits k k' ∧ (k'.proc c).state = .runnable ∧
      ∀ i, i ≠ c → (k'.proc i).state = (k.proc i).state := by
  refine ⟨_, withLock_eq_some.mpr ⟨hk, rfl⟩, .of_proc hk.symm rfl fun i => ?_, by simp,
    fun i hi => by simp [Function.update_of_ne hi]⟩
  rw [setLocked_proc, setProc_proc, setLocked_proc]
  by_cases hi : i = c
  · subst hi
    rw [Function.update_self]
    exact ⟨⟨rfl, rfl, rfl⟩, fun _ => rfl⟩
  · rw [Function.update_of_ne hi]
    exact ⟨⟨rfl, rfl, rfl⟩, id⟩

/-- A wake-up makes sleepers runnable, and nothing else. -/
lemma wakeup_waits (hk : k.locked = false) (chan : Chan) :
    ∃ k', wakeup k chan = some k' ∧ Waits k k' := by
  refine ⟨_, withLock_eq_some.mpr ⟨hk, rfl⟩, .of_proc hk.symm rfl fun i => ?_⟩
  rw [setLocked_proc, wakeup1, mapProc_proc, setLocked_proc]
  split_ifs
  · exact ⟨⟨rfl, rfl, rfl⟩, fun _ => rfl⟩
  · exact ⟨⟨rfl, rfl, rfl⟩, id⟩

lemma wakeups_waits (chans : List Chan) : ∀ {k : Kernel}, k.locked = false →
    ∃ k', chans.foldlM wakeup k = some k' ∧ Waits k k' := by
  induction chans with
  | nil => exact fun {k} _ => ⟨k, rfl, Waits.refl k⟩
  | cons chan chans ih =>
    intro k hk
    obtain ⟨k₁, h₁, hw₁⟩ := wakeup_waits hk chan
    obtain ⟨k₂, h₂, hw₂⟩ := ih (hw₁.locked.trans hk)
    refine ⟨k₂, ?_, hw₁.trans hw₂⟩
    rw [List.foldlM_cons, h₁]
    exact h₂

/-- The pass after `yield` starts in a state in which the caller is runnable, and dispatches the
first of the processes that are runnable there. -/
lemma yieldPass_first (hk : k.locked = false) (hoff : k.moqActive = 0) (c : Slot)
    (chans : List Chan) : ∃ d k', k.yieldPass c chans = some (some d, k') ∧ SchedLe k d c ∧
      (∀ j, (k.proc j).state = .runnable → SchedLe k d j) ∧
      (chans = [] → d ≠ c → (k.proc d).state = .runnable) := by
  obtain ⟨k₁, hyield, hw₁, hc, hsame⟩ := yield_waits hk c
  obtain ⟨k₂, hwake, hw₂⟩ := wakeups_waits chans (hw₁.locked.trans hk)
  have hw := hw₁.trans hw₂
  obtain ⟨d, k', hpass, hrun, -, hfirst, -⟩ := scheduler_dispatches k₂ (hw.locked.trans hk)
  obtain ⟨d, rfl, hd⟩ := hfirst (hw.moqActive.trans hoff) ⟨c, hw₂.runnable c hc⟩
  refine ⟨d, k', ?_, hw.schedLe.mp (hd c (hw₂.runnable c hc)), fun j hj => ?_, ?_⟩
  · rw [yieldPass, hyield, Option.bind_some, hwake]
    exact hpass
  · exact hw.schedLe.mp (hd j (hw.runnable j hj))
  · rintro rfl hne
    obtain rfl := Option.some.inj hwake
    rw [← hsame d hne]
    exact hrun d rfl

lemma GivesUp.safe (hoff : k.moqActive = 0) (h : GivesUp k c) : YieldSafe k c := by
  obtain ⟨d, k', hpass, hne⟩ := h []
  have hk : k.locked = false := by
    by_contra hl
    rw [yieldPass, yield, withLock, acquire, if_pos (by simpa using hl)] at hpass
    exact absurd hpass (by simp)
  -- without a wake-up the process dispatched instead of `c` was runnable before
  obtain ⟨d', k'', hpass', hle, -, hrun⟩ := yieldPass_first hk hoff c []
  obtain ⟨hd, -⟩ := Prod.mk.inj (Option.some.inj (hpass.symm.trans hpass'))
  obtain rfl := Option.some.inj hd
  exact ⟨hk, d, hne, hrun rfl hne, hle⟩

lemma YieldSafe.givesUp (hoff : k.moqActive = 0) (h : YieldSafe k c) : GivesUp k c := by
  obtain ⟨hk, j, hne, hrun, hle⟩ := h
  intro chans
  obtain ⟨d, k', hpass, -, hfirst, -⟩ := yieldPass_first hk hoff c chans
  refine ⟨d, k', hpass, ?_⟩
  rintro rfl
  exact hne (hle.antisymm (hfirst j hrun))

/-- **When `yield` gives up the CPU.**  Outside monopoly mode the next pass dispatches another
process if and only if one that comes before the caller is runnable at the call. -/
theorem givesUp_iff (k : Kernel) (hoff : k.moqActive = 0) (c : Slot) :
    GivesUp k c ↔ YieldSafe k c :=
  ⟨fun h => h.safe hoff, fun h => h.givesUp hoff⟩

/-- The child of the first process gives the CPU up to its parent, which has the lower ticket. -/
theorem givesUp_iff_child : ∃ k, Reach k ∧ Ready k 1 ∧ Peer k 1 0 ∧ GivesUp k 1 := by
  have hrun : ((run step pinit [.userinit, .scheduler, .forkAlloc 0, .forkDone 0,
      .sleep 0 (.addr 1), .scheduler, .wakeup (.addr 1)]).any fun k =>
      decide (Ready k 1 ∧ k.moqActive = 0 ∧ k.locked = false ∧ Peer k 1 0 ∧
        (k.proc 0).qlev = L0 ∧ (k.proc 0).seq < (k.proc 1).seq)) = true := by
    decide +kernel
  obtain ⟨k, hk, hall⟩ := (Option.any_eq_true _ _).mp hrun
  obtain ⟨hready, hoff, hfree, hpeer, hq, hseq⟩ := of_decide_eq_true hall
  have hle : SchedLe k 0 1 := by
    refine Or.inr ⟨hpeer.2.2.1, Or.inr ⟨fun h => ?_, Or.inl hseq⟩⟩
    rw [hq] at h
    exact absurd h (by decide)
  exact ⟨k, Reachable.run (fun _ _ _ h => h) (.start rfl) hk, hready, hpeer,
    (givesUp_iff k hoff 1).mpr ⟨hfree, 0, hpeer.1, hpeer.2.1, hle⟩⟩

/-- The first process gives the CPU up while its child waits in the same level: the next pass
dispatches the first process again. -/
theorem not_givesUp : ∃ k, Reach k ∧ Ready k 0 ∧ k.moqActive = 0 ∧ (k.proc 0).qlev ≤ L3 ∧
    Peer k 0 1 ∧ ¬GivesUp k 0 := by
  have hrun : ((run step pinit [.userinit, .scheduler, .forkAlloc 0, .forkDone 0]).any fun k =>
      decide (Ready k 0 ∧ k.moqActive = 0 ∧ (k.proc 0).qlev ≤ L3 ∧ Peer k 0 1 ∧
        (k.yieldPass 0 []).map Prod.fst = some (some 0))) = true := by
    decide +kernel
  obtain ⟨k, hk, hall⟩ := (Option.any_eq_true _ _).mp hrun
  obtain ⟨hready, hoff, hq, hpeer, hpass⟩ := of_decide_eq_true hall
  refine ⟨k, Reachable.run (fun _ _ _ h => h) (.start rfl) hk, hready, hoff, hq, hpeer, ?_⟩
  intro h
  obtain ⟨d, k', hnext, hne⟩ := h []
  rw [hnext] at hpass
  exact hne (Option.some.inj (Option.some.inj hpass))

end Xv6Projects.Mlfq
