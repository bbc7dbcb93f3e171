import Xv6Projects.Mlfq.Moves

/-!
# Boosting outside monopoly mode

While monopoly mode is off `global_tick` counts the ticks since the last boost, and it is below
one hundred between two ticks.  Only the call of `unmonopolize` sets it back without a boost.
-/

namespace Xv6Projects.Mlfq

open Library Kernel

variable {k k' : Kernel} {op : Op}

/-! ### The counter of ticks -/

/-- What a move does to the mode and to the counter of ticks. -/
inductive ModeChange (k : Kernel) : Op → Kernel → Prop
  | keep {op : Op} {k' : Kernel} : ¬Counts k op → k'.moqActive = k.moqActive →
      k'.globalTick = k.globalTick → ModeChange k op k'
  | count {op : Op} {k' : Kernel} : Counts k op → k'.moqActive = k.moqActive →
      k'.globalTick = tickAfter k → ModeChange k op k'
  | ends {k' : Kernel} : k.moqActive ≠ 0 → k'.moqActive = 0 → k'.globalTick = 0 →
      ModeChange k .scheduler k'
  | monopolize {c : Slot} {k' : Kernel} : k'.moqActive = 1 → ModeChange k (.monopolize c) k'
  | unmonopolize {c : Slot} {k' : Kernel} : k'.moqActive = 0 → k'.globalTick = 0 →
      ModeChange k (.unmonopolize c) k'

lemma not_counts_of_allocates (h : Allocates op) : ¬Counts k op := by
  cases op <;> first | exact h.elim | exact id

lemma Move.mode (h : Move k op k') : ModeChange k op k' := by
  cases h with
  | steady hn hs => exact .keep hn hs.moqActive hs.globalTick
  | alloc ha hs _ hs' =>
    exact .keep (not_counts_of_allocates ha) (hs'.moqActive.trans hs.moqActive)
      (hs'.globalTick.trans hs.globalTick)
  | fail _ _ hs => exact .keep id hs.moqActive hs.globalTick
  | reap _ hs => exact .keep id hs.moqActive hs.globalTick
  | @dispatch d _ _ hs =>
    have hd : (dispatched k d).moqActive = k.moqActive ∧
        (dispatched k d).globalTick = k.globalTick := by
      cases d <;> exact ⟨rfl, rfl⟩
    exact .keep id (hs.moqActive.trans hd.1) (hs.globalTick.trans hd.2)
  | ends hon hs => exact .ends hon hs.moqActive hs.globalTick
  | tick hc hs => exact .count hc hs.moqActive hs.globalTick
  | monopolize _ => exact .monopolize rfl
  | unmonopolize => exact .unmonopolize rfl rfl

/-- Outside monopoly mode the next boost is at most a hundred ticks away. -/
def TickInv (k : Kernel) : Prop := k.moqActive = 0 → k.globalTick < 100

lemma tickAfter_lt (hoff : k.moqActive = 0) : tickAfter k < 100 := by
  rw [tickAfter]
  split_ifs with h
  · norm_num
  · exact not_le.mp fun hge => h ⟨hoff, hge⟩

lemma TickInv.mode (h : TickInv k) (hm : ModeChange k op k') : TickInv k' := by
  intro hoff
  cases hm with
  | keep _ ha ht =>
    rw [ht]
    exact h (ha ▸ hoff)
  | count _ ha ht =>
    rw [ht]
    exact tickAfter_lt (ha ▸ hoff)
  | ends _ _ ht | unmonopolize _ ht =>
    rw [ht]
    norm_num
  | monopolize ha =>
    rw [ha] at hoff
    exact absurd hoff one_ne_zero

lemma tickInv_of_reach (h : Reach k) : Forks k ∧ TickInv k := by
  refine Reachable.invariant (I := fun k => Forks k ∧ TickInv k) ?_ ?_ h
  · rintro k rfl
    exact ⟨forks_pinit, fun _ => by decide⟩
  · rintro k op k' ⟨hf, ht⟩ hs
    exact ⟨(step_effect hf hs).1, ht.mode (step_move hf hs).mode⟩

/-! ### Stretches outside monopoly mode -/

/-- The number of timer interrupts of an operation. -/
def Op.ticks : Op → ℕ
  | .tick _ _ => 1
  | _ => 0

instance (k : Kernel) : (op : Op) → Decidable (Boosts k op)
  | .priorityBoost => isTrue trivial
  | .tick _ _ => inferInstanceAs (Decidable (_ ∧ _ ∧ _))
  | .userinit | .scheduler | .forkAlloc _ | .forkFail _ | .forkDone _ | .exit _ | .wait _
  | .kill _ _ | .sleep _ _ | .wakeup _ | .yield _ | .setpriority _ _ _ | .setmonopoly _ _ _
  | .monopolize _ | .unmonopolize _ => isFalse id

/-- A stretch of a run with monopoly mode off all the time: the state it has come to, the timer
interrupts that have found a process running, and the boosts. -/
structure Stretch where
  kernel : Kernel
  ticks : ℕ
  boosts : ℕ

/-- The stretch goes on. -/
def Stretch.next (w : Stretch) (op : Op) : Option Stretch :=
  (step w.kernel op).bind fun k =>
    if k.moqActive = 0 then
      some ⟨k, w.ticks + op.ticks, w.boosts + if Boosts w.kernel op then 1 else 0⟩
    else none

/-- The stretch goes on with the operation. -/
def StretchStep (w : Stretch) (op : Op) (w' : Stretch) : Prop := w.next op = some w'

/-- Nobody calls `unmonopolize` while the mode is off, and no interrupt finds a killed process in
user mode, which `trap` sends to `exit` before it counts. -/
def BoostKept (w : Stretch) : Op → Prop
  | .unmonopolize _ => w.kernel.moqActive ≠ 0
  | .tick c user => ¬((w.kernel.proc c).killed ∧ user)
  | _ => True

lemma stretchStep_iff {w w' : Stretch} : StretchStep w op w' ↔
    Step w.kernel op w'.kernel ∧ w'.kernel.moqActive = 0 ∧ w'.ticks = w.ticks + op.ticks ∧
      w'.boosts = w.boosts + if Boosts w.kernel op then 1 else 0 := by
  rw [StretchStep, Stretch.next, Step, Option.bind_eq_some_iff]
  constructor
  · rintro ⟨k, hk, h⟩
    by_cases hoff : k.moqActive = 0
    · rw [if_pos hoff] at h
      obtain rfl := Option.some.inj h
      exact ⟨hk, hoff, rfl, rfl⟩
    · rw [if_neg hoff] at h
      exact absurd h (by simp)
  · rintro ⟨hk, hoff, ht, hb⟩
    refine ⟨_, hk, ?_⟩
    rw [if_pos hoff, ← ht, ← hb]

/-- What holds of a stretch that starts with mode off in state `k`: without a boost every timer
interrupt has been counted. -/
structure StretchInv (k : Kernel) (w : Stretch) : Prop where
  forks : Forks w.kernel
  off : w.kernel.moqActive = 0
  tick : TickInv w.kernel
  counted : w.boosts = 0 → w.kernel.globalTick = k.globalTick + w.ticks

lemma StretchInv.step {w w' : Stretch} (h : StretchInv k w) (hs : StretchStep w op w')
    (hkept : BoostKept w op) : StretchInv k w' := by
  obtain ⟨hk, hoff, ht, hb⟩ := stretchStep_iff.mp hs
  have hmode := (step_move h.forks hk).mode
  refine ⟨(step_effect h.forks hk).1, hoff, h.tick.mode hmode, fun hz => ?_⟩
  have hzero : w.boosts = 0 ∧ ¬Boosts w.kernel op := by
    rw [hb] at hz
    by_cases hboost : Boosts w.kernel op
    · rw [if_pos hboost] at hz
      omega
    · exact ⟨by omega, hboost⟩
  have hcount := h.counted hzero.1
  cases hmode with
  | keep hn _ hg =>
    -- an operation that is not counted is no timer interrupt
    have hop : op.ticks = 0 := by
      cases op with
      | tick c user => exact absurd hkept hn
      | _ => rfl
    rw [hg, ht, hop, hcount, Nat.add_zero]
  | count hc _ hg =>
    cases op with
    | tick c user =>
      have hlt := h.tick h.off
      have hno : ¬100 ≤ (w.kernel.globalTick + 1) % 4294967296 := fun hge =>
        hzero.2 ⟨hc, h.off, hge⟩
      rw [hg, ht, tickAfter, if_neg fun h => hno h.2, Op.ticks]
      omega
    | _ => exact hc.elim
  | ends hon _ _ => exact absurd h.off hon
  | monopolize ha =>
    rw [hoff] at ha
    exact absurd ha.symm one_ne_zero
  | unmonopolize _ _ => exact absurd h.off hkept

/-! ### What a boost leaves behind -/

/-- The ticks of slot `i` when `priority_boost` starts: a timer interrupt has counted the one that
it boosts at. -/
def tickBefore (k : Kernel) (op : Op) (i : Slot) : ℤ :=
  match op with
  | .tick c _ => if i = c then int32 ((k.proc i).tick + 1) else (k.proc i).tick
  | _ => (k.proc i).tick

/-- Right after a boost every live process outside the MoQ is in `L0` with no ticks, and the
members of the MoQ are as they were. -/
def Boosted (k : Kernel) (op : Op) (k' : Kernel) : Prop :=
  ∀ i, ((k'.proc i).Live → (k'.proc i).qlev ≠ MoQ → (k'.proc i).qlev = L0 ∧ (k'.proc i).tick = 0) ∧
    ((k.proc i).qlev = MoQ → (k'.proc i).qlev = MoQ ∧ (k'.proc i).seq = (k.proc i).seq ∧
      (k'.proc i).tick = tickBefore k op i)

/-- `priority_boost` on a table whose entries have the levels, tickets and ticks of `k`. -/
lemma boosted_of_boost {m : Kernel} (hk' : k'.proc = (boost m).proc)
    (hm : ∀ i, (m.proc i).qlev = (k.proc i).qlev ∧ (m.proc i).seq = (k.proc i).seq ∧
      (m.proc i).tick = tickBefore k op i) : Boosted k op k' := by
  intro i
  obtain ⟨hq, hs, ht⟩ := hm i
  rw [hk', boost_proc]
  by_cases hmoq : (m.proc i).qlev = MoQ
  · rw [if_pos hmoq]
    exact ⟨fun _ hne => absurd hmoq hne, fun _ => ⟨hmoq, hs, ht⟩⟩
  · rw [if_neg hmoq]
    exact ⟨fun _ _ => ⟨rfl, rfl⟩, fun h => absurd (hq.trans h) hmoq⟩

lemma wakeup1_share (k : Kernel) (chan : Chan) (i : Slot) :
    ((wakeup1 k chan).proc i).qlev = (k.proc i).qlev ∧
      ((wakeup1 k chan).proc i).seq = (k.proc i).seq ∧
      ((wakeup1 k chan).proc i).tick = (k.proc i).tick := by
  rw [wakeup1, mapProc_proc]
  split_ifs
  · exact ⟨rfl, rfl, rfl⟩
  · exact ⟨rfl, rfl, rfl⟩

lemma timerTrap_boosted {c : Slot} {user : Bool} (hc : (k.proc c).state = .running)
    (hb : Boosts k (.tick c user)) (h : timerTrap k c user = some k') :
    Boosted k (.tick c user) k' := by
  obtain ⟨hkill, hoff, hge⟩ := hb
  obtain ⟨kw, hw, h⟩ := Option.bind_eq_some_iff.mp h
  obtain ⟨-, rfl⟩ := withLock_eq_some.mp hw
  obtain ⟨kw, hkw⟩ : ∃ kw, kw = (wakeup1 (k.setLocked true) .ticks).setLocked false := ⟨_, rfl⟩
  have hshare : ∀ i, (kw.proc i).qlev = (k.proc i).qlev ∧ (kw.proc i).seq = (k.proc i).seq ∧
      (kw.proc i).tick = (k.proc i).tick := by
    rw [hkw]
    exact fun i => wakeup1_share _ _ i
  have hcw : kw.proc c = k.proc c := by simp [hkw, wakeup1, hc]
  have hact : (countTick kw c).moqActive = 0 := by rw [hkw]; exact hoff
  have htick : 100 ≤ (countTick kw c).globalTick := by rw [hkw]; exact hge
  rw [← hkw, hcw, if_neg hkill, if_pos hc] at h
  dsimp only at h
  rw [if_neg (not_not.mpr hact), boostTick, if_pos htick] at h
  obtain ⟨kb, hb, h⟩ := Option.bind_eq_some_iff.mp h
  obtain ⟨-, rfl⟩ := withLock_eq_some.mp hb
  -- nobody is at the end of a time slice
  rw [if_neg fun hover => not_sliceOver_boost _ c hover.1 hover.2] at h
  obtain rfl := Option.some.inj h
  refine boosted_of_boost (m := ((countTick kw c).setGlobalTick 0).setLocked true) rfl fun i => ?_
  obtain ⟨hq, hs, ht⟩ := hshare i
  show ((countTick kw c).proc i).qlev = _ ∧ ((countTick kw c).proc i).seq = _ ∧
    ((countTick kw c).proc i).tick = if i = c then _ else _
  by_cases hic : i = c
  · subst hic
    simp [countTick, hq, hs, ht]
  · simp [countTick, hic, hq, hs, ht]

lemma boosted_of_boosts (hb : Boosts k op) (h : Step k op k') : Boosted k op k' := by
  simp only [Step] at h
  cases op with
  | priorityBoost =>
    obtain ⟨-, rfl⟩ := withLock_eq_some.mp h
    exact boosted_of_boost (m := k.setLocked true) rfl fun i => ⟨rfl, rfl, rfl⟩
  | tick c user =>
    simp only [step] at h
    split_ifs at h with hc
    exact timerTrap_boosted hc.1 hb h
  | _ => exact hb.elim

/-! ### Every run -/

/-- **Boosting cannot be put off**, unless `unmonopolize` is called while the mode is off.  From
any reachable state on, a hundred timer interrupts with monopoly mode off include a boost; and
right after a boost the processes outside the MoQ start again. -/
theorem boost_within_hundred (k : Kernel) :
    (Reach k → k.moqActive = 0 →
      ∀ w, Reachable (· = ⟨k, 0, 0⟩) (Guarded StretchStep BoostKept) w → 100 ≤ w.ticks →
        0 < w.boosts) ∧
    ∀ op k', Boosts k op → Step k op k' → Boosted k op k' := by
  refine ⟨fun hk hoff w hw hticks => ?_, fun op k' hb hs => boosted_of_boosts hb hs⟩
  obtain ⟨hf, ht⟩ := tickInv_of_reach hk
  have hinv : StretchInv k w := by
    refine hw.invariant (I := fun w => StretchInv k w) ?_ fun w op w' h hs => h.step hs.1 hs.2
    rintro w rfl
    exact ⟨hf, hoff, ht, fun _ => rfl⟩
  by_contra hzero
  have hcount := hinv.counted (by omega)
  have hlt := hinv.tick hinv.off
  omega

instance (w : Stretch) : (op : Op) → Decidable (BoostKept w op)
  | .unmonopolize _ => inferInstanceAs (Decidable (_ ≠ _))
  | .tick _ _ => inferInstanceAs (Decidable (¬_))
  | .userinit | .scheduler | .forkAlloc _ | .forkFail _ | .forkDone _ | .exit _ | .wait _
  | .kill _ _ | .sleep _ _ | .wakeup _ | .yield _ | .priorityBoost | .setpriority _ _ _
  | .setmonopoly _ _ _ | .monopolize _ => isTrue trivial

/-- The child of the first process runs in the MoQ, with the mode off. -/
def memberOps : List Op :=
  [.userinit, .scheduler, .forkAlloc 0, .forkDone 0, .setmonopoly 0 2 password,
    .sleep 0 (.addr 1), .scheduler]

theorem boost_within_hundred_member : ∃ k w, Reach k ∧ k.moqActive = 0 ∧
    Reachable (· = ⟨k, 0, 0⟩) (Guarded StretchStep BoostKept) w ∧ w.ticks = 100 ∧
      0 < w.boosts := by
  have hrun : ((run step pinit memberOps).any fun k => decide (k.moqActive = 0) &&
      (run (guardedNext Stretch.next BoostKept) ⟨k, 0, 0⟩ (List.replicate 100 (.tick 1 true))).any
        fun w => decide (w.ticks = 100)) = true := by
    decide +kernel
  obtain ⟨k, hk, hall⟩ := (Option.any_eq_true _ _).mp hrun
  obtain ⟨hoff, hw⟩ := Bool.and_eq_true_iff.mp hall
  obtain ⟨w, hw, hticks⟩ := (Option.any_eq_true _ _).mp hw
  have hoff : k.moqActive = 0 := of_decide_eq_true hoff
  have hticks : w.ticks = 100 := of_decide_eq_true hticks
  have hreach : Reach k := Reachable.run (fun _ _ _ h => h) (.start rfl) hk
  have hnext : ∀ s i s', guardedNext Stretch.next BoostKept s i = some s' →
      Guarded StretchStep BoostKept s i s' := fun _ _ _ h => guardedNext_eq_some.mp h
  have hstretch : Reachable (· = ⟨k, 0, 0⟩) (Guarded StretchStep BoostKept) w :=
    Reachable.run hnext (.start rfl) hw
  exact ⟨k, w, hreach, hoff, hstretch, hticks,
    (boost_within_hundred k).1 hreach hoff w hstretch hticks.ge⟩

/-- The child calls `unmonopolize` after fifty ticks, and there is no boost in a hundred. -/
theorem not_boost_within_hundred : ∃ k w, Reach k ∧ k.moqActive = 0 ∧
    Reachable (· = ⟨k, 0, 0⟩) StretchStep w ∧ w.ticks = 100 ∧ w.boosts = 0 := by
  have hrun : ((run step pinit memberOps).any fun k => decide (k.moqActive = 0) &&
      (run Stretch.next ⟨k, 0, 0⟩ (List.replicate 50 (.tick 1 true) ++ [.unmonopolize 1] ++
        List.replicate 50 (.tick 1 true))).any
          fun w => decide (w.ticks = 100 ∧ w.boosts = 0)) = true := by
    decide +kernel
  obtain ⟨k, hk, hall⟩ := (Option.any_eq_true _ _).mp hrun
  obtain ⟨hoff, hw⟩ := Bool.and_eq_true_iff.mp hall
  obtain ⟨w, hw, hend⟩ := (Option.any_eq_true _ _).mp hw
  have hreach : Reach k := Reachable.run (fun _ _ _ h => h) (.start rfl) hk
  have hstretch : Reachable (· = ⟨k, 0, 0⟩) StretchStep w :=
    Reachable.run (fun _ _ _ h => h) (.start rfl) hw
  exact ⟨k, w, hreach, of_decide_eq_true hoff, hstretch, of_decide_eq_true hend⟩

end Xv6Projects.Mlfq
