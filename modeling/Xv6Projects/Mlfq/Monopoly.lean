import Xv6Projects.Mlfq.Membership
import Xv6Projects.Mlfq.Moves

/-!
# Who runs in monopoly mode, on one CPU

The scheduler dispatches members of the MoQ only while the mode is on, and a timer interrupt then
preempts nobody.  So the mode belongs to the MoQ as long as whoever turns it on is a member.
-/

namespace Xv6Projects.Mlfq

open Library Kernel

variable {k k' : Kernel} {op : Op}

/-- On one CPU the scheduler runs when no process does. -/
def OneCpu (k : Kernel) : Op → Prop
  | .scheduler => ∀ i, (k.proc i).state ≠ .running
  | _ => True

/-- A step on one CPU. -/
def CpuStep : Kernel → Op → Kernel → Prop := Guarded Step OneCpu

/-- Monopoly mode is turned on by a member of the MoQ. -/
def MemberMonopolizes (k : Kernel) : Op → Prop
  | .monopolize c => (k.proc c).qlev = MoQ
  | _ => True

/-- At most one process runs, and in monopoly mode it is in the MoQ. -/
structure RunInv (k : Kernel) : Prop where
  one : ∀ i j, (k.proc i).state = .running → (k.proc j).state = .running → i = j
  member : k.moqActive ≠ 0 → ∀ i, (k.proc i).state = .running → (k.proc i).qlev = MoQ

/-- Nobody starts to run, who runs on stays in the MoQ, and the mode is not turned on. -/
lemma RunInv.less (h : RunInv k) (hact : k'.moqActive ≠ 0 → k.moqActive ≠ 0)
    (hrun : ∀ i, (k'.proc i).state = .running → (k.proc i).state = .running ∧
      ((k.proc i).qlev = MoQ → (k'.proc i).qlev = MoQ)) : RunInv k' where
  one i j hi hj := h.one i j (hrun i hi).1 (hrun j hj).1
  member hon i hi := (hrun i hi).2 (h.member (hact hon) i (hrun i hi).1)

lemma RunInv.steady (h : RunInv k) (hs : Steady k k') : RunInv k' := by
  refine h.less (fun hon => hs.moqActive ▸ hon) fun i hi => ?_
  exact ⟨(hs.proc i).running hi, fun hq => (hs.proc i).moq hq hi⟩

/-- A slot is given a state in which it does not run. -/
lemma RunInv.setStopped (h : RunInv k) {i : Slot} {p : Proc} (hp : p.state ≠ .running)
    (hact : k'.moqActive = k.moqActive) (hproc : k'.proc = Function.update k.proc i p) :
    RunInv k' := by
  refine h.less (fun hon => hact ▸ hon) fun j hj => ?_
  rw [hproc] at hj ⊢
  by_cases hji : j = i
  · rw [hji, Function.update_self] at hj
    exact absurd hj hp
  · rw [Function.update_of_ne hji] at hj ⊢
    exact ⟨hj, id⟩

/-- One step by which only a member turns the mode on. -/
lemma RunInv.step (h : RunInv k) (hm : Move k op k') (hcpu : OneCpu k op)
    (hmem : MemberMonopolizes k op) : RunInv k' := by
  cases hm with
  | steady _ hs => exact h.steady hs
  | @alloc _ k₁ _ i _ hs _ hs' =>
    refine RunInv.steady ?_ hs'
    exact (h.steady hs).setStopped (i := i) (by simp) rfl (allocSlot_proc k₁ i)
  | @fail _ i _ _ _ hs =>
    refine RunInv.steady ?_ hs
    exact h.setStopped (i := i) (p := { k.proc i with state := .unused }) (by simp) rfl rfl
  | @reap _ i _ _ hs =>
    refine RunInv.steady ?_ hs
    exact h.setStopped (i := i) (p := { k.proc i with
      state := .unused, pid := 0, parent := none, killed := false }) (by simp) rfl rfl
  | @dispatch d _ hd hs =>
    refine RunInv.steady ?_ hs
    cases d with
    | none => exact h
    | some i =>
      -- only the process that is dispatched runs
      have hrun : ∀ j, ((dispatched k (some i)).proc j).state = .running → j = i := by
        intro j hj
        by_contra hji
        rw [dispatched, setProc_proc, Function.update_of_ne hji] at hj
        exact hcpu j hj
      refine ⟨fun j l hj hl => (hrun j hj).trans (hrun l hl).symm, fun hon j hj => ?_⟩
      rw [hrun j hj, dispatched, setProc_proc, Function.update_self]
      exact (hd i rfl).2 hon
  | ends _ hs =>
    have hoff : k'.moqActive = 0 := hs.moqActive
    refine h.less (fun hon => absurd hoff hon) fun i hi => ?_
    exact ⟨(hs.proc i).running hi, fun hq => (hs.proc i).moq hq hi⟩
  | tick _ hs =>
    refine RunInv.steady ?_ hs
    exact h.less id fun i hi => ⟨hi, id⟩
  | @monopolize c hc =>
    refine ⟨h.one, fun _ i hi => ?_⟩
    have hic : i = c := h.one i c hi hc
    rw [hic]
    exact hmem
  | unmonopolize => exact h.less (fun hon => absurd rfl hon) fun i hi => ⟨hi, id⟩

/-- While the mode is on a pass dispatches members of the MoQ only. -/
lemma scheduler_member {d : Slot} (hon : k.moqActive ≠ 0) (h : scheduler k = some (some d, k')) :
    (k'.proc d).InMoQ := by
  have hk : k.locked = false := by
    by_contra hne
    simp [scheduler, acquire, hne] at h
  rw [scheduler_eq hk] at h
  by_cases hsz : k.moqSz = 0
  · rw [schedulerBody_ends (k := k.setLocked true) hon hsz] at h
    exact absurd (Prod.mk.inj (Option.some.inj h)).1 (by simp)
  · obtain ⟨d', hd, hsome, -⟩ := schedulerBody_on (k := k.setLocked true) hon hsz
    rw [hd] at h
    obtain ⟨rfl, rfl⟩ := Prod.mk.inj (Option.some.inj h)
    have hq : (k.proc d).qlev = MoQ := (hsome d rfl).1.2
    have hp : ((dispatched (k.setLocked true) (some d)).setLocked false).proc d =
        { k.proc d with state := .running, chan := .null } := by
      simp [dispatched]
    rw [hp]
    exact ⟨by simp [Proc.Live], hq⟩

/-! ### Every run -/

/-- **Monopoly mode belongs to the MoQ** in every run on one CPU in which members turn it on: the
scheduler dispatches members only, and a timer interrupt in user mode returns to members only. -/
theorem monopoly_of_members (h : Reachable (· = pinit) (Guarded CpuStep MemberMonopolizes) k) :
    (∀ d k', scheduler k = some (some d, k') → k.moqActive ≠ 0 → (k'.proc d).InMoQ) ∧
    ∀ c k', Step k (.tick c true) k' → k'.moqActive ≠ 0 → (k'.proc c).state = .running →
      (k'.proc c).InMoQ := by
  refine ⟨fun d k' hd hon => scheduler_member hon hd, fun c k' hs hon hrun => ?_⟩
  have hinv : ∀ k, Reachable (· = pinit) (Guarded CpuStep MemberMonopolizes) k →
      Forks k ∧ RunInv k := by
    intro k hk
    refine hk.invariant (I := fun k => Forks k ∧ RunInv k) ?_ ?_
    · rintro k rfl
      refine ⟨forks_pinit, ⟨fun i j hi => ?_, fun hon => absurd rfl hon⟩⟩
      exact absurd hi (by simp [pinit, Proc.zero])
    · rintro k op k' ⟨hf, hr⟩ ⟨⟨hs, hcpu⟩, hmem⟩
      exact ⟨(step_effect hf hs).1, hr.step (step_move hf hs) hcpu hmem⟩
  have hk' : Reachable (· = pinit) (Guarded CpuStep MemberMonopolizes) k' :=
    h.next (i := .tick c true) ⟨⟨hs, trivial⟩, trivial⟩
  exact ⟨live_of_running hrun, (hinv k' hk').2.member hon c hrun⟩

instance (k : Kernel) : (op : Op) → Decidable (OneCpu k op ∧ MemberMonopolizes k op)
  | .scheduler => inferInstanceAs (Decidable ((∀ _, _ ≠ _) ∧ True))
  | .monopolize _ => inferInstanceAs (Decidable (True ∧ _ = _))
  | .userinit | .forkAlloc _ | .forkFail _ | .forkDone _ | .exit _ | .wait _ | .kill _ _
  | .sleep _ _ | .wakeup _ | .yield _ | .tick _ _ | .priorityBoost | .setpriority _ _ _
  | .setmonopoly _ _ _ | .unmonopolize _ => isTrue ⟨trivial, trivial⟩

/-- The child of the first process is in the MoQ, turns the mode on and stays on the CPU. -/
theorem monopoly_of_members_child : ∃ k k',
    Reachable (· = pinit) (Guarded CpuStep MemberMonopolizes) k ∧ Step k (.tick 1 true) k' ∧
      k'.moqActive ≠ 0 ∧ (k'.proc 1).state = .running ∧ (k'.proc 1).InMoQ := by
  have hrun : ((run (guardedNext step fun k op => OneCpu k op ∧ MemberMonopolizes k op) pinit
      [.userinit, .scheduler, .forkAlloc 0, .forkDone 0, .setmonopoly 0 2 password,
        .sleep 0 (.addr 1), .scheduler, .monopolize 1]).any fun k =>
      (step k (.tick 1 true)).any fun k' =>
        decide (k'.moqActive ≠ 0 ∧ (k'.proc 1).state = .running)) = true := by
    decide +kernel
  obtain ⟨k, hk, hall⟩ := (Option.any_eq_true _ _).mp hrun
  obtain ⟨k', hs, hend⟩ := (Option.any_eq_true _ _).mp hall
  obtain ⟨hon, hc⟩ := of_decide_eq_true hend
  have hnext : ∀ s i s', guardedNext step (fun k op => OneCpu k op ∧ MemberMonopolizes k op) s i =
      some s' → Guarded CpuStep MemberMonopolizes s i s' := fun s i s' h =>
    ⟨⟨(guardedNext_eq_some.mp h).1, (guardedNext_eq_some.mp h).2.1⟩,
      (guardedNext_eq_some.mp h).2.2⟩
  have hreach : Reachable (· = pinit) (Guarded CpuStep MemberMonopolizes) k :=
    Reachable.run hnext (.start rfl) hk
  exact ⟨k, k', hreach, hs, hon, hc, (monopoly_of_members hreach).2 1 k' hs hon hc⟩

instance (k : Kernel) : (op : Op) → Decidable (OneCpu k op)
  | .scheduler => inferInstanceAs (Decidable (∀ _, _ ≠ _))
  | .userinit | .forkAlloc _ | .forkFail _ | .forkDone _ | .exit _ | .wait _ | .kill _ _
  | .sleep _ _ | .wakeup _ | .yield _ | .tick _ _ | .priorityBoost | .setpriority _ _ _
  | .setmonopoly _ _ _ | .monopolize _ | .unmonopolize _ => isTrue trivial

/-- The first process, in `L0`, turns the mode on for its child: the ticks return to it. -/
theorem not_monopoly_of_members : ∃ k k', Reachable (· = pinit) CpuStep k ∧
    Step k (.tick 0 true) k' ∧ k'.moqActive ≠ 0 ∧ (k'.proc 0).state = .running ∧
      (k'.proc 1).InMoQ ∧ ¬(k'.proc 0).InMoQ := by
  have hrun : ((run (guardedNext step OneCpu) pinit
      ([.userinit, .scheduler, .forkAlloc 0, .forkDone 0, .setmonopoly 0 2 password,
        .monopolize 0] ++ List.replicate 10 (.tick 0 true))).any fun k =>
      (step k (.tick 0 true)).any fun k' =>
        decide (k'.moqActive ≠ 0 ∧ (k'.proc 0).state = .running ∧ (k'.proc 1).InMoQ ∧
          ¬(k'.proc 0).InMoQ)) = true := by
    decide +kernel
  obtain ⟨k, hk, hall⟩ := (Option.any_eq_true _ _).mp hrun
  obtain ⟨k', hs, hend⟩ := (Option.any_eq_true _ _).mp hall
  obtain ⟨hon, hc, hin, hout⟩ := of_decide_eq_true hend
  have hnext : ∀ s i s', guardedNext step OneCpu s i = some s' → CpuStep s i s' :=
    fun _ _ _ h => guardedNext_eq_some.mp h
  exact ⟨k, k', Reachable.run hnext (.start rfl) hk, hs, hon, hc, hin, hout⟩

end Xv6Projects.Mlfq
