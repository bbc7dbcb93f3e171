import Mathlib.Tactic
import Xv6Projects.Mlfq.Effect

/-!
# The number of members of the MoQ

`ptable.MoQ_sz` is to be the number of live processes in the MoQ.  It is, as long as
`setmonopoly` marks live processes only and no `fork` fails on an embryo that was moved to
the MoQ in the meantime.
-/

namespace Xv6Projects.Mlfq

open Library Kernel

variable {k k' : Kernel}

/-- A live process in the MoQ. -/
def Proc.InMoQ (p : Proc) : Prop := p.Live ∧ p.qlev = MoQ

instance (p : Proc) : Decidable p.InMoQ := inferInstanceAs (Decidable (_ ∧ _))

/-- The members of the MoQ. -/
def members (k : Kernel) : Finset Slot := Finset.univ.filter fun i => (k.proc i).InMoQ

@[simp] lemma mem_members {i : Slot} : i ∈ members k ↔ (k.proc i).InMoQ := by
  simp [members]

lemma card_members_le (k : Kernel) : (members k).card ≤ 64 := by
  have h := Finset.card_le_univ (members k)
  simpa [NPROC] using h

/-- `MoQ_sz` is the number of members. -/
def Counted (k : Kernel) : Prop := k.moqSz = (members k).card

/-- Neither the members nor their counter change. -/
lemma Counted.of_inMoQ_iff (h : Counted k) (hsz : k'.moqSz = k.moqSz)
    (hm : ∀ i, (k'.proc i).InMoQ ↔ (k.proc i).InMoQ) : Counted k' := by
  have heq : members k' = members k := by
    ext i
    simp [hm]
  rw [Counted, hsz, heq]
  exact h

lemma Counted.quiet (h : Counted k) (hq : Quiet k k') : Counted k' :=
  h.of_inMoQ_iff hq.moqSz fun i => and_congr (hq.live i) (by rw [hq.qlev i])

/-- One process outside the MoQ changes and stays outside. -/
lemma Counted.outside (h : Counted k) {i : Slot} (hsz : k'.moqSz = k.moqSz)
    (hi : ¬(k.proc i).InMoQ) (hi' : ¬(k'.proc i).InMoQ)
    (hother : ∀ j, j ≠ i → k'.proc j = k.proc j) : Counted k' := by
  refine h.of_inMoQ_iff hsz fun j => ?_
  by_cases hj : j = i
  · subst hj
    exact iff_of_false hi' hi
  · rw [hother j hj]

lemma int32_of_bounds {x : ℤ} (h₁ : -2147483648 ≤ x) (h₂ : x < 2147483648) : int32 x = x := by
  unfold int32
  omega

/-! ### The effects, one by one -/

lemma Counted.alloc (h : Counted k) {i : Slot} (hi : (k.proc i).state = .unused) :
    Counted (allocSlot k i) := by
  refine h.outside (i := i) rfl ?_ ?_ fun j hj => ?_
  · simp [Proc.InMoQ, Proc.Live, hi]
  · simp [Proc.InMoQ, L0, MoQ]
  · simp [Function.update_of_ne hj]

lemma Counted.fail (h : Counted k) {i : Slot} (hq : (k.proc i).qlev ≠ MoQ) :
    Counted (allocFail k i) := by
  refine h.outside (i := i) rfl ?_ ?_ fun j hj => ?_
  · exact fun hm => hq hm.2
  · simp [allocFail, Proc.InMoQ, Proc.Live]
  · simp [allocFail, Function.update_of_ne hj]

lemma exitSlot_proc (k : Kernel) (c : Slot) : (exitSlot k c).proc = Function.update k.proc c
    { k.proc c with
      state := .zombie, qlev := noQueue, seq := -1, tick := -1, priority := -1 } := rfl

lemma exitSlot_moqSz (k : Kernel) (c : Slot) : (exitSlot k c).moqSz =
    if (k.proc c).qlev = MoQ then int32 (k.moqSz - 1) else k.moqSz := rfl

lemma Counted.exit (h : Counted k) {c : Slot} (hc : (k.proc c).state = .running) :
    Counted (exitSlot k c) := by
  have hout : ¬((exitSlot k c).proc c).InMoQ := by
    simp [exitSlot_proc, Proc.InMoQ, Proc.Live]
  have hother : ∀ j, j ≠ c → (exitSlot k c).proc j = k.proc j := by
    intro j hj
    rw [exitSlot_proc, Function.update_of_ne hj]
  by_cases hq : (k.proc c).qlev = MoQ
  · have hmem : c ∈ members k := mem_members.mpr ⟨live_of_running hc, hq⟩
    have herase : members (exitSlot k c) = (members k).erase c := by
      ext j
      by_cases hj : j = c
      · subst hj
        simpa using hout
      · simp [hother j hj, hj]
    have hcard := Finset.card_erase_add_one hmem
    have hle := card_members_le k
    have hsz : k.moqSz = (members k).card := h
    rw [Counted, herase, exitSlot_moqSz, if_pos hq, int32_of_bounds] <;> omega
  · refine h.outside (i := c) ?_ (fun hm => hq hm.2) hout hother
    rw [exitSlot_moqSz, if_neg hq]

lemma Counted.boost (h : Counted k) : Counted (Kernel.boost k) := by
  refine h.of_inMoQ_iff rfl fun i => ?_
  rw [boost_proc]
  split_ifs with hq
  · rfl
  · exact iff_of_false (by simp [Proc.InMoQ, L0, MoQ]) fun hm => hq hm.2

lemma incLevCnt_proc (k : Kernel) (q : ℤ) : (incLevCnt k q).proc = k.proc := by
  unfold incLevCnt
  split_ifs <;> rfl

lemma incLevCnt_moqSz (k : Kernel) (q : ℤ) : (incLevCnt k q).moqSz = k.moqSz := by
  unfold incLevCnt
  split_ifs <;> rfl

lemma Counted.demote (h : Counted k) {c : Slot} (hq : (k.proc c).qlev ≠ MoQ) :
    Counted (Kernel.demote k c) := by
  have hset : ∀ p : Proc, p.qlev ≠ MoQ → Counted (k.setProc c p) := by
    intro p hp
    refine h.outside (i := c) rfl (fun hm => hq hm.2) ?_ fun j hj => ?_
    · simp [Proc.InMoQ, hp]
    · simp [Function.update_of_ne hj]
  have hinc : ∀ {k : Kernel} {q : ℤ}, Counted k → Counted (incLevCnt k q) := by
    intro k q hk
    exact hk.of_inMoQ_iff (incLevCnt_moqSz k q) fun i => by rw [incLevCnt_proc]
  unfold Kernel.demote
  dsimp only
  split_ifs
  · exact hinc (hset _ (by simp [L1, MoQ]))
  · exact hinc (hset _ (by simp [L2, MoQ]))
  · exact hinc (hset _ (by simp [L3, MoQ]))
  · exact hset _ hq
  · exact hset _ hq
  · exact h

lemma Counted.monopolySlot (h : Counted k) {i : Slot} (hlive : (k.proc i).Live)
    (hq : (k.proc i).qlev ≠ MoQ) : Counted (Kernel.monopolySlot k i) := by
  have hproc : (Kernel.monopolySlot k i).proc =
      Function.update k.proc i { k.proc i with qlev := MoQ, seq := k.moqCnt } := rfl
  have hmem : i ∉ members k := fun hm => hq (mem_members.mp hm).2
  have hinsert : members (Kernel.monopolySlot k i) = insert i (members k) := by
    ext j
    by_cases hj : j = i
    · subst hj
      simpa [hproc, Proc.InMoQ, Proc.Live] using hlive
    · simp [hproc, hj]
  have hcard := Finset.card_insert_of_notMem hmem
  have hle := card_members_le k
  have hsz : k.moqSz = (members k).card := h
  have hsz' : (Kernel.monopolySlot k i).moqSz = int32 (k.moqSz + 1) := rfl
  rw [Counted, hinsert, hsz', int32_of_bounds] <;> omega

/-- The loop of `setmonopoly` marks live processes only: a dead slot with the pid comes
after a member of the MoQ with the pid, where the loop ends. -/
def MarksLive (k : Kernel) (pid : ℤ) (l : List Slot) : Prop :=
  ∀ i ∈ l, (k.proc i).pid = pid → (k.proc i).Live ∨
    ∃ j ∈ l, j ≤ i ∧ (k.proc j).pid = pid ∧ (k.proc j).qlev = MoQ

instance (k : Kernel) (pid : ℤ) (l : List Slot) : Decidable (MarksLive k pid l) :=
  inferInstanceAs (Decidable (∀ i ∈ l, _))

/-- The loop goes past slot `i`, which is not in the MoQ or has another pid. -/
lemma MarksLive.tail {pid : ℤ} {i : Slot} {l : List Slot} (h : MarksLive k pid (i :: l))
    (hi : (k.proc i).pid = pid → (k.proc i).qlev ≠ MoQ)
    (hk : ∀ j ∈ l, (k'.proc j).pid = (k.proc j).pid ∧ (k'.proc j).qlev = (k.proc j).qlev ∧
      ((k.proc j).Live → (k'.proc j).Live)) : MarksLive k' pid l := by
  intro j hj hpid
  obtain ⟨hp, hq, hl⟩ := hk j hj
  rcases h j (List.mem_cons_of_mem _ hj) (hp.symm.trans hpid) with hlive | ⟨m, hm, hmj, hpm, hqm⟩
  · exact Or.inl (hl hlive)
  · rcases List.mem_cons.mp hm with rfl | hm
    · exact absurd hqm (hi hpm)
    · refine Or.inr ⟨m, hm, hmj, (hk m hm).1.trans hpm, (hk m hm).2.1.trans hqm⟩

lemma Counted.setmonopolyLoop {c : Slot} {pid : ℤ} (l : List Slot) (hl : l.Pairwise (· < ·)) :
    ∀ (found : Bool) (k k' : Kernel) (r : ℤ ⊕ Bool), Counted k →
      ((k.proc c).pid ≠ pid → MarksLive k pid l) →
      setmonopolyLoop c pid l found k = (r, k') → Counted k' := by
  induction l with
  | nil =>
    intro found k k' r hk hm h
    obtain ⟨-, rfl⟩ := Prod.mk.inj h
    exact hk
  | cons i l ih =>
    intro found k k' r hk hm h
    obtain ⟨hil, hl'⟩ := List.pairwise_cons.mp hl
    rw [Kernel.setmonopolyLoop] at h
    split_ifs at h with hpid hq hself
    · obtain ⟨-, rfl⟩ := Prod.mk.inj h
      exact hk
    · obtain ⟨-, rfl⟩ := Prod.mk.inj h
      exact hk
    · -- slot `i` is marked
      have hm' : MarksLive k pid (i :: l) := hm fun hc => hself (hc.trans hpid.symm)
      have hlive : (k.proc i).Live := by
        rcases hm' i (by simp) hpid with hlive | ⟨j, hj, hji, -, hqj⟩
        · exact hlive
        · rcases List.mem_cons.mp hj with rfl | hj
          · exact absurd hqj hq
          · exact absurd (hil j hj) (not_lt.mpr hji)
      refine ih hl' true _ k' r (hk.monopolySlot hlive hq) (fun _ => ?_) h
      refine hm'.tail (fun _ => hq) fun j hj => ?_
      have hne : j ≠ i := (hil j hj).ne'
      simp [Kernel.monopolySlot, Function.update_of_ne hne]
    · exact ih hl' found k k' r hk
        (fun hc => (hm hc).tail (fun hp => absurd hp hpid) fun j _ => ⟨rfl, rfl, id⟩) h

/-! ### Runs -/

/-- The condition on a step: `setmonopoly` marks live processes only, and a `fork` fails
only on an embryo outside the MoQ. -/
def MoqSafe (k : Kernel) : Op → Prop
  | .setmonopoly c pid pw => pw = password → (k.proc c).pid ≠ pid → MarksLive k pid slots
  | .forkFail c => ∀ i, (k.proc c).np = some i → (k.proc i).qlev ≠ MoQ
  | _ => True

instance (k : Kernel) (op : Op) : Decidable (MoqSafe k op) :=
  match op with
  | .setmonopoly _ _ _ => inferInstanceAs (Decidable (_ → _ → _))
  | .forkFail _ => inferInstanceAs (Decidable (∀ _, _ → _))
  | .userinit | .scheduler | .forkAlloc _ | .forkDone _ | .exit _ | .wait _ | .kill _ _
  | .sleep _ _ | .wakeup _ | .yield _ | .tick _ _ | .priorityBoost | .setpriority _ _ _
  | .monopolize _ | .unmonopolize _ => inferInstanceAs (Decidable True)

lemma Counted.step {op : Op} (h : Counted k) (hf : Forks k) (hs : Step k op k')
    (hsafe : MoqSafe k op) : Counted k' := by
  obtain ⟨-, he⟩ := step_effect hf hs
  cases he with
  | quiet hq => exact h.quiet hq
  | alloc _ hq hi hq' => exact ((h.quiet hq).alloc hi).quiet hq'
  | fail hc hi hq => exact (h.fail (hsafe _ hc)).quiet hq
  | exit hq hc hq' => exact ((h.quiet hq).exit hc).quiet hq'
  | boost _ hq hq' => exact (h.quiet hq).boost.quiet hq'
  | demote hq _ hm hq' => exact ((h.quiet hq).demote hm).quiet hq'
  | monopoly hq hpid hloop hq' =>
    rename_i k₁ k₂
    refine Counted.quiet (Counted.setmonopolyLoop slots slots_pairwise false k₁ k₂ _ (h.quiet hq)
      (fun hc i hi hp => ?_) hloop) hq'
    rcases hsafe rfl (by rwa [hpid] at hc) i hi (by rwa [hpid] at hp) with hl | ⟨j, hj, hji, hp, hm⟩
    · exact Or.inl ((hq.live i).mpr hl)
    · exact Or.inr ⟨j, hj, hji, (hpid j).trans hp, (hq.qlev j).trans hm⟩

/-- The states reached by steps that meet the condition. -/
def MoqReach : Kernel → Prop := Reachable (· = pinit) (Guarded Step MoqSafe)

lemma MoqReach.counted (h : MoqReach k) : Forks k ∧ Counted k := by
  refine h.invariant (I := fun k => Forks k ∧ Counted k) ?_ ?_
  · rintro k rfl
    have hm : members pinit = ∅ := by
      ext i
      simp [Kernel.pinit, Proc.zero, Proc.InMoQ, Proc.Live]
    exact ⟨forks_pinit, by rw [Counted, hm]; rfl⟩
  · rintro k op k' ⟨hf, hk⟩ ⟨hs, hsafe⟩
    exact ⟨(step_effect hf hs).1, hk.step hf hs hsafe⟩

/-- With an empty MoQ a pass in monopoly mode ends the mode, and the pass after it
dispatches a process if one is runnable. -/
lemma scheduler_after_monopoly (hon : k.moqActive ≠ 0) (hsz : k.moqSz = 0) {d : Option Slot}
    (h : scheduler k = some (d, k')) :
    d = none ∧ k'.moqActive = 0 ∧ k'.globalTick = 0 ∧
      ((∃ i, (k.proc i).state = .runnable) → ∃ i k'', scheduler k' = some (some i, k'')) := by
  have hk : k.locked = false := by
    by_contra hne
    simp [scheduler, acquire, hne] at h
  rw [scheduler_eq hk, schedulerBody_ends (k := k.setLocked true) hon hsz] at h
  obtain ⟨rfl, rfl⟩ := Prod.mk.inj (Option.some.inj h)
  refine ⟨rfl, rfl, rfl, ?_⟩
  rintro ⟨i₀, hi₀⟩
  obtain ⟨d, hd, -, hnone⟩ :=
    schedulerBody_off (k := (unmonopolize (k.setLocked true)).setLocked true) rfl
  cases d with
  | none => exact absurd hi₀ (hnone rfl i₀)
  | some i =>
    have hs := scheduler_eq (k := (unmonopolize (k.setLocked true)).setLocked false) rfl
    have hfst : (schedulerBody (((unmonopolize (k.setLocked true)).setLocked false).setLocked
        true)).1 = some i := congrArg Prod.fst hd
    rw [hfst] at hs
    exact ⟨i, _, hs⟩

/-- **`MoQ_sz` is the number of live processes in the MoQ**, in every run that meets the
condition.  So without a live member the next pass of the scheduler ends monopoly mode, and
the pass after it dispatches a process if one is runnable. -/
theorem moqSz_eq_card_members (h : MoqReach k) :
    k.moqSz = (members k).card ∧
      (members k = ∅ → k.moqSz = 0 ∧ (k.moqActive ≠ 0 →
        ∀ d k', scheduler k = some (d, k') → d = none ∧ k'.moqActive = 0 ∧ k'.globalTick = 0 ∧
          ((∃ i, (k.proc i).state = .runnable) →
            ∃ i k'', scheduler k' = some (some i, k'')))) := by
  obtain ⟨-, hcount⟩ := h.counted
  refine ⟨hcount, fun hempty => ?_⟩
  have hsz : k.moqSz = 0 := by rw [hcount, hempty]; rfl
  exact ⟨hsz, fun hon d k' hs => scheduler_after_monopoly hon hsz hs⟩

/-- The first process forks, and moves its child to the MoQ. -/
theorem moqSz_eq_card_members_child : ∃ k, MoqReach k ∧ k.moqSz = 1 ∧
    k.moqSz = (members k).card := by
  have hrun : ((run (guardedNext step MoqSafe) pinit
      [.userinit, .scheduler, .forkAlloc 0, .forkDone 0, .setmonopoly 0 2 password]).any
        fun k => decide (k.moqSz = 1)) = true := by
    decide +kernel
  obtain ⟨k, hk, hsz⟩ := (Option.any_eq_true _ _).mp hrun
  have hnext : ∀ s i s', guardedNext step MoqSafe s i = some s' → Guarded Step MoqSafe s i s' :=
    fun _ _ _ hs => guardedNext_eq_some.mp hs
  have hreach : MoqReach k := Reachable.run hnext (.start rfl) hk
  exact ⟨k, hreach, of_decide_eq_true hsz, (moqSz_eq_card_members hreach).1⟩

/-- `setmonopoly` with pid `0` moves every unused slot to the MoQ. -/
theorem moqSz_ne_card_members : ∃ k, Reach k ∧ k.moqSz = 63 ∧ members k = ∅ := by
  have hrun : ((run step pinit [.userinit, .scheduler, .setmonopoly 0 0 password]).any
      fun k => decide (k.moqSz = 63) && decide (∀ i, ¬(k.proc i).InMoQ)) = true := by
    decide +kernel
  obtain ⟨k, hk, h⟩ := (Option.any_eq_true _ _).mp hrun
  obtain ⟨hsz, hm⟩ := Bool.and_eq_true_iff.mp h
  have hreach : Reach k := Reachable.run (fun s i s' hs => hs) (.start rfl) hk
  refine ⟨k, hreach, of_decide_eq_true hsz, ?_⟩
  ext i
  simpa using of_decide_eq_true hm i

end Xv6Projects.Mlfq
