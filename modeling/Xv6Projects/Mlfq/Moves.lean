import Xv6Projects.Mlfq.Tickets

/-!
# What an operation does to pids, to the CPU and to the mode

Most operations give and take no pid, dispatch nobody, and leave the mode and the counter of
ticks alone.  `step_move` lists the others.
-/

namespace Xv6Projects.Mlfq

open Library Kernel

variable {k k' k₁ k₂ : Kernel} {c i : Slot}

/-! ### Steady changes -/

/-- What a change of a table entry may be: the pid stays, no slot is taken or given back, nobody
starts to run, and who goes on running stays in the MoQ. -/
structure SteadyProc (p p' : Proc) : Prop where
  pid : p'.pid = p.pid
  used : p'.state = .unused ↔ p.state = .unused
  running : p'.state = .running → p.state = .running
  moq : p.qlev = MoQ → p'.state = .running → p'.qlev = MoQ

lemma SteadyProc.refl (p : Proc) : SteadyProc p p := ⟨rfl, Iff.rfl, id, fun h _ => h⟩

lemma SteadyProc.trans {p p₁ p₂ : Proc} (h : SteadyProc p p₁) (h' : SteadyProc p₁ p₂) :
    SteadyProc p p₂ where
  pid := h'.pid.trans h.pid
  used := h'.used.trans h.used
  running := fun hr => h.running (h'.running hr)
  moq := fun hq hr => h'.moq (h.moq hq (h'.running hr)) hr

/-- Every entry changes steadily, and the counters of pids and ticks and the mode stay. -/
structure Steady (k k' : Kernel) : Prop where
  proc : ∀ i, SteadyProc (k.proc i) (k'.proc i)
  nextpid : k'.nextpid = k.nextpid
  moqActive : k'.moqActive = k.moqActive
  globalTick : k'.globalTick = k.globalTick

lemma Steady.refl (k : Kernel) : Steady k k := ⟨fun _ => SteadyProc.refl _, rfl, rfl, rfl⟩

lemma Steady.trans (h : Steady k k₁) (h' : Steady k₁ k₂) : Steady k k₂ where
  proc := fun i => (h.proc i).trans (h'.proc i)
  nextpid := h'.nextpid.trans h.nextpid
  moqActive := h'.moqActive.trans h.moqActive
  globalTick := h'.globalTick.trans h.globalTick

lemma Steady.setLocked (k : Kernel) (b : Bool) : Steady k (k.setLocked b) :=
  ⟨fun _ => SteadyProc.refl _, rfl, rfl, rfl⟩

lemma Steady.setProc {p : Proc} (h : SteadyProc (k.proc i) p) : Steady k (k.setProc i p) := by
  refine ⟨fun j => ?_, rfl, rfl, rfl⟩
  by_cases hj : j = i
  · subst hj
    rw [setProc_proc, Function.update_self]
    exact h
  · rw [setProc_proc, Function.update_of_ne hj]
    exact SteadyProc.refl _

lemma Steady.mapProc {f : Proc → Proc} (h : ∀ p, SteadyProc p (f p)) : Steady k (k.mapProc f) :=
  ⟨fun i => h (k.proc i), rfl, rfl, rfl⟩

/-- A change of other counters. -/
lemma Steady.congr (h : Steady k k₁) (hproc : k'.proc = k₁.proc) (hpid : k'.nextpid = k₁.nextpid)
    (hactive : k'.moqActive = k₁.moqActive) (htick : k'.globalTick = k₁.globalTick) :
    Steady k k' := by
  obtain ⟨hp, hn, ha, ht⟩ := h
  exact ⟨hproc ▸ hp, hpid.trans hn, hactive.trans ha, htick.trans ht⟩

lemma Steady.withLock {f : Kernel → Kernel} (hf : Steady (k.setLocked true) (f (k.setLocked true)))
    (h : withLock k f = some k') : Steady k k' := by
  obtain ⟨-, rfl⟩ := withLock_eq_some.mp h
  exact ((Steady.setLocked k true).trans hf).trans (Steady.setLocked _ false)

/-! ### The functions of `proc.c` -/

lemma wakeup1_steady (k : Kernel) (chan : Chan) : Steady k (wakeup1 k chan) := by
  refine Steady.mapProc fun p => ?_
  split_ifs with h
  · exact ⟨rfl, by simp [h.1], by simp, by simp⟩
  · exact SteadyProc.refl p

lemma adopt_steady (k : Kernel) (c : Slot) : Steady k (adopt k c) := by
  refine Steady.mapProc fun p => ?_
  split_ifs
  · exact ⟨rfl, Iff.rfl, id, fun h _ => h⟩
  · exact SteadyProc.refl p

lemma reparent_steady (k : Kernel) (c : Slot) : Steady k (reparent k c) := by
  rw [reparent]
  split_ifs
  · exact (adopt_steady k c).trans (wakeup1_steady _ _)
  · exact adopt_steady k c

/-- A slot in use takes another state in which it does not run. -/
lemma steadyProc_stop {p q : Proc} (hpid : q.pid = p.pid) (hp : p.state ≠ .unused)
    (hq : q.state ≠ .unused) (hrun : q.state ≠ .running) : SteadyProc p q :=
  ⟨hpid, iff_of_false hq hp, fun h => absurd h hrun, fun _ h => absurd h hrun⟩

lemma exit_steady (hc : (k.proc c).state = .running) (h : Kernel.exit k c = some k') :
    Steady k k' := by
  rw [Kernel.exit] at h
  split_ifs at h
  refine Steady.withLock ?_ h
  have hk := (wakeup1_steady (k.setLocked true)
    (parentChan ((k.setLocked true).proc c).parent)).trans (reparent_steady _ c)
  refine hk.trans ?_
  have huse := (not_congr (hk.proc c).used).mpr (by simp [hc])
  have hset := Steady.setProc (steadyProc_stop (q := { (reparent (wakeup1 (k.setLocked true)
    (parentChan ((k.setLocked true).proc c).parent)) c).proc c with
      state := .zombie, qlev := noQueue, seq := -1, tick := -1, priority := -1 }) rfl huse
      (by simp) (by simp))
  exact hset.congr rfl rfl rfl rfl

lemma kill_steady {pid : ℤ} (h : kill k pid = some k') : Steady k k' := by
  refine Steady.withLock ?_ h
  cases slots.find? (fun i => ((k.setLocked true).proc i).pid = pid) with
  | none => exact Steady.refl _
  | some i =>
    refine Steady.setProc ?_
    by_cases hs : (k.proc i).state = .sleeping
    · exact steadyProc_stop rfl (by simp [hs]) (by simp [hs]) (by simp [hs])
    · rw [setLocked_proc]
      exact ⟨rfl, by rw [if_neg hs], by rw [if_neg hs]; exact id, fun h _ => h⟩

lemma sleep_steady {chan : Chan} (hc : (k.proc c).state = .running)
    (h : sleep k c chan = some k') : Steady k k' := by
  refine Steady.withLock ?_ h
  exact Steady.setProc (steadyProc_stop rfl (by simp [hc]) (by simp) (by simp))

lemma yield_steady (hc : (k.proc c).state = .running) (h : yield k c = some k') : Steady k k' := by
  refine Steady.withLock ?_ h
  exact Steady.setProc (steadyProc_stop rfl (by simp [hc]) (by simp) (by simp))

lemma setpriority_steady {pid priority r : ℤ} (h : setpriority k pid priority = some (r, k')) :
    Steady k k' := by
  rw [setpriority] at h
  split_ifs at h
  · obtain ⟨-, rfl⟩ := Prod.mk.inj (Option.some.inj h)
    exact Steady.refl k
  · obtain ⟨o, -, ho⟩ := Option.map_eq_some_iff.mp h
    cases o with
    | none =>
      obtain ⟨-, rfl⟩ := Prod.mk.inj ho
      exact Steady.refl k
    | some i =>
      obtain ⟨-, rfl⟩ := Prod.mk.inj ho
      exact Steady.setProc ⟨rfl, Iff.rfl, id, fun h _ => h⟩

lemma boost_steady (k : Kernel) : Steady k (boost k) := by
  have hmap : Steady k (k.mapProc fun p =>
      if p.qlev = MoQ then p else { p with qlev := L0, tick := 0 }) := by
    refine Steady.mapProc fun p => ?_
    split_ifs with hq
    · exact SteadyProc.refl p
    · exact ⟨rfl, Iff.rfl, id, fun h => absurd h hq⟩
  exact hmap.congr rfl rfl rfl rfl

lemma monopolySlot_steady (k : Kernel) (i : Slot) : Steady k (monopolySlot k i) := by
  have hset : Steady k (k.setProc i { k.proc i with qlev := MoQ, seq := k.moqCnt }) :=
    Steady.setProc ⟨rfl, Iff.rfl, id, fun _ _ => rfl⟩
  exact hset.congr rfl rfl rfl rfl

lemma setmonopolyLoop_steady {pid : ℤ} (l : List Slot) :
    ∀ (found : Bool) (k k' : Kernel) (r : ℤ ⊕ Bool),
      setmonopolyLoop c pid l found k = (r, k') → Steady k k' := by
  induction l with
  | nil =>
    intro found k k' r h
    obtain ⟨-, rfl⟩ := Prod.mk.inj h
    exact Steady.refl k
  | cons i l ih =>
    intro found k k' r h
    rw [setmonopolyLoop] at h
    split_ifs at h
    · obtain ⟨-, rfl⟩ := Prod.mk.inj h
      exact Steady.refl k
    · obtain ⟨-, rfl⟩ := Prod.mk.inj h
      exact Steady.refl k
    · exact (monopolySlot_steady k i).trans (ih _ _ _ _ h)
    · exact ih _ _ _ _ h

lemma setmonopoly_steady {pid pw r : ℤ} (h : setmonopoly k c pid pw = some (r, k')) :
    Steady k k' := by
  rw [setmonopoly] at h
  split_ifs at h
  · obtain ⟨-, rfl⟩ := Prod.mk.inj (Option.some.inj h)
    exact Steady.refl k
  · obtain ⟨ka, ha, h⟩ := Option.map_eq_some_iff.mp h
    obtain ⟨-, rfl⟩ := acquire_eq_some.mp ha
    obtain ⟨q, km, hloop⟩ : ∃ q km,
        setmonopolyLoop c pid slots false (k.setLocked true) = (q, km) := ⟨_, _, rfl⟩
    have hk := (Steady.setLocked k true).trans (setmonopolyLoop_steady slots _ _ _ _ hloop)
    rw [hloop] at h
    cases q with
    | inl q =>
      obtain ⟨-, rfl⟩ := Prod.mk.inj h
      exact hk
    | inr b =>
      obtain ⟨-, rfl⟩ := Prod.mk.inj h
      exact hk.trans (Steady.setLocked _ false)

lemma incLevCnt_steady (k : Kernel) (q : ℤ) : Steady k (incLevCnt k q) := by
  unfold incLevCnt
  split_ifs <;> exact ⟨fun _ => SteadyProc.refl _, rfl, rfl, rfl⟩

lemma demote_steady (hq : (k.proc c).qlev ≠ MoQ) : Steady k (demote k c) := by
  have hset : ∀ p : Proc, p.pid = (k.proc c).pid → p.state = (k.proc c).state →
      Steady k (k.setProc c p) := fun p hpid hst =>
    Steady.setProc ⟨hpid, by rw [hst], by rw [hst]; exact id, fun h => absurd h hq⟩
  unfold demote
  dsimp only
  split_ifs
  · refine Steady.trans ?_ (incLevCnt_steady _ _)
    exact hset _ rfl rfl
  · refine Steady.trans ?_ (incLevCnt_steady _ _)
    exact hset _ rfl rfl
  · refine Steady.trans ?_ (incLevCnt_steady _ _)
    exact hset _ rfl rfl
  · exact hset _ rfl rfl
  · exact hset _ rfl rfl
  · exact Steady.refl k

/-! ### The list of moves -/

/-- The zombie child that `wait` finds for process `c`. -/
def zombieChild (k : Kernel) (c : Slot) : Option Slot :=
  slots.find? fun i => (k.proc i).parent = some c ∧ (k.proc i).state = .zombie

/-- The operation is a tick that `trap` counts: the process has not been killed in user mode. -/
def Counts (k : Kernel) : Op → Prop
  | .tick c user => ¬((k.proc c).killed ∧ user)
  | _ => False

/-- `global_tick` after a counted tick. -/
def tickAfter (k : Kernel) : ℕ :=
  if k.moqActive = 0 ∧ 100 ≤ (k.globalTick + 1) % 4294967296 then 0
  else (k.globalTick + 1) % 4294967296

/-- What an operation can do, up to steady changes before and after. -/
inductive Move (k : Kernel) : Op → Kernel → Prop
  | steady {op : Op} {k' : Kernel} : ¬Counts k op → Steady k k' → Move k op k'
  | alloc {op : Op} {k₁ k' : Kernel} {i : Slot} : Allocates op → Steady k k₁ →
      (k₁.proc i).state = .unused → Steady (allocSlot k₁ i) k' → Move k op k'
  | fail {c i : Slot} {k' : Kernel} : (k.proc c).np = some i → (k.proc i).state = .embryo →
      Steady (allocFail k i) k' → Move k (.forkFail c) k'
  | reap {c i : Slot} {k' : Kernel} : zombieChild k c = some i → Steady (reap k i) k' →
      Move k (.wait c) k'
  | dispatch {d : Option Slot} {k' : Kernel} : (∀ i, d = some i → (k.proc i).state = .runnable ∧
      (k.moqActive ≠ 0 → (k.proc i).qlev = MoQ)) → Steady (dispatched k d) k' → Move k .scheduler k'
  | ends {k' : Kernel} : k.moqActive ≠ 0 → Steady (unmonopolize k) k' → Move k .scheduler k'
  | tick {op : Op} {k' : Kernel} : Counts k op → Steady (k.setGlobalTick (tickAfter k)) k' →
      Move k op k'
  | monopolize {c : Slot} : (k.proc c).state = .running → Move k (.monopolize c) (monopolize k)
  | unmonopolize {c : Slot} : Move k (.unmonopolize c) (unmonopolize k)

lemma scheduler_move {d : Option Slot} (h : scheduler k = some (d, k')) :
    Move k .scheduler k' := by
  have hk : k.locked = false := by
    by_contra hne
    simp [scheduler, acquire, hne] at h
  rw [scheduler_eq hk] at h
  obtain ⟨-, rfl⟩ := Prod.mk.inj (Option.some.inj h)
  have hdone : ∀ d, Steady (dispatched k d) ((dispatched (k.setLocked true) d).setLocked false) :=
    fun d => by cases d <;> exact ⟨fun _ => SteadyProc.refl _, rfl, rfl, rfl⟩
  by_cases hoff : k.moqActive = 0
  · obtain ⟨d, hd, hsome, -⟩ := schedulerBody_off (k := k.setLocked true) hoff
    rw [hd]
    exact .dispatch (fun i hi => ⟨(hsome i hi).1, fun hon => absurd hoff hon⟩) (hdone d)
  · by_cases hsz : k.moqSz = 0
    · rw [schedulerBody_ends (k := k.setLocked true) hoff hsz]
      exact .ends hoff ⟨fun _ => SteadyProc.refl _, rfl, rfl, rfl⟩
    · obtain ⟨d, hd, hsome, -⟩ := schedulerBody_on (k := k.setLocked true) hoff hsz
      rw [hd]
      exact .dispatch (fun i hi => ⟨(hsome i hi).1.1, fun _ => (hsome i hi).1.2⟩) (hdone d)

lemma wait_move (hc : (k.proc c).state = .running) (h : wait k c = some k') :
    Move k (.wait c) k' := by
  obtain ⟨-, rfl⟩ := withLock_eq_some.mp h
  have hfind : slots.find? (fun i => ((k.setLocked true).proc i).parent = some c ∧
      ((k.setLocked true).proc i).state = .zombie) = zombieChild k c := by
    unfold zombieChild
    rfl
  rw [hfind]
  cases hz : zombieChild k c with
  | some i => exact .reap hz ⟨fun _ => SteadyProc.refl _, rfl, rfl, rfl⟩
  | none =>
    dsimp only
    split_ifs
    · have hset := Steady.setProc (k := k.setLocked true) (steadyProc_stop (q :=
        { k.proc c with chan := .proc c, state := .sleeping }) rfl (by simp [hc]) (by simp) (by simp))
      exact .steady id (((Steady.setLocked k true).trans hset).trans (Steady.setLocked _ false))
    · exact .steady id ((Steady.setLocked k true).trans (Steady.setLocked _ false))

lemma boostTick_steady (h : boostTick k = some k') :
    Steady (k.setGlobalTick (if 100 ≤ k.globalTick then 0 else k.globalTick)) k' := by
  rw [boostTick] at h
  split_ifs at h ⊢
  · exact Steady.withLock (boost_steady _) h
  · obtain rfl := Option.some.inj h
    exact ⟨fun _ => SteadyProc.refl _, rfl, rfl, rfl⟩

lemma boostTick_state (h : boostTick k = some k') (i : Slot) :
    (k'.proc i).state = (k.proc i).state := by
  rw [boostTick] at h
  split_ifs at h
  · obtain ⟨-, rfl⟩ := withLock_eq_some.mp h
    rw [setLocked_proc, boost_proc]
    split_ifs <;> rfl
  · obtain rfl := Option.some.inj h
    rfl

lemma timerTrap_move {user : Bool} (hc : (k.proc c).state = .running)
    (h : timerTrap k c user = some k') : Move k (.tick c user) k' := by
  obtain ⟨kw, hw, h⟩ := Option.bind_eq_some_iff.mp h
  have hkw : Steady k kw := Steady.withLock (wakeup1_steady _ _) hw
  obtain ⟨-, rfl⟩ := withLock_eq_some.mp hw
  have hcw : ((wakeup1 (k.setLocked true) .ticks).setLocked false).proc c = k.proc c := by
    simp [wakeup1, hc]
  generalize (wakeup1 (k.setLocked true) .ticks).setLocked false = kw at h hkw hcw
  have hrun : (kw.proc c).state = .running := by rw [hcw, hc]
  rw [hcw] at h
  split_ifs at h with hkill
  · exact .steady (not_not.mpr hkill) (hkw.trans (exit_steady hrun h))
  · refine .tick hkill ?_
    -- the tick is counted
    have hct : Steady (k.setGlobalTick ((k.globalTick + 1) % 4294967296)) (countTick kw c) := by
      have hset : Steady kw (kw.setProc c { kw.proc c with tick := int32 ((kw.proc c).tick + 1) }) :=
        Steady.setProc ⟨rfl, Iff.rfl, id, fun h _ => h⟩
      have hboth := hkw.trans hset
      refine ⟨hboth.proc, hboth.nextpid, hboth.moqActive, ?_⟩
      show (kw.globalTick + 1) % 4294967296 = (k.globalTick + 1) % 4294967296
      rw [hkw.globalTick]
    have hact : (countTick kw c).moqActive = k.moqActive := hct.moqActive
    have htick : (countTick kw c).globalTick = (k.globalTick + 1) % 4294967296 := hct.globalTick
    have hrct : ((countTick kw c).proc c).state = .running := by simp [countTick, hrun]
    dsimp only at h
    rw [hact] at h
    rw [tickAfter]
    by_cases hoff : k.moqActive = 0
    · rw [if_neg (by simp [hoff])] at h
      obtain ⟨kb, hb, h⟩ := Option.bind_eq_some_iff.mp h
      have hkb : Steady (k.setGlobalTick (if k.moqActive = 0 ∧
          100 ≤ (k.globalTick + 1) % 4294967296 then 0 else (k.globalTick + 1) % 4294967296)) kb := by
        have hboost := boostTick_steady hb
        rw [htick] at hboost
        simp only [hoff, true_and]
        exact ⟨fun i => (hct.proc i).trans (hboost.proc i), hboost.nextpid.trans hct.nextpid,
          hboost.moqActive.trans hct.moqActive, hboost.globalTick⟩
      split_ifs at h with hover
      · have hrun : ((demote kb c).proc c).state = .running := by
          rw [demote_state, boostTick_state hb, hrct]
        exact (hkb.trans (demote_steady hover.1)).trans (yield_steady hrun h)
      · obtain rfl := Option.some.inj h
        exact hkb
    · rw [if_pos hoff] at h
      obtain rfl := Option.some.inj h
      rw [if_neg fun h => hoff h.1]
      exact hct

lemma userinit_move (h : userinit k = some k') : Move k .userinit k' := by
  obtain ⟨⟨o, ka⟩, hal, h⟩ := Option.bind_eq_some_iff.mp h
  rcases allocproc_effect hal with ⟨rfl, -⟩ | ⟨i, rfl, hi, rfl⟩
  · exact absurd h (by simp)
  · refine .alloc trivial (Steady.setLocked k true) hi ?_
    have hinit : Steady (allocSlot (k.setLocked true) i)
        (((allocSlot (k.setLocked true) i).setLocked false).setInitproc i) :=
      ⟨fun _ => SteadyProc.refl _, rfl, rfl, rfl⟩
    refine hinit.trans (Steady.withLock (Steady.setProc ?_) h)
    exact steadyProc_stop rfl (by simp) (by simp) (by simp)

lemma forkAlloc_move {o : Option Slot} (h : allocproc k = some (o, k₁)) :
    (o = none → Move k (.forkAlloc c) k₁) ∧ ∀ i, o = some i →
      Move k (.forkAlloc c) (k₁.setProc c { k₁.proc c with np := some i }) := by
  rcases allocproc_effect h with ⟨rfl, -⟩ | ⟨i, rfl, hi, rfl⟩
  · refine ⟨fun _ => .steady id ?_, by simp⟩
    obtain ⟨ka, ha, h⟩ := Option.map_eq_some_iff.mp h
    obtain ⟨-, rfl⟩ := acquire_eq_some.mp ha
    split at h
    · obtain ⟨-, rfl⟩ := Prod.mk.inj h
      exact (Steady.setLocked k true).trans (Steady.setLocked _ false)
    · exact absurd (Prod.mk.inj h).1 (by simp)
  · refine ⟨by simp, ?_⟩
    intro i' hi'
    obtain rfl := Option.some.inj hi'
    refine .alloc trivial (Steady.setLocked k true) hi ?_
    exact (Steady.setLocked _ false).trans (Steady.setProc ⟨rfl, Iff.rfl, id, fun h _ => h⟩)

lemma forkFail_move (hf : Forks k) (hc : (k.proc c).state = .running)
    (hci : (k.proc c).np = some i) :
    Move k (.forkFail c) (allocFail (k.setProc c { k.proc c with np := none }) i) := by
  have hi := hf.embryo c i hci
  have hne : c ≠ i := by
    rintro rfl
    rw [hc] at hi
    exact absurd hi (by simp)
  refine .fail hci hi ?_
  have hpc : (allocFail k i).proc c = k.proc c := by simp [allocFail, Function.update_of_ne hne]
  have heq : allocFail (k.setProc c { k.proc c with np := none }) i =
      (allocFail k i).setProc c { k.proc c with np := none } := by
    simp only [allocFail, Kernel.setProc]
    rw [Function.update_comm hne, Function.update_of_ne (Ne.symm hne)]
  rw [heq]
  refine Steady.setProc ?_
  rw [hpc]
  exact ⟨rfl, Iff.rfl, id, fun h _ => h⟩

lemma forkDone_steady (hf : Forks k) (hc : (k.proc c).state = .running)
    (hci : (k.proc c).np = some i)
    (h : forkDone (k.setProc c { k.proc c with np := none }) c i = some k') : Steady k k' := by
  have hi := hf.embryo c i hci
  have hne : i ≠ c := by
    rintro rfl
    rw [hc] at hi
    exact absurd hi (by simp)
  have h₁ : Steady k (k.setProc c { k.proc c with np := none }) :=
    Steady.setProc ⟨rfl, Iff.rfl, id, fun h _ => h⟩
  have hpi : (k.setProc c { k.proc c with np := none }).proc i = k.proc i := by
    rw [setProc_proc, Function.update_of_ne hne]
  have h₂ := h₁.trans (Steady.setProc (i := i)
    (p := { (k.setProc c { k.proc c with np := none }).proc i with parent := some c })
    ⟨rfl, Iff.rfl, id, fun h _ => h⟩)
  refine h₂.trans (Steady.withLock (Steady.setProc ?_) h)
  exact steadyProc_stop rfl (by simp [Function.update_of_ne hne, hi]) (by simp) (by simp)

/-- Every step is one of the listed moves. -/
theorem step_move (hf : Forks k) {op : Op} (h : Step k op k') : Move k op k' := by
  simp only [Step] at h
  cases op with
  | userinit =>
    simp only [step] at h
    split_ifs at h
    exact userinit_move h
  | scheduler =>
    simp only [step] at h
    obtain ⟨⟨d, ks⟩, hs, rfl⟩ := Option.map_eq_some_iff.mp h
    exact scheduler_move hs
  | forkAlloc c =>
    simp only [step] at h
    split_ifs at h with hc
    obtain ⟨⟨o, ka⟩, hal, hk'⟩ := Option.map_eq_some_iff.mp h
    obtain ⟨hnone, hsome⟩ := forkAlloc_move (c := c) hal
    cases o with
    | none => exact hk' ▸ hnone rfl
    | some i => exact hk' ▸ hsome i rfl
  | forkFail c =>
    simp only [step] at h
    split_ifs at h with hc
    obtain ⟨i, hci, rfl⟩ := Option.map_eq_some_iff.mp h
    exact forkFail_move hf hc hci
  | forkDone c =>
    simp only [step] at h
    split_ifs at h with hc
    obtain ⟨i, hci, h⟩ := Option.bind_eq_some_iff.mp h
    exact .steady id (forkDone_steady hf hc hci h)
  | exit c =>
    simp only [step] at h
    split_ifs at h with hc
    exact .steady id (exit_steady hc.1 h)
  | wait c =>
    simp only [step] at h
    split_ifs at h with hc
    exact wait_move hc.1 h
  | kill c pid =>
    simp only [step] at h
    split_ifs at h with hc
    exact .steady id (kill_steady h)
  | sleep c chan =>
    simp only [step] at h
    split_ifs at h with hc
    exact .steady id (sleep_steady hc.1 h)
  | wakeup chan =>
    simp only [step] at h
    exact .steady id (Steady.withLock (wakeup1_steady _ _) h)
  | yield c =>
    simp only [step] at h
    split_ifs at h with hc
    exact .steady id (yield_steady hc.1 h)
  | tick c user =>
    simp only [step] at h
    split_ifs at h with hc
    exact timerTrap_move hc.1 h
  | priorityBoost =>
    simp only [step] at h
    exact .steady id (Steady.withLock (boost_steady _) h)
  | setpriority c pid priority =>
    simp only [step] at h
    split_ifs at h with hc
    obtain ⟨⟨r, ks⟩, hs, rfl⟩ := Option.map_eq_some_iff.mp h
    exact .steady id (setpriority_steady hs)
  | setmonopoly c pid pw =>
    simp only [step] at h
    split_ifs at h with hc
    obtain ⟨⟨r, ks⟩, hs, rfl⟩ := Option.map_eq_some_iff.mp h
    exact .steady id (setmonopoly_steady hs)
  | monopolize c =>
    simp only [step] at h
    split_ifs at h with hc
    obtain rfl := Option.some.inj h
    exact .monopolize hc.1
  | unmonopolize c =>
    simp only [step] at h
    split_ifs at h with hc
    obtain rfl := Option.some.inj h
    exact .unmonopolize

end Xv6Projects.Mlfq
