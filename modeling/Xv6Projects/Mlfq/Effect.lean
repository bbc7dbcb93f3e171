import Mathlib.Tactic
import Xv6Projects.Mlfq.Dispatch

/-!
# What an operation does to queues and tickets

Most operations leave the levels, the tickets, the counters and the set of live
processes alone.  `step_effect` lists what the others do, once and for all; the
invariants of the scheduler are then proved from this list, without looking at the
code of the operations again.
-/

namespace Xv6Projects.Mlfq

open Kernel

variable {k k' k₁ k₂ : Kernel}

/-! ### Forks in progress -/

/-- Every `fork` in progress has its own embryo. -/
structure Forks (k : Kernel) : Prop where
  embryo : ∀ c i, (k.proc c).np = some i → (k.proc i).state = .embryo
  inj : ∀ c c' i, (k.proc c).np = some i → (k.proc c').np = some i → c = c'

/-- No fork starts or ends, and embryos stay embryos. -/
def KeepsForks (k k' : Kernel) : Prop :=
  ∀ i, (k'.proc i).np = (k.proc i).np ∧
    ((k.proc i).state = .embryo → (k'.proc i).state = .embryo)

lemma KeepsForks.trans (h₁ : KeepsForks k k₁) (h₂ : KeepsForks k₁ k₂) : KeepsForks k k₂ :=
  fun i => ⟨(h₂ i).1.trans (h₁ i).1, fun he => (h₂ i).2 ((h₁ i).2 he)⟩

lemma KeepsForks.of_proc_eq (h : k'.proc = k.proc) : KeepsForks k k' :=
  fun i => by simp [h]

lemma KeepsForks.setProc {i : Slot} {p : Proc} (hnp : p.np = (k.proc i).np)
    (hemb : (k.proc i).state = .embryo → p.state = .embryo) : KeepsForks k (k.setProc i p) := by
  intro j
  by_cases hj : j = i
  · subst hj
    simpa using ⟨hnp, hemb⟩
  · simp [Function.update_of_ne hj]

lemma KeepsForks.mapProc {f : Proc → Proc}
    (h : ∀ p, (f p).np = p.np ∧ (p.state = .embryo → (f p).state = .embryo)) :
    KeepsForks k (k.mapProc f) :=
  fun i => h (k.proc i)

lemma Forks.keeps (h : Forks k) (hk : KeepsForks k k') : Forks k' where
  embryo := by
    intro c i hc
    exact (hk i).2 (h.embryo c i ((hk c).1 ▸ hc))
  inj := by
    intro c c' i hc hc'
    exact h.inj c c' i ((hk c).1 ▸ hc) ((hk c').1 ▸ hc')

/-! ### Quiet changes -/

/-- Levels, tickets, counters and the set of live processes stay as they are. -/
structure Quiet (k k' : Kernel) : Prop where
  live : ∀ i, (k'.proc i).Live ↔ (k.proc i).Live
  qlev : ∀ i, (k'.proc i).qlev = (k.proc i).qlev
  seq : ∀ i, (k'.proc i).seq = (k.proc i).seq
  l0Cnt : k'.l0Cnt = k.l0Cnt
  l1Cnt : k'.l1Cnt = k.l1Cnt
  l2Cnt : k'.l2Cnt = k.l2Cnt
  l3Cnt : k'.l3Cnt = k.l3Cnt
  moqSz : k'.moqSz = k.moqSz
  moqCnt : k'.moqCnt = k.moqCnt

lemma Quiet.refl (k : Kernel) : Quiet k k :=
  ⟨fun _ => Iff.rfl, fun _ => rfl, fun _ => rfl, rfl, rfl, rfl, rfl, rfl, rfl⟩

lemma Quiet.trans (h : Quiet k k₁) (h' : Quiet k₁ k₂) : Quiet k k₂ where
  live i := (h'.live i).trans (h.live i)
  qlev i := (h'.qlev i).trans (h.qlev i)
  seq i := (h'.seq i).trans (h.seq i)
  l0Cnt := h'.l0Cnt.trans h.l0Cnt
  l1Cnt := h'.l1Cnt.trans h.l1Cnt
  l2Cnt := h'.l2Cnt.trans h.l2Cnt
  l3Cnt := h'.l3Cnt.trans h.l3Cnt
  moqSz := h'.moqSz.trans h.moqSz
  moqCnt := h'.moqCnt.trans h.moqCnt

lemma Quiet.setLocked (k : Kernel) (b : Bool) : Quiet k (k.setLocked b) :=
  ⟨fun _ => Iff.rfl, fun _ => rfl, fun _ => rfl, rfl, rfl, rfl, rfl, rfl, rfl⟩

lemma Quiet.setProc {i : Slot} {p : Proc} (hlive : p.Live ↔ (k.proc i).Live)
    (hq : p.qlev = (k.proc i).qlev) (hs : p.seq = (k.proc i).seq) : Quiet k (k.setProc i p) where
  live j := by
    by_cases hj : j = i
    · subst hj; simpa using hlive
    · simp [Function.update_of_ne hj]
  qlev j := by
    by_cases hj : j = i
    · subst hj; simpa using hq
    · simp [Function.update_of_ne hj]
  seq j := by
    by_cases hj : j = i
    · subst hj; simpa using hs
    · simp [Function.update_of_ne hj]
  l0Cnt := rfl
  l1Cnt := rfl
  l2Cnt := rfl
  l3Cnt := rfl
  moqSz := rfl
  moqCnt := rfl

lemma Quiet.mapProc {f : Proc → Proc} (h : ∀ p, ((f p).Live ↔ p.Live) ∧ (f p).qlev = p.qlev ∧
    (f p).seq = p.seq) : Quiet k (k.mapProc f) :=
  ⟨fun i => (h (k.proc i)).1, fun i => (h (k.proc i)).2.1, fun i => (h (k.proc i)).2.2,
    rfl, rfl, rfl, rfl, rfl, rfl⟩

/-- A quiet function body stays quiet under the lock. -/
lemma Quiet.withLock {f : Kernel → Kernel} (hf : Quiet (k.setLocked true) (f (k.setLocked true)))
    (h : withLock k f = some k') : Quiet k k' := by
  obtain ⟨-, rfl⟩ := withLock_eq_some.mp h
  exact ((Quiet.setLocked k true).trans hf).trans (Quiet.setLocked _ false)

/-- A quiet change that leaves the forks in progress alone. -/
def Keeps (k k' : Kernel) : Prop := Quiet k k' ∧ KeepsForks k k'

lemma Keeps.refl (k : Kernel) : Keeps k k := ⟨Quiet.refl k, KeepsForks.of_proc_eq rfl⟩

lemma Keeps.trans (h : Keeps k k₁) (h' : Keeps k₁ k₂) : Keeps k k₂ :=
  ⟨h.1.trans h'.1, h.2.trans h'.2⟩

lemma Keeps.setLocked (k : Kernel) (b : Bool) : Keeps k (k.setLocked b) :=
  ⟨Quiet.setLocked k b, KeepsForks.of_proc_eq rfl⟩

lemma Keeps.setGlobalTick (k : Kernel) (n : ℕ) : Keeps k (k.setGlobalTick n) :=
  ⟨⟨fun _ => Iff.rfl, fun _ => rfl, fun _ => rfl, rfl, rfl, rfl, rfl, rfl, rfl⟩,
    KeepsForks.of_proc_eq rfl⟩

/-- A function body that keeps everything keeps it under the lock. -/
lemma Keeps.withLock {f : Kernel → Kernel} (hf : Keeps (k.setLocked true) (f (k.setLocked true)))
    (h : withLock k f = some k') : Keeps k k' := by
  refine ⟨Quiet.withLock hf.1 h, ?_⟩
  obtain ⟨-, rfl⟩ := withLock_eq_some.mp h
  exact fun i => hf.2 i

/-! ### The functions of `proc.c` that keep queues and forks -/

lemma wakeup1_keeps (k : Kernel) (chan : Chan) : Keeps k (wakeup1 k chan) := by
  refine ⟨Quiet.mapProc fun p => ?_, KeepsForks.mapProc fun p => ?_⟩
  · split_ifs with h
    · simp [Proc.Live, h.1]
    · simp
  · split_ifs with h
    · simp [h.1]
    · simp

lemma adopt_keeps (k : Kernel) (c : Slot) : Keeps k (adopt k c) := by
  refine ⟨Quiet.mapProc fun p => ?_, KeepsForks.mapProc fun p => ?_⟩
  · split_ifs <;> simp [Proc.Live]
  · split_ifs <;> simp

lemma reparent_keeps (k : Kernel) (c : Slot) : Keeps k (reparent k c) := by
  unfold reparent
  split_ifs
  · exact (adopt_keeps k c).trans (wakeup1_keeps _ _)
  · exact adopt_keeps k c

/-- A live process other than an embryo changes to another live state. -/
lemma setProc_keeps {c : Slot} {p : Proc} (hp : p.Live) (hc : (k.proc c).Live)
    (hq : p.qlev = (k.proc c).qlev) (hs : p.seq = (k.proc c).seq)
    (hnp : p.np = (k.proc c).np) (hemb : (k.proc c).state ≠ .embryo) : Keeps k (k.setProc c p) :=
  ⟨Quiet.setProc (iff_of_true hp hc) hq hs, KeepsForks.setProc hnp fun h => absurd h hemb⟩

lemma live_of_running {c : Slot} (h : (k.proc c).state = .running) : (k.proc c).Live := by
  simp [Proc.Live, h]

/-- The process that runs next keeps its queue and its ticket. -/
lemma dispatched_keeps {d : Option Slot} (h : ∀ i, d = some i → (k.proc i).state = .runnable) :
    Keeps k (dispatched k d) := by
  cases d with
  | none => exact Keeps.refl k
  | some i =>
    have hi := h i rfl
    exact setProc_keeps (by simp [Proc.Live]) (by simp [Proc.Live, hi]) rfl rfl rfl (by simp [hi])

lemma scheduler_keeps {d : Option Slot} (h : scheduler k = some (d, k')) : Keeps k k' := by
  have hk : k.locked = false := by
    by_contra hne
    simp [scheduler, acquire, hne] at h
  rw [scheduler_eq hk] at h
  obtain ⟨-, rfl⟩ := Prod.mk.inj (Option.some.inj h)
  refine ((Keeps.setLocked k true).trans ?_).trans (Keeps.setLocked _ false)
  rcases schedulerBody_cases (k.setLocked true) with hb | ⟨d, hb, hrun⟩
  · rw [hb]
    exact ⟨⟨fun _ => Iff.rfl, fun _ => rfl, fun _ => rfl, rfl, rfl, rfl, rfl, rfl, rfl⟩,
      KeepsForks.of_proc_eq rfl⟩
  · rw [hb]
    exact dispatched_keeps hrun

lemma kill_keeps {pid : ℤ} (h : kill k pid = some k') : Keeps k k' := by
  refine Keeps.withLock ?_ h
  cases slots.find? (fun i => ((k.setLocked true).proc i).pid = pid) with
  | none => exact Keeps.refl _
  | some i =>
    refine ⟨Quiet.setProc ?_ rfl rfl, KeepsForks.setProc rfl ?_⟩
    · by_cases hs : (k.proc i).state = .sleeping <;> simp [Proc.Live, hs]
    · intro he
      simp only [setLocked_proc] at he
      simp [he]

/-- A running process gives up the CPU. -/
lemma sleep_keeps {c : Slot} {chan : Chan} (hc : (k.proc c).state = .running)
    (h : sleep k c chan = some k') : Keeps k k' := by
  refine Keeps.withLock ?_ h
  exact setProc_keeps (by simp [Proc.Live]) (live_of_running (k := k) hc) rfl rfl rfl
    (by simp [hc])

lemma yield_keeps {c : Slot} (hc : (k.proc c).state = .running)
    (h : yield k c = some k') : Keeps k k' := by
  refine Keeps.withLock ?_ h
  exact setProc_keeps (by simp [Proc.Live]) (live_of_running (k := k) hc) rfl rfl rfl
    (by simp [hc])

/-- Reaping a zombie changes no queue: the zombie was in none. -/
lemma reap_keeps {i : Slot} (hi : (k.proc i).state = .zombie) : Keeps k (reap k i) :=
  ⟨Quiet.setProc (by simp [Proc.Live, hi]) rfl rfl, KeepsForks.setProc rfl (by simp [hi])⟩

lemma wait_keeps {c : Slot} (hc : (k.proc c).state = .running) (h : wait k c = some k') :
    Keeps k k' := by
  refine Keeps.withLock ?_ h
  cases hfind : slots.find? (fun i => ((k.setLocked true).proc i).parent = some c ∧
      ((k.setLocked true).proc i).state = .zombie) with
  | some i =>
    have hi := List.find?_some hfind
    simp only [decide_eq_true_eq] at hi
    exact reap_keeps hi.2
  | none =>
    dsimp only
    split_ifs
    · exact setProc_keeps (by simp [Proc.Live]) (live_of_running (k := k) hc) rfl rfl rfl
        (by simp [hc])
    · exact Keeps.refl _

lemma setpriority_keeps {pid priority r : ℤ} (h : setpriority k pid priority = some (r, k')) :
    Keeps k k' := by
  unfold setpriority at h
  split_ifs at h
  · obtain ⟨-, rfl⟩ := Prod.mk.inj (Option.some.inj h)
    exact Keeps.refl k
  · obtain ⟨o, -, ho⟩ := Option.map_eq_some_iff.mp h
    cases o with
    | none =>
      obtain ⟨-, rfl⟩ := Prod.mk.inj ho
      exact Keeps.refl k
    | some i =>
      obtain ⟨-, rfl⟩ := Prod.mk.inj ho
      exact ⟨Quiet.setProc Iff.rfl rfl rfl, KeepsForks.setProc rfl id⟩

lemma countTick_keeps (k : Kernel) (c : Slot) : Keeps k (countTick k c) := by
  have hset : Keeps k (k.setProc c { k.proc c with tick := int32 ((k.proc c).tick + 1) }) :=
    ⟨Quiet.setProc Iff.rfl rfl rfl, KeepsForks.setProc rfl id⟩
  exact hset.trans (Keeps.setGlobalTick _ _)

/-! ### The list of effects -/

/-- The operation boosts: `priority_boost` itself, or a tick counted outside monopoly mode
that is the hundredth since the last boost. -/
def Boosts (k : Kernel) : Op → Prop
  | .priorityBoost => True
  | .tick c user => ¬((k.proc c).killed ∧ user) ∧ k.moqActive = 0 ∧
      100 ≤ (k.globalTick + 1) % 4294967296
  | _ => False

/-- The operation takes an unused slot. -/
def Allocates : Op → Prop
  | .userinit => True
  | .forkAlloc _ => True
  | _ => False

/-- What an operation can do, up to quiet changes before and after. -/
inductive Effect (k : Kernel) : Op → Kernel → Prop
  | quiet {op : Op} {k' : Kernel} : Quiet k k' → Effect k op k'
  | alloc {op : Op} {k₁ k' : Kernel} {i : Slot} : Allocates op → Quiet k k₁ →
      (k₁.proc i).state = .unused → Quiet (allocSlot k₁ i) k' → Effect k op k'
  | fail {c i : Slot} {k' : Kernel} : (k.proc c).np = some i → (k.proc i).state = .embryo →
      Quiet (allocFail k i) k' → Effect k (.forkFail c) k'
  | exit {op : Op} {k₁ k' : Kernel} {c : Slot} : Quiet k k₁ → (k₁.proc c).state = .running →
      Quiet (exitSlot k₁ c) k' → Effect k op k'
  | boost {op : Op} {k₁ k' : Kernel} : Boosts k op → Quiet k k₁ → Quiet (boost k₁) k' →
      Effect k op k'
  | demote {op : Op} {k₁ k' : Kernel} {c : Slot} : Quiet k k₁ → (k₁.proc c).Live →
      (k₁.proc c).qlev ≠ MoQ → Quiet (demote k₁ c) k' → Effect k op k'
  | monopoly {c : Slot} {pid : ℤ} {r : ℤ ⊕ Bool} {k₁ k₂ k' : Kernel} : Quiet k k₁ →
      (∀ i, (k₁.proc i).pid = (k.proc i).pid) →
      setmonopolyLoop c pid slots false k₁ = (r, k₂) → Quiet k₂ k' →
      Effect k (.setmonopoly c pid password) k'

@[simp] lemma boost_proc (k : Kernel) (i : Slot) : (boost k).proc i =
    if (k.proc i).qlev = MoQ then k.proc i else { k.proc i with qlev := L0, tick := 0 } := rfl

lemma boost_keepsForks (k : Kernel) : KeepsForks k (boost k) := by
  intro i
  rw [boost_proc]
  split_ifs <;> simp

lemma demote_keepsForks (k : Kernel) (c : Slot) : KeepsForks k (demote k c) := by
  unfold demote
  dsimp only
  split_ifs <;>
    first
    | exact KeepsForks.setProc (k := k) rfl id
    | exact KeepsForks.of_proc_eq rfl

lemma exitSlot_keepsForks {c : Slot} (hc : (k.proc c).state = .running) :
    KeepsForks k (exitSlot k c) :=
  KeepsForks.setProc (k := k) rfl (by simp [hc])

lemma setmonopolyLoop_keepsForks (c : Slot) (pid : ℤ) (l : List Slot) :
    ∀ (found : Bool) (k k' : Kernel) (r : ℤ ⊕ Bool),
      setmonopolyLoop c pid l found k = (r, k') → KeepsForks k k' := by
  induction l with
  | nil =>
    intro found k k' r h
    obtain ⟨-, rfl⟩ := Prod.mk.inj h
    exact KeepsForks.of_proc_eq rfl
  | cons i l ih =>
    intro found k k' r h
    rw [setmonopolyLoop] at h
    split_ifs at h
    · obtain ⟨-, rfl⟩ := Prod.mk.inj h
      exact KeepsForks.of_proc_eq rfl
    · obtain ⟨-, rfl⟩ := Prod.mk.inj h
      exact KeepsForks.of_proc_eq rfl
    · have hset : KeepsForks k (monopolySlot k i) := KeepsForks.setProc (k := k) rfl id
      exact hset.trans (ih _ _ _ _ h)
    · exact ih _ _ _ _ h

/-- `exit` of a running process. -/
lemma exit_effect {c : Slot} (hc : (k.proc c).state = .running) (h : exit k c = some k') :
    KeepsForks k k' ∧ ∃ k₁, Quiet k k₁ ∧ (k₁.proc c).state = .running ∧
      Quiet (exitSlot k₁ c) k' := by
  unfold Kernel.exit at h
  split_ifs at h
  obtain ⟨-, rfl⟩ := withLock_eq_some.mp h
  have hkeep : Keeps k (reparent (wakeup1 (k.setLocked true)
      (parentChan ((k.setLocked true).proc c).parent)) c) :=
    ((Keeps.setLocked k true).trans (wakeup1_keeps _ _)).trans (reparent_keeps _ _)
  have hrun : ((reparent (wakeup1 (k.setLocked true)
      (parentChan ((k.setLocked true).proc c).parent)) c).proc c).state = .running := by
    have hw : ∀ (k : Kernel) chan, (k.proc c).state = .running →
        ((wakeup1 k chan).proc c).state = .running := by
      intro k chan hk
      simp [wakeup1, hk]
    have ha : ((adopt (wakeup1 (k.setLocked true)
        (parentChan ((k.setLocked true).proc c).parent)) c).proc c).state = .running := by
      simp only [adopt, mapProc_proc]
      split_ifs
      · exact hw _ _ hc
      · exact hw _ _ hc
    unfold reparent
    split_ifs
    · exact hw _ _ ha
    · exact ha
  exact ⟨(hkeep.2.trans (exitSlot_keepsForks hrun)).trans (KeepsForks.of_proc_eq rfl),
    _, hkeep.1, hrun, Quiet.setLocked _ false⟩

lemma demote_state (k : Kernel) (c j : Slot) :
    ((demote k c).proc j).state = (k.proc j).state := by
  unfold demote
  dsimp only
  by_cases hj : j = c
  · subst hj
    split_ifs <;> simp [incLevCnt]
  · split_ifs <;> simp [incLevCnt, Function.update_of_ne hj]

/-- After a boost no process outside the MoQ is at the end of its time slice. -/
lemma not_sliceOver_boost (k : Kernel) (c : Slot) (hq : ((boost k).proc c).qlev ≠ MoQ) :
    ¬sliceOver ((boost k).proc c) := by
  rw [boost_proc] at hq ⊢
  split_ifs at hq ⊢ with h
  · exact absurd h hq
  · simp [sliceOver, toUint, L0]

/-- The boost of a tick, up to its lock operations. -/
lemma boostTick_effect (h : boostTick k = some k') :
    k' = k ∨ 100 ≤ k.globalTick ∧ KeepsForks k k' ∧
      (∀ c, (k'.proc c).qlev ≠ MoQ → ¬sliceOver (k'.proc c)) ∧
      ∃ k₁, Quiet k k₁ ∧ Quiet (boost k₁) k' := by
  unfold boostTick at h
  split_ifs at h with hge
  · obtain ⟨-, rfl⟩ := withLock_eq_some.mp h
    have hz := (Keeps.setGlobalTick k 0).trans (Keeps.setLocked _ true)
    exact Or.inr ⟨hge, (hz.2.trans (boost_keepsForks _)).trans (KeepsForks.of_proc_eq rfl),
      fun c hq => not_sliceOver_boost _ c hq, _, hz.1, Quiet.setLocked _ false⟩
  · exact Or.inl (Option.some.inj h).symm

/-- The tick of a running process. -/
lemma timerTrap_effect {c : Slot} {user : Bool} (hc : (k.proc c).state = .running)
    (h : timerTrap k c user = some k') :
    KeepsForks k k' ∧ Effect k (.tick c user) k' := by
  obtain ⟨kw, hw, h⟩ := Option.bind_eq_some_iff.mp h
  obtain ⟨-, rfl⟩ := withLock_eq_some.mp hw
  have hkw : Keeps k ((wakeup1 (k.setLocked true) .ticks).setLocked false) :=
    ((Keeps.setLocked k true).trans (wakeup1_keeps _ _)).trans (Keeps.setLocked _ false)
  have hact : ((wakeup1 (k.setLocked true) .ticks).setLocked false).moqActive = k.moqActive := rfl
  have htick : ((wakeup1 (k.setLocked true) .ticks).setLocked false).globalTick = k.globalTick :=
    rfl
  have hcw : ((wakeup1 (k.setLocked true) .ticks).setLocked false).proc c = k.proc c := by
    simp [wakeup1, hc]
  generalize (wakeup1 (k.setLocked true) .ticks).setLocked false = kw at h hkw hact htick hcw
  have hrun : (kw.proc c).state = .running := by rw [hcw, hc]
  split_ifs at h with hkill
  · obtain ⟨hf, k₁, hq, hr, hk'⟩ := exit_effect hrun h
    exact ⟨hkw.2.trans hf, .exit (hkw.1.trans hq) hr hk'⟩
  · -- the tick is counted
    have hct : Keeps k (countTick kw c) := hkw.trans (countTick_keeps kw c)
    have hrct : ((countTick kw c).proc c).state = .running := by simp [countTick, hrun]
    dsimp only at h
    split_ifs at h with hon
    · obtain rfl := Option.some.inj h
      exact ⟨hct.2, .quiet hct.1⟩
    · obtain ⟨kb, hb, h⟩ := Option.bind_eq_some_iff.mp h
      rcases boostTick_effect hb with rfl | ⟨hge, hbf, hslice, k₁, hq, hq'⟩
      · -- no boost
        split_ifs at h with hover
        · have hy := yield_keeps (by rw [demote_state]; exact hrct) h
          exact ⟨(hct.2.trans (demote_keepsForks _ c)).trans hy.2,
            .demote hct.1 (live_of_running hrct) hover.1 hy.1⟩
        · obtain rfl := Option.some.inj h
          exact ⟨hct.2, .quiet hct.1⟩
      · -- after a boost the time slice is not over
        rw [if_neg fun hover => hslice c hover.1 hover.2] at h
        obtain rfl := Option.some.inj h
        refine ⟨hct.2.trans hbf, .boost ⟨?_, ?_, ?_⟩ (hct.1.trans hq) hq'⟩
        · rwa [hcw] at hkill
        · simpa [countTick, hact] using hon
        · simpa [countTick, htick] using hge

/-- `allocproc` returns an unused slot as an embryo, or nothing. -/
lemma allocproc_effect {o : Option Slot} (h : allocproc k = some (o, k')) :
    o = none ∧ Keeps k k' ∨ ∃ i, o = some i ∧ (k.proc i).state = .unused ∧
      k' = (allocSlot (k.setLocked true) i).setLocked false := by
  obtain ⟨ka, ha, h⟩ := Option.map_eq_some_iff.mp h
  obtain ⟨-, rfl⟩ := acquire_eq_some.mp ha
  cases hfind : slots.find? (fun i => ((k.setLocked true).proc i).state = .unused) with
  | none =>
    rw [hfind] at h
    obtain ⟨rfl, rfl⟩ := Prod.mk.inj h
    exact Or.inl ⟨rfl, (Keeps.setLocked k true).trans (Keeps.setLocked _ false)⟩
  | some i =>
    rw [hfind] at h
    obtain ⟨rfl, rfl⟩ := Prod.mk.inj h
    have hi := List.find?_some hfind
    exact Or.inr ⟨i, rfl, of_decide_eq_true hi, rfl⟩

/-- Process `c` starts a fork whose embryo is `i`. -/
lemma Forks.alloc (hf : Forks k) {c i : Slot} (hi : (k.proc i).state = .unused)
    (hemb : (k'.proc i).state = .embryo)
    (hother : ∀ j, j ≠ i → (k'.proc j).state = (k.proc j).state)
    (hnp : ∀ j, (k'.proc j).np = if j = c then some i else (k.proc j).np) : Forks k' := by
  have hnone : ∀ c', (k.proc c').np ≠ some i := by
    intro c' hc'
    have hcontra := hf.embryo c' i hc'
    rw [hi] at hcontra
    exact absurd hcontra (by simp)
  constructor
  · intro c' j hj
    rw [hnp c'] at hj
    by_cases hji : j = i
    · rw [hji, hemb]
    · rw [hother j hji]
      split_ifs at hj with hc
      · exact absurd (Option.some.inj hj).symm hji
      · exact hf.embryo c' j hj
  · intro a b j ha hb
    rw [hnp a] at ha
    rw [hnp b] at hb
    split_ifs at ha hb with h₁ h₂ h₃
    · rw [h₁, h₂]
    · exact absurd (hb.trans ha.symm) (hnone b)
    · exact absurd (ha.trans hb.symm) (hnone a)
    · exact hf.inj a b j ha hb

/-- A fork ends: its embryo takes another state, and the forking process forgets it. -/
lemma Forks.done (hf : Forks k) {c i : Slot} (hci : (k.proc c).np = some i)
    (hother : ∀ j, j ≠ i → (k'.proc j).state = (k.proc j).state)
    (hnp : ∀ j, (k'.proc j).np = if j = c then none else (k.proc j).np) : Forks k' := by
  constructor
  · intro c' j hj
    rw [hnp] at hj
    split_ifs at hj with hc
    have hji : j ≠ i := by
      rintro rfl
      exact hc (hf.inj c' c j hj hci)
    rw [hother j hji]
    exact hf.embryo c' j hj
  · intro a b j ha hb
    rw [hnp] at ha hb
    split_ifs at ha hb
    exact hf.inj a b j ha hb

lemma forks_pinit : Forks pinit where
  embryo := by simp [Kernel.pinit, Proc.zero]
  inj := by simp [Kernel.pinit, Proc.zero]

lemma userinit_effect (hf : Forks k) (h : userinit k = some k') :
    Forks k' ∧ Effect k .userinit k' := by
  obtain ⟨⟨o, ka⟩, hal, h⟩ := Option.bind_eq_some_iff.mp h
  rcases allocproc_effect hal with ⟨rfl, -⟩ | ⟨i, rfl, hi, rfl⟩
  · exact absurd h (by simp)
  · obtain ⟨-, rfl⟩ := withLock_eq_some.mp h
    refine ⟨hf.keeps fun j => ?_, .alloc trivial (Quiet.setLocked k true) (by simpa using hi) ?_⟩
    · by_cases hj : j = i
      · subst hj
        simp [hi]
      · simp [Function.update_of_ne hj]
    · have hinit : Quiet (allocSlot (k.setLocked true) i)
          ((((allocSlot (k.setLocked true) i).setLocked false).setInitproc i).setLocked true) :=
        ⟨fun _ => Iff.rfl, fun _ => rfl, fun _ => rfl, rfl, rfl, rfl, rfl, rfl, rfl⟩
      refine (hinit.trans (Quiet.setProc ?_ ?_ ?_)).trans (Quiet.setLocked _ false)
      · simp [Proc.Live]
      · simp
      · simp

lemma forkAlloc_effect {c : Slot} {o : Option Slot} (hf : Forks k) (hc : Ready k c)
    (h : allocproc k = some (o, k₁)) :
    (o = none → Forks k₁ ∧ Effect k (.forkAlloc c) k₁) ∧ ∀ i, o = some i →
      Forks (k₁.setProc c { k₁.proc c with np := some i }) ∧
        Effect k (.forkAlloc c) (k₁.setProc c { k₁.proc c with np := some i }) := by
  rcases allocproc_effect h with ⟨rfl, hk⟩ | ⟨i, rfl, hi, rfl⟩
  · exact ⟨fun _ => ⟨hf.keeps hk.2, .quiet hk.1⟩, by simp⟩
  · have hci : c ≠ i := by
      rintro rfl
      rw [hc.1] at hi
      exact absurd hi (by simp)
    refine ⟨by simp, ?_⟩
    intro i' hi'
    obtain rfl := Option.some.inj hi'
    refine ⟨hf.alloc (c := c) hi ?_ ?_ ?_, .alloc trivial (Quiet.setLocked k true) (by simpa using hi) ?_⟩
    · simp [Function.update_of_ne (Ne.symm hci)]
    · intro j hj
      by_cases hjc : j = c
      · subst hjc; simp [Function.update_of_ne hj]
      · simp [Function.update_of_ne hjc, Function.update_of_ne hj]
    · intro j
      by_cases hjc : j = c
      · subst hjc; simp
      · by_cases hj : j = i
        · subst hj; simp [hjc]
        · simp [Function.update_of_ne hj, hjc]
    · refine Quiet.trans (Quiet.setLocked _ false) (Quiet.setProc ?_ ?_ ?_)
      · simp [Proc.Live]
      · simp
      · simp

lemma forkFail_effect {c i : Slot} (hf : Forks k) (hc : (k.proc c).state = .running)
    (hci : (k.proc c).np = some i) :
    Forks (allocFail (k.setProc c { k.proc c with np := none }) i) ∧
      Effect k (.forkFail c) (allocFail (k.setProc c { k.proc c with np := none }) i) := by
  have hi := hf.embryo c i hci
  have hne : c ≠ i := by
    rintro rfl
    rw [hc] at hi
    exact absurd hi (by simp)
  refine ⟨hf.done hci ?_ ?_, .fail hci hi ?_⟩
  · intro j hj
    by_cases hjc : j = c
    · subst hjc; simp [allocFail, Function.update_of_ne hj]
    · simp [allocFail, Function.update_of_ne hj, Function.update_of_ne hjc]
  · intro j
    by_cases hj : j = i
    · subst hj; simp [allocFail, Ne.symm hne]
    · by_cases hjc : j = c
      · subst hjc; simp [allocFail, Function.update_of_ne hj]
      · simp [allocFail, Function.update_of_ne hj, hjc]
  · have hq : Quiet (allocFail k i) ((allocFail k i).setProc c { k.proc c with np := none }) := by
      refine Quiet.setProc ?_ ?_ ?_ <;> simp [allocFail, Function.update_of_ne hne, Proc.Live]
    have heq : allocFail (k.setProc c { k.proc c with np := none }) i =
        (allocFail k i).setProc c { k.proc c with np := none } := by
      simp only [allocFail, Kernel.setProc]
      rw [Function.update_comm hne, Function.update_of_ne (Ne.symm hne)]
    rw [heq]
    exact hq

lemma forkDone_effect {op : Op} {c i : Slot} (hf : Forks k) (hc : (k.proc c).state = .running)
    (hci : (k.proc c).np = some i)
    (h : forkDone (k.setProc c { k.proc c with np := none }) c i = some k') :
    Forks k' ∧ Effect k op k' := by
  have hi := hf.embryo c i hci
  have hne : c ≠ i := by
    rintro rfl
    rw [hc] at hi
    exact absurd hi (by simp)
  obtain ⟨-, rfl⟩ := withLock_eq_some.mp h
  refine ⟨hf.done hci ?_ ?_, .quiet ?_⟩
  · intro j hj
    by_cases hjc : j = c
    · subst hjc; simp [Function.update_of_ne hj]
    · simp [Function.update_of_ne hj, Function.update_of_ne hjc]
  · intro j
    by_cases hj : j = i
    · subst hj; simp [Ne.symm hne]
    · by_cases hjc : j = c
      · subst hjc; simp [Function.update_of_ne hj]
      · simp [Function.update_of_ne hj, hjc]
  · have h₁ : Quiet k (k.setProc c { k.proc c with np := none }) := Quiet.setProc Iff.rfl rfl rfl
    have hpi : ((k.setProc c { k.proc c with np := none }).proc i) = k.proc i := by
      simp [Function.update_of_ne (Ne.symm hne)]
    have h₂ := h₁.trans (Quiet.setProc (i := i)
      (p := { (k.setProc c { k.proc c with np := none }).proc i with parent := some c })
      Iff.rfl rfl rfl)
    refine h₂.trans (Quiet.withLock (Quiet.setProc ?_ ?_ ?_) h)
    · simp [Proc.Live, hpi, hi]
    · rfl
    · rfl

/-- Every step has one of the listed effects, and keeps the forks in order. -/
theorem step_effect (hf : Forks k) {op : Op} (h : Step k op k') : Forks k' ∧ Effect k op k' := by
  have keep : ∀ {op : Op}, Keeps k k' → Forks k' ∧ Effect k op k' :=
    fun hk => ⟨hf.keeps hk.2, .quiet hk.1⟩
  simp only [Step] at h
  cases op with
  | userinit =>
    simp only [step] at h
    split_ifs at h
    exact userinit_effect hf h
  | scheduler =>
    simp only [step] at h
    obtain ⟨⟨d, ks⟩, hs, rfl⟩ := Option.map_eq_some_iff.mp h
    exact keep (scheduler_keeps hs)
  | forkAlloc c =>
    simp only [step] at h
    split_ifs at h with hc
    obtain ⟨⟨o, ka⟩, hal, hk'⟩ := Option.map_eq_some_iff.mp h
    obtain ⟨hnone, hsome⟩ := forkAlloc_effect hf hc hal
    cases o with
    | none => exact hk' ▸ hnone rfl
    | some i => exact hk' ▸ hsome i rfl
  | forkFail c =>
    simp only [step] at h
    split_ifs at h with hc
    obtain ⟨i, hci, rfl⟩ := Option.map_eq_some_iff.mp h
    exact forkFail_effect hf hc hci
  | forkDone c =>
    simp only [step] at h
    split_ifs at h with hc
    obtain ⟨i, hci, h⟩ := Option.bind_eq_some_iff.mp h
    exact forkDone_effect hf hc hci h
  | exit c =>
    simp only [step] at h
    split_ifs at h with hc
    obtain ⟨hk, k₁, hq, hr, hq'⟩ := exit_effect hc.1 h
    exact ⟨hf.keeps hk, .exit hq hr hq'⟩
  | wait c =>
    simp only [step] at h
    split_ifs at h with hc
    exact keep (wait_keeps hc.1 h)
  | kill c pid =>
    simp only [step] at h
    split_ifs at h with hc
    exact keep (kill_keeps h)
  | sleep c chan =>
    simp only [step] at h
    split_ifs at h with hc
    exact keep (sleep_keeps hc.1 h)
  | wakeup chan =>
    simp only [step] at h
    exact keep (Keeps.withLock (wakeup1_keeps _ _) h)
  | yield c =>
    simp only [step] at h
    split_ifs at h with hc
    exact keep (yield_keeps hc.1 h)
  | tick c user =>
    simp only [step] at h
    split_ifs at h with hc
    obtain ⟨hk, he⟩ := timerTrap_effect hc.1 h
    exact ⟨hf.keeps hk, he⟩
  | priorityBoost =>
    simp only [step] at h
    obtain ⟨-, rfl⟩ := withLock_eq_some.mp h
    exact ⟨hf.keeps ((boost_keepsForks _).trans (KeepsForks.of_proc_eq rfl)),
      .boost trivial (Quiet.setLocked k true) (Quiet.setLocked _ false)⟩
  | setpriority c pid priority =>
    simp only [step] at h
    split_ifs at h with hc
    obtain ⟨⟨r, ks⟩, hs, rfl⟩ := Option.map_eq_some_iff.mp h
    exact keep (setpriority_keeps hs)
  | setmonopoly c pid pw =>
    simp only [step] at h
    split_ifs at h with hc
    obtain ⟨⟨r, ks⟩, hs, rfl⟩ := Option.map_eq_some_iff.mp h
    unfold setmonopoly at hs
    split_ifs at hs with hpw
    · obtain ⟨-, rfl⟩ := Prod.mk.inj (Option.some.inj hs)
      exact keep (Keeps.refl k)
    · obtain rfl := not_not.mp hpw
      obtain ⟨ka, ha, hs⟩ := Option.map_eq_some_iff.mp hs
      obtain ⟨-, rfl⟩ := acquire_eq_some.mp ha
      obtain ⟨r', km, hloop⟩ : ∃ r' km,
          setmonopolyLoop c pid slots false (k.setLocked true) = (r', km) := ⟨_, _, rfl⟩
      rw [hloop] at hs
      have hkf := setmonopolyLoop_keepsForks c pid slots _ _ _ _ hloop
      have hend : ks = km ∨ ks = km.setLocked false := by
        cases r' with
        | inl r' => exact Or.inl (Prod.mk.inj hs).2.symm
        | inr b => exact Or.inr (Prod.mk.inj hs).2.symm
      rcases hend with rfl | rfl
      · exact ⟨hf.keeps hkf, .monopoly (Quiet.setLocked k true) (fun _ => rfl) hloop (Quiet.refl _)⟩
      · exact ⟨hf.keeps hkf, .monopoly (Quiet.setLocked k true) (fun _ => rfl) hloop
          (Quiet.setLocked _ false)⟩
  | monopolize c =>
    simp only [step] at h
    split_ifs at h with hc
    obtain rfl := Option.some.inj h
    exact keep ⟨⟨fun _ => Iff.rfl, fun _ => rfl, fun _ => rfl, rfl, rfl, rfl, rfl, rfl, rfl⟩,
      KeepsForks.of_proc_eq rfl⟩
  | unmonopolize c =>
    simp only [step] at h
    split_ifs at h with hc
    obtain rfl := Option.some.inj h
    exact keep ⟨⟨fun _ => Iff.rfl, fun _ => rfl, fun _ => rfl, rfl, rfl, rfl, rfl, rfl, rfl⟩,
      KeepsForks.of_proc_eq rfl⟩

end Xv6Projects.Mlfq
