import Xv6Projects.Mlfq.Membership

/-!
# Levels, time slices and priorities

What each operation does to the level, the used ticks and the priority of a process, slot by
slot; and the invariant of these fields in runs that do not switch monopoly mode on.
-/

namespace Xv6Projects.Mlfq

open Library Kernel

variable {k k' k₁ k₂ : Kernel}

/-! ### Changes that leave the share of a process alone -/

/-- The process keeps its pid, its level, its ticks and its priority. -/
structure SameShare (p p' : Proc) : Prop where
  pid : p'.pid = p.pid
  qlev : p'.qlev = p.qlev
  tick : p'.tick = p.tick
  priority : p'.priority = p.priority

lemma SameShare.refl (p : Proc) : SameShare p p := ⟨rfl, rfl, rfl, rfl⟩

lemma SameShare.trans {p p₁ p₂ : Proc} (h : SameShare p p₁) (h' : SameShare p₁ p₂) :
    SameShare p p₂ :=
  ⟨h'.pid.trans h.pid, h'.qlev.trans h.qlev, h'.tick.trans h.tick, h'.priority.trans h.priority⟩

/-- No process starts, and those that stay keep their share; monopoly mode stays off. -/
structure Calm (k k' : Kernel) : Prop where
  active : k.moqActive = 0 → k'.moqActive = 0
  share : ∀ i, (k'.proc i).Live → (k.proc i).Live ∧ SameShare (k.proc i) (k'.proc i)

lemma Calm.of_eq (hactive : k'.moqActive = k.moqActive) (hproc : k'.proc = k.proc) : Calm k k' := by
  refine ⟨fun h => hactive.trans h, fun i hi => ?_⟩
  rw [hproc] at hi ⊢
  exact ⟨hi, SameShare.refl _⟩

lemma Calm.refl (k : Kernel) : Calm k k := Calm.of_eq rfl rfl

lemma Calm.trans (h : Calm k k₁) (h' : Calm k₁ k₂) : Calm k k₂ := by
  refine ⟨fun h₀ => h'.active (h.active h₀), fun i hi => ?_⟩
  obtain ⟨hi₁, hs'⟩ := h'.share i hi
  obtain ⟨hi₀, hs⟩ := h.share i hi₁
  exact ⟨hi₀, hs.trans hs'⟩

lemma Calm.setLocked (k : Kernel) (b : Bool) : Calm k (k.setLocked b) := Calm.of_eq rfl rfl

lemma Calm.setProc {i : Slot} {p : Proc}
    (h : p.Live → (k.proc i).Live ∧ SameShare (k.proc i) p) : Calm k (k.setProc i p) := by
  refine ⟨id, fun j hj => ?_⟩
  rcases eq_or_ne j i with rfl | hne
  · rw [setProc_proc, Function.update_self] at hj ⊢
    exact h hj
  · rw [setProc_proc, Function.update_of_ne hne] at hj ⊢
    exact ⟨hj, SameShare.refl _⟩

lemma Calm.mapProc {f : Proc → Proc} (h : ∀ p, (f p).Live → p.Live ∧ SameShare p (f p)) :
    Calm k (k.mapProc f) :=
  ⟨id, fun i => h (k.proc i)⟩

/-- A calm function body is calm under the lock. -/
lemma Calm.withLock {f : Kernel → Kernel} (hf : Calm (k.setLocked true) (f (k.setLocked true)))
    (h : withLock k f = some k') : Calm k k' := by
  obtain ⟨-, rfl⟩ := withLock_eq_some.mp h
  exact ((Calm.setLocked k true).trans hf).trans (Calm.setLocked _ false)

/-! ### The functions of `proc.c` -/

lemma wakeup1_calm (k : Kernel) (chan : Chan) : Calm k (wakeup1 k chan) := by
  refine Calm.mapProc fun p hp => ?_
  split_ifs at hp ⊢ with h
  · exact ⟨by simp [Proc.Live, h.1], rfl, rfl, rfl, rfl⟩
  · exact ⟨hp, SameShare.refl p⟩

lemma adopt_calm (k : Kernel) (c : Slot) : Calm k (adopt k c) := by
  refine Calm.mapProc fun p hp => ?_
  split_ifs at hp ⊢
  · exact ⟨hp, rfl, rfl, rfl, rfl⟩
  · exact ⟨hp, SameShare.refl p⟩

lemma reparent_calm (k : Kernel) (c : Slot) : Calm k (reparent k c) := by
  unfold reparent
  split_ifs
  · exact (adopt_calm k c).trans (wakeup1_calm _ _)
  · exact adopt_calm k c

/-- The process in slot `c` ends. -/
lemma setProc_dead {c : Slot} {p : Proc} (hp : ¬p.Live) : Calm k (k.setProc c p) :=
  Calm.setProc fun h => absurd h hp

/-- A live process changes state. -/
lemma setProc_live {c : Slot} {p : Proc} (hc : (k.proc c).Live) (hp : SameShare (k.proc c) p) :
    Calm k (k.setProc c p) :=
  Calm.setProc fun _ => ⟨hc, hp⟩

lemma exitSlot_calm (k : Kernel) (c : Slot) : Calm k (exitSlot k c) := by
  have hset : Calm k (k.setProc c { k.proc c with
      state := .zombie, qlev := noQueue, seq := -1, tick := -1, priority := -1 }) :=
    setProc_dead (by simp [Proc.Live])
  exact ⟨hset.active, hset.share⟩

lemma exit_calm {c : Slot} (h : Kernel.exit k c = some k') : Calm k k' := by
  unfold Kernel.exit at h
  split_ifs at h
  exact Calm.withLock (((wakeup1_calm _ _).trans (reparent_calm _ _)).trans (exitSlot_calm _ _)) h

lemma dispatched_calm {d : Option Slot} (h : ∀ i, d = some i → (k.proc i).state = .runnable) :
    Calm k (dispatched k d) := by
  cases d with
  | none => exact Calm.refl k
  | some i => exact setProc_live (by simp [Proc.Live, h i rfl]) ⟨rfl, rfl, rfl, rfl⟩

lemma scheduler_calm {d : Option Slot} (h : scheduler k = some (d, k')) : Calm k k' := by
  have hk : k.locked = false := by
    by_contra hne
    simp [scheduler, acquire, hne] at h
  rw [scheduler_eq hk] at h
  obtain ⟨-, rfl⟩ := Prod.mk.inj (Option.some.inj h)
  refine ((Calm.setLocked k true).trans ?_).trans (Calm.setLocked _ false)
  rcases schedulerBody_cases (k.setLocked true) with hb | ⟨d, hb, hrun⟩
  · -- monopoly mode ends
    rw [hb]
    exact ⟨fun _ => rfl, fun i hi => ⟨hi, SameShare.refl _⟩⟩
  · rw [hb]
    exact dispatched_calm hrun

lemma kill_calm {pid : ℤ} (h : kill k pid = some k') : Calm k k' := by
  refine Calm.withLock ?_ h
  cases slots.find? (fun i => ((k.setLocked true).proc i).pid = pid) with
  | none => exact Calm.refl _
  | some i =>
    refine Calm.setProc fun hlive => ⟨?_, rfl, rfl, rfl, rfl⟩
    by_cases hs : (k.proc i).state = .sleeping
    · simp [Proc.Live, hs]
    · simpa [Proc.Live, hs] using hlive

lemma sleep_calm {c : Slot} {chan : Chan} (hc : (k.proc c).Live) (h : sleep k c chan = some k') :
    Calm k k' := by
  refine Calm.withLock ?_ h
  exact setProc_live (k := k.setLocked true) hc ⟨rfl, rfl, rfl, rfl⟩

lemma yield_calm {c : Slot} (hc : (k.proc c).Live) (h : yield k c = some k') : Calm k k' := by
  refine Calm.withLock ?_ h
  exact setProc_live (k := k.setLocked true) hc ⟨rfl, rfl, rfl, rfl⟩

lemma wait_calm {c : Slot} (hc : (k.proc c).Live) (h : wait k c = some k') : Calm k k' := by
  refine Calm.withLock ?_ h
  cases slots.find? (fun i => ((k.setLocked true).proc i).parent = some c ∧
      ((k.setLocked true).proc i).state = .zombie) with
  | some i => exact setProc_dead (by simp [Proc.Live])
  | none =>
    dsimp only
    split_ifs
    · exact setProc_live (k := k.setLocked true) hc ⟨rfl, rfl, rfl, rfl⟩
    · exact Calm.refl _

/-! ### What a step does to one process -/

/-- `p'` is `p` at the end of a time slice. -/
inductive Demoted (p p' : Proc) : Prop
  | odd : p.qlev = L0 → Odd p.pid → p'.qlev = L1 → p'.tick = 0 → p'.priority = p.priority →
      Demoted p p'
  | even : p.qlev = L0 → Even p.pid → p'.qlev = L2 → p'.tick = 0 → p'.priority = p.priority →
      Demoted p p'
  | lower : p.qlev = L1 ∨ p.qlev = L2 → p'.qlev = L3 → p'.tick = 0 → p'.priority = p.priority →
      Demoted p p'
  | last : p.qlev = L3 → p'.qlev = L3 → p'.tick = 0 →
      p'.priority = (if 0 < p.priority then p.priority - 1 else p.priority) → Demoted p p'

/-- The operation is a call of `setmonopoly`. -/
def Monopolizes : Op → Prop
  | .setmonopoly _ _ _ => True
  | _ => False

/-- What an operation does to a process that is live afterwards.  The parameters tell whether
the operation boosts and whether it is a call of `setmonopoly`. -/
inductive Change (boosts monopolizes : Prop) (p p' : Proc) : Prop
  | same : p.Live → SameShare p p' → Change boosts monopolizes p p'
  | fresh : ¬p.Live → p'.qlev = L0 → p'.tick = 0 → p'.priority = 0 →
      Change boosts monopolizes p p'
  | priority : p.Live → p'.pid = p.pid → p'.qlev = p.qlev → p'.tick = p.tick →
      0 ≤ p'.priority → p'.priority ≤ 10 → Change boosts monopolizes p p'
  | monopoly : monopolizes → p.Live → p'.pid = p.pid → p'.qlev = MoQ →
      p'.priority = p.priority → Change boosts monopolizes p p'
  | boost : boosts → p.Live → p'.pid = p.pid → p.qlev ≠ MoQ → p'.qlev = L0 →
      p'.tick = 0 → p'.priority = p.priority → Change boosts monopolizes p p'
  | count : p.Live → p'.pid = p.pid → p'.qlev = p.qlev → p'.tick = int32 (p.tick + 1) →
      p'.priority = p.priority → (p.qlev ≤ L3 → ¬sliceOver p') → Change boosts monopolizes p p'
  | demote : p.Live → p'.pid = p.pid → Demoted p p' → Change boosts monopolizes p p'

/-- Every process that is live after the operation changed as listed, and monopoly mode stays
off. -/
structure Changes (boosts monopolizes : Prop) (k k' : Kernel) : Prop where
  active : k.moqActive = 0 → k'.moqActive = 0
  change : ∀ i, (k'.proc i).Live → Change boosts monopolizes (k.proc i) (k'.proc i)

variable {boosts monopolizes : Prop}

lemma Calm.changes (h : Calm k k') : Changes boosts monopolizes k k' := by
  refine ⟨h.active, fun i hi => ?_⟩
  obtain ⟨hlive, hshare⟩ := h.share i hi
  exact Change.same hlive hshare

/-- A change survives a calm one after it. -/
lemma Change.then_same {p p₁ p' : Proc} (h : Change boosts monopolizes p p₁)
    (hs : SameShare p₁ p') : Change boosts monopolizes p p' := by
  obtain ⟨hpid, hq, ht, hprio⟩ := hs
  have hslice : sliceOver p' ↔ sliceOver p₁ := by simp only [sliceOver, hq, ht]
  cases h with
  | same hl hs₁ => exact .same hl (hs₁.trans ⟨hpid, hq, ht, hprio⟩)
  | fresh hl h₁ h₂ h₃ => exact .fresh hl (hq.trans h₁) (ht.trans h₂) (hprio.trans h₃)
  | priority hl h₁ h₂ h₃ h₄ h₅ =>
    exact .priority hl (hpid.trans h₁) (hq.trans h₂) (ht.trans h₃) (hprio ▸ h₄) (hprio ▸ h₅)
  | monopoly hm hl h₁ h₂ h₃ =>
    exact .monopoly hm hl (hpid.trans h₁) (hq.trans h₂) (hprio.trans h₃)
  | boost hb hl h₁ h₂ h₃ h₄ h₅ =>
    exact .boost hb hl (hpid.trans h₁) h₂ (hq.trans h₃) (ht.trans h₄) (hprio.trans h₅)
  | count hl h₁ h₂ h₃ h₄ h₅ =>
    exact .count hl (hpid.trans h₁) (hq.trans h₂) (ht.trans h₃) (hprio.trans h₄)
      fun hle => hslice.not.mpr (h₅ hle)
  | demote hl h₁ hd =>
    refine .demote hl (hpid.trans h₁) ?_
    cases hd with
    | odd a b c d e => exact .odd a b (hq.trans c) (ht.trans d) (hprio.trans e)
    | even a b c d e => exact .even a b (hq.trans c) (ht.trans d) (hprio.trans e)
    | lower a b c d => exact .lower a (hq.trans b) (ht.trans c) (hprio.trans d)
    | last a b c d => exact .last a (hq.trans b) (ht.trans c) (hprio.trans d)

lemma Changes.then_calm (h : Changes boosts monopolizes k k₁) (hc : Calm k₁ k') :
    Changes boosts monopolizes k k' := by
  refine ⟨fun h₀ => hc.active (h.active h₀), fun i hi => ?_⟩
  obtain ⟨hlive, hshare⟩ := hc.share i hi
  exact (h.change i hlive).then_same hshare

/-- The lock word is no part of a change. -/
lemma Changes.of_setLocked {b : Bool} (h : Changes boosts monopolizes (k.setLocked b) k') :
    Changes boosts monopolizes k k' :=
  ⟨h.active, h.change⟩

lemma Changes.withLock {f : Kernel → Kernel}
    (hf : Changes boosts monopolizes (k.setLocked true) (f (k.setLocked true)))
    (h : withLock k f = some k') : Changes boosts monopolizes k k' := by
  obtain ⟨-, rfl⟩ := withLock_eq_some.mp h
  exact hf.of_setLocked.then_calm (Calm.setLocked _ false)

/-- One process changes. -/
lemma Changes.setProc {i : Slot} {p : Proc}
    (h : p.Live → Change boosts monopolizes (k.proc i) p) :
    Changes boosts monopolizes k (k.setProc i p) := by
  refine ⟨id, fun j hj => ?_⟩
  rcases eq_or_ne j i with rfl | hne
  · rw [setProc_proc, Function.update_self] at hj ⊢
    exact h hj
  · rw [setProc_proc, Function.update_of_ne hne] at hj ⊢
    exact .same hj (SameShare.refl _)

/-! ### `allocproc`, `userinit` and `fork` -/

/-- The slot that `allocproc` takes starts in `L0`. -/
lemma allocSlot_changes {i : Slot} (hi : (k.proc i).state = .unused) :
    Changes boosts monopolizes k (allocSlot k i) := by
  have hset : Changes boosts monopolizes k (k.setProc i ((allocSlot k i).proc i)) := by
    refine Changes.setProc fun _ => ?_
    rw [allocSlot_proc, Function.update_self]
    exact .fresh (by simp [Proc.Live, hi]) rfl rfl rfl
  have hproc : (k.setProc i ((allocSlot k i).proc i)).proc = (allocSlot k i).proc := by
    rw [setProc_proc, allocSlot_proc, Function.update_self]
  exact hset.then_calm (Calm.of_eq rfl hproc.symm)

lemma allocproc_changes {o : Option Slot} (h : allocproc k = some (o, k')) :
    Changes boosts monopolizes k k' ∧ ∀ i, o = some i → (k'.proc i).Live := by
  obtain ⟨ka, ha, h⟩ := Option.map_eq_some_iff.mp h
  obtain ⟨-, rfl⟩ := acquire_eq_some.mp ha
  cases hfind : slots.find? (fun i => ((k.setLocked true).proc i).state = .unused) with
  | none =>
    rw [hfind] at h
    obtain ⟨rfl, rfl⟩ := Prod.mk.inj h
    exact ⟨((Calm.setLocked k true).trans (Calm.setLocked _ false)).changes, by simp⟩
  | some i =>
    rw [hfind] at h
    obtain ⟨rfl, rfl⟩ := Prod.mk.inj h
    have hi := List.find?_some hfind
    rw [decide_eq_true_eq] at hi
    refine ⟨(allocSlot_changes hi).of_setLocked.then_calm (Calm.setLocked _ false), ?_⟩
    intro j hj
    obtain rfl := Option.some.inj hj
    simp [release, Proc.Live]

lemma userinit_changes (h : userinit k = some k') : Changes boosts monopolizes k k' := by
  obtain ⟨⟨o, ka⟩, hal, h⟩ := Option.bind_eq_some_iff.mp h
  obtain ⟨hch, hlive⟩ := allocproc_changes hal
  cases o with
  | none => exact absurd h (by simp)
  | some i =>
    have hinit : Calm ka (ka.setInitproc i) := Calm.of_eq rfl rfl
    refine (hch.then_calm hinit).then_calm (Calm.withLock ?_ h)
    exact setProc_live (k := (ka.setInitproc i).setLocked true) (hlive i rfl) ⟨rfl, rfl, rfl, rfl⟩

/-- The field `np` has no part in scheduling. -/
lemma setNp_calm (k : Kernel) (c : Slot) (o : Option Slot) :
    Calm k (k.setProc c { k.proc c with np := o }) :=
  Calm.setProc fun h => ⟨h, rfl, rfl, rfl, rfl⟩

lemma forkDone_calm {c i : Slot} (hi : (k.proc i).Live) (h : forkDone k c i = some k') :
    Calm k k' := by
  have hset : Calm k (k.setProc i { k.proc i with parent := some c }) :=
    setProc_live hi ⟨rfl, rfl, rfl, rfl⟩
  refine hset.trans (Calm.withLock ?_ h)
  refine Calm.setProc fun _ => ⟨?_, rfl, rfl, rfl, rfl⟩
  rw [setLocked_proc, setProc_proc, Function.update_self]
  exact hi

/-! ### `setpriority` and `setmonopoly` -/

lemma setpriority_changes {pid priority r : ℤ} (h : setpriority k pid priority = some (r, k')) :
    Changes boosts monopolizes k k' := by
  unfold setpriority at h
  split_ifs at h with hrange
  · obtain ⟨-, rfl⟩ := Prod.mk.inj (Option.some.inj h)
    exact (Calm.refl k).changes
  · obtain ⟨o, -, ho⟩ := Option.map_eq_some_iff.mp h
    cases o with
    | none =>
      obtain ⟨-, rfl⟩ := Prod.mk.inj ho
      exact (Calm.refl k).changes
    | some i =>
      obtain ⟨-, rfl⟩ := Prod.mk.inj ho
      push Not at hrange
      exact Changes.setProc fun hlive => .priority hlive rfl rfl rfl hrange.1 hrange.2

/-- The loop of `setmonopoly` leaves a process alone or moves it to the MoQ. -/
lemma setmonopolyLoop_proc (c : Slot) (pid : ℤ) (l : List Slot) :
    ∀ (found : Bool) (k k' : Kernel) (r : ℤ ⊕ Bool), setmonopolyLoop c pid l found k = (r, k') →
      k'.moqActive = k.moqActive ∧ ∀ j, k'.proc j = k.proc j ∨
        ∃ n, k'.proc j = { k.proc j with qlev := MoQ, seq := n } := by
  induction l with
  | nil =>
    intro found k k' r h
    obtain ⟨-, rfl⟩ := Prod.mk.inj h
    exact ⟨rfl, fun j => Or.inl rfl⟩
  | cons i l ih =>
    intro found k k' r h
    rw [setmonopolyLoop] at h
    split_ifs at h
    · obtain ⟨-, rfl⟩ := Prod.mk.inj h
      exact ⟨rfl, fun j => Or.inl rfl⟩
    · obtain ⟨-, rfl⟩ := Prod.mk.inj h
      exact ⟨rfl, fun j => Or.inl rfl⟩
    · -- slot `i` moves to the MoQ, and the rest of the loop may find it again
      obtain ⟨hactive, hproc⟩ := ih _ _ _ _ h
      refine ⟨hactive, fun j => ?_⟩
      have hslot : (monopolySlot k i).proc =
          Function.update k.proc i { k.proc i with qlev := MoQ, seq := k.moqCnt } := rfl
      rcases eq_or_ne j i with rfl | hne
      · rcases hproc j with hj | ⟨n, hj⟩
        · exact Or.inr ⟨k.moqCnt, by rw [hj, hslot, Function.update_self]⟩
        · exact Or.inr ⟨n, by rw [hj, hslot, Function.update_self]⟩
      · rcases hproc j with hj | ⟨n, hj⟩
        · exact Or.inl (by rw [hj, hslot, Function.update_of_ne hne])
        · exact Or.inr ⟨n, by rw [hj, hslot, Function.update_of_ne hne]⟩
    · exact ih _ _ _ _ h

lemma setmonopoly_changes {c : Slot} {pid pw r : ℤ} (h : setmonopoly k c pid pw = some (r, k')) :
    Changes boosts True k k' := by
  unfold setmonopoly at h
  split_ifs at h with hpw
  · obtain ⟨-, rfl⟩ := Prod.mk.inj (Option.some.inj h)
    exact (Calm.refl k).changes
  · obtain ⟨ka, ha, h⟩ := Option.map_eq_some_iff.mp h
    obtain ⟨-, rfl⟩ := acquire_eq_some.mp ha
    obtain ⟨r', km, hloop⟩ : ∃ r' km,
        setmonopolyLoop c pid slots false (k.setLocked true) = (r', km) := ⟨_, _, rfl⟩
    rw [hloop] at h
    obtain ⟨hactive, hproc⟩ := setmonopolyLoop_proc c pid slots _ _ _ _ hloop
    have hkm : Changes boosts True k km := by
      refine ⟨fun h₀ => hactive.trans h₀, fun j hj => ?_⟩
      rw [setLocked_proc] at hproc
      rcases hproc j with hjk | ⟨n, hjk⟩
      · rw [hjk] at hj ⊢
        exact .same hj (SameShare.refl _)
      · rw [hjk] at hj ⊢
        exact .monopoly trivial hj rfl rfl rfl
    cases r' with
    | inl r' =>
      obtain ⟨-, rfl⟩ := Prod.mk.inj h
      exact hkm
    | inr b =>
      obtain ⟨-, rfl⟩ := Prod.mk.inj h
      exact hkm.then_calm (Calm.setLocked _ false)

/-! ### The boost and the timer tick -/

lemma boost_changes (k : Kernel) : Changes True monopolizes k (boost k) := by
  refine ⟨id, fun j hj => ?_⟩
  rw [boost_proc] at hj ⊢
  split_ifs at hj ⊢ with hq
  · exact .same hj (SameShare.refl _)
  · exact .boost trivial hj rfl hq rfl rfl rfl

lemma priorityBoost_changes (h : priorityBoost k = some k') :
    Changes True monopolizes k k' :=
  Changes.withLock (boost_changes _) h

lemma tmod_two_ne_zero {n : ℤ} : n.tmod 2 ≠ 0 ↔ Odd n := by
  rw [← Int.not_even_iff_odd, even_iff_two_dvd, Int.dvd_iff_tmod_eq_zero]

/-- The process in slot `c` at the end of its time slice. -/
lemma demote_proc (k : Kernel) (c : Slot) : ∃ p', (demote k c).proc = Function.update k.proc c p' ∧
    p'.state = (k.proc c).state ∧ p'.pid = (k.proc c).pid ∧
      (Demoted (k.proc c) p' ∨ p' = k.proc c ∧ L3 < (k.proc c).qlev) := by
  unfold demote
  dsimp only
  split_ifs with h₀ hpid h₁₂ h₃ hprio
  · exact ⟨_, incLevCnt_proc _ _, rfl, rfl, Or.inl (.odd h₀ (tmod_two_ne_zero.mp hpid) rfl rfl rfl)⟩
  · exact ⟨_, incLevCnt_proc _ _, rfl, rfl, Or.inl (.even h₀
      (Int.not_odd_iff_even.mp fun hn => hpid (tmod_two_ne_zero.mpr hn)) rfl rfl rfl)⟩
  · exact ⟨_, incLevCnt_proc _ _, rfl, rfl, Or.inl (.lower h₁₂ rfl rfl rfl)⟩
  · exact ⟨_, rfl, rfl, rfl, Or.inl (.last h₃ h₃ rfl (by rw [if_pos hprio]))⟩
  · exact ⟨_, rfl, rfl, rfl, Or.inl (.last h₃ h₃ rfl (by rw [if_neg hprio]))⟩
  · refine ⟨k.proc c, (Function.update_eq_self c k.proc).symm, rfl, rfl, Or.inr ⟨rfl, ?_⟩⟩
    simp only [L0, L1, L2, L3] at h₀ h₁₂ h₃ ⊢
    omega

lemma demote_moqActive (k : Kernel) (c : Slot) : (demote k c).moqActive = k.moqActive := by
  have hinc : ∀ (k : Kernel) (q : ℤ), (incLevCnt k q).moqActive = k.moqActive := by
    intro k q
    unfold incLevCnt
    split_ifs <;> rfl
  unfold demote
  dsimp only
  split_ifs <;>
    first
    | exact hinc _ _
    | rfl

/-- The used ticks have no part in what the end of the time slice does. -/
lemma Demoted.congr {p p₁ p' : Proc} (hq : p₁.qlev = p.qlev) (hpid : p₁.pid = p.pid)
    (hprio : p₁.priority = p.priority) (h : Demoted p₁ p') : Demoted p p' := by
  cases h with
  | odd a b c d e => exact .odd (hq ▸ a) (hpid ▸ b) c d (e.trans hprio)
  | even a b c d e => exact .even (hq ▸ a) (hpid ▸ b) c d (e.trans hprio)
  | lower a b c d => exact .lower (hq ▸ a) b c (d.trans hprio)
  | last a b c d => exact .last (hq ▸ a) b c (hprio ▸ d)

/-- A change survives a calm one before it. -/
lemma Change.after_same {p p₁ p' : Proc} (hlive : p₁.Live ↔ p.Live) (hs : SameShare p p₁)
    (h : Change boosts monopolizes p₁ p') : Change boosts monopolizes p p' := by
  obtain ⟨hpid, hq, ht, hprio⟩ := hs
  cases h with
  | same hl hs₁ => exact .same (hlive.mp hl) (SameShare.trans ⟨hpid, hq, ht, hprio⟩ hs₁)
  | fresh hl h₁ h₂ h₃ => exact .fresh (hlive.not.mp hl) h₁ h₂ h₃
  | priority hl h₁ h₂ h₃ h₄ h₅ =>
    exact .priority (hlive.mp hl) (h₁.trans hpid) (h₂.trans hq) (h₃.trans ht) h₄ h₅
  | monopoly hm hl h₁ h₂ h₃ =>
    exact .monopoly hm (hlive.mp hl) (h₁.trans hpid) h₂ (h₃.trans hprio)
  | boost hb hl h₁ h₂ h₃ h₄ h₅ =>
    exact .boost hb (hlive.mp hl) (h₁.trans hpid) (hq ▸ h₂) h₃ h₄ (h₅.trans hprio)
  | count hl h₁ h₂ h₃ h₄ h₅ =>
    exact .count (hlive.mp hl) (h₁.trans hpid) (h₂.trans hq) (ht ▸ h₃) (h₄.trans hprio) (hq ▸ h₅)
  | demote hl h₁ hd =>
    exact .demote (hlive.mp hl) (h₁.trans hpid) (hd.congr hq hpid hprio)

/-- A tick that is counted: the time slice of process `c` ends, or it is not over. -/
lemma countTick_changes {c : Slot} (hc : (k.proc c).state = .running)
    (h : (if ((countTick k c).proc c).qlev ≠ MoQ ∧ sliceOver ((countTick k c).proc c) then
      yield (demote (countTick k c) c) c else some (countTick k c)) = some k') :
    Changes boosts monopolizes k k' := by
  have hlive : (k.proc c).Live := live_of_running hc
  obtain ⟨p, hp⟩ : ∃ p, p = { k.proc c with tick := int32 ((k.proc c).tick + 1) } := ⟨_, rfl⟩
  have hproc : (countTick k c).proc = Function.update k.proc c p := by rw [hp]; rfl
  have hcp : (countTick k c).proc c = p := by rw [hproc, Function.update_self]
  rw [hcp] at h
  split_ifs at h with hover
  · -- the slice is over
    obtain ⟨p', hproc', hstate, hpid, hd⟩ := demote_proc (countTick k c) c
    rw [hcp] at hstate hpid hd
    have hdem : Changes boosts monopolizes k (k.setProc c p') := by
      refine Changes.setProc fun _ => ?_
      rcases hd with hd | ⟨rfl, hout⟩
      · refine .demote hlive (hpid.trans (by rw [hp])) (hd.congr ?_ ?_ ?_) <;> rw [hp]
      · rw [hp] at hout ⊢
        exact .count hlive rfl rfl rfl rfl fun hle => absurd hout (not_lt.mpr hle)
    have heq : (demote (countTick k c) c).proc = (k.setProc c p').proc := by
      rw [hproc', hproc, Function.update_idem, setProc_proc]
    have hd' : Changes boosts monopolizes k (demote (countTick k c) c) := by
      refine hdem.then_calm (Calm.of_eq ?_ heq)
      exact demote_moqActive _ c
    refine hd'.then_calm (yield_calm ?_ h)
    rw [heq, setProc_proc, Function.update_self]
    simp [Proc.Live, hstate, hp, hc]
  · obtain rfl := Option.some.inj h
    have hcount : Changes boosts monopolizes k (k.setProc c p) := by
      refine Changes.setProc fun _ => ?_
      rw [hp] at hover ⊢
      refine .count hlive rfl rfl rfl rfl fun hle hs => hover ⟨?_, hs⟩
      have hle' : (k.proc c).qlev ≤ 3 := hle
      have hne : (k.proc c).qlev ≠ 4 := by omega
      exact hne
    exact hcount.then_calm (Calm.of_eq rfl hproc)

/-- A tick that is counted and boosts. -/
lemma countTick_boost_changes {c : Slot} (hc : (k.proc c).state = .running)
    (h : priorityBoost ((countTick k c).setGlobalTick 0) = some k') :
    Changes True monopolizes k k' := by
  have hb : Changes True monopolizes ((countTick k c).setGlobalTick 0) k' :=
    priorityBoost_changes h
  refine ⟨hb.active, fun j hj => ?_⟩
  rcases eq_or_ne j c with rfl | hne
  · obtain ⟨-, rfl⟩ := withLock_eq_some.mp h
    rw [setLocked_proc, boost_proc] at hj ⊢
    have hproc : ((((countTick k j).setGlobalTick 0).setLocked true).proc j) =
        { k.proc j with tick := int32 ((k.proc j).tick + 1) } := Function.update_self ..
    rw [hproc] at hj ⊢
    split_ifs at hj ⊢ with hq
    · refine .count (live_of_running hc) rfl rfl rfl rfl fun hle => absurd hle ?_
      have hq' : (k.proc j).qlev = MoQ := hq
      rw [hq']
      decide
    · exact .boost trivial (live_of_running hc) rfl hq rfl rfl rfl
  · have hproc : (((countTick k c).setGlobalTick 0).proc j) = k.proc j :=
      Function.update_of_ne hne _ _
    have hch := hb.change j hj
    rwa [hproc] at hch

/-- The timer interrupt outside monopoly mode. -/
lemma timerTrap_changes {c : Slot} {user : Bool} (hc : (k.proc c).state = .running)
    (hoff : k.moqActive = 0) (h : timerTrap k c user = some k') :
    Changes (Boosts k (.tick c user)) monopolizes k k' := by
  obtain ⟨kw, hw, h⟩ := Option.bind_eq_some_iff.mp h
  obtain ⟨-, rfl⟩ := withLock_eq_some.mp hw
  have hcalm : Calm k ((wakeup1 (k.setLocked true) .ticks).setLocked false) :=
    ((Calm.setLocked k true).trans (wakeup1_calm _ _)).trans (Calm.setLocked _ false)
  have hlive : ∀ i, (((wakeup1 (k.setLocked true) .ticks).setLocked false).proc i).Live ↔
      (k.proc i).Live := (wakeup1_keeps (k.setLocked true) .ticks).1.live
  have hact : ((wakeup1 (k.setLocked true) .ticks).setLocked false).moqActive = 0 := hoff
  have htick : ((wakeup1 (k.setLocked true) .ticks).setLocked false).globalTick = k.globalTick :=
    rfl
  have hcw : ((wakeup1 (k.setLocked true) .ticks).setLocked false).proc c = k.proc c := by
    simp [wakeup1, hc]
  generalize (wakeup1 (k.setLocked true) .ticks).setLocked false = kw at h hcalm hlive hact htick hcw
  have hrun : (kw.proc c).state = .running := by rw [hcw, hc]
  -- the wakeup before the rest changes nothing that counts
  have hafter : Changes (Boosts k (.tick c user)) monopolizes kw k' →
      Changes (Boosts k (.tick c user)) monopolizes k k' := by
    intro hrest
    refine ⟨fun _ => hrest.active hact, fun j hj => ?_⟩
    by_cases hj' : (kw.proc j).Live
    · exact (hrest.change j hj).after_same (hlive j) (hcalm.share j hj').2
    · have hnot : ¬(k.proc j).Live := (hlive j).not.mp hj'
      cases hrest.change j hj with
      | fresh _ h₁ h₂ h₃ => exact .fresh hnot h₁ h₂ h₃
      | same hl | priority hl | monopoly _ hl | boost _ hl | count hl | demote hl =>
        exact absurd hl hj'
  apply hafter
  split_ifs at h with hkill
  · exact (exit_calm h).changes
  · dsimp only at h
    rw [if_neg (by rw [countTick, setGlobalTick_moqActive, setProc_moqActive]; simp [hact])] at h
    obtain ⟨kb, hb, h⟩ := Option.bind_eq_some_iff.mp h
    unfold boostTick at hb
    split_ifs at hb with hge
    · -- a boost, after which the time slice is not over
      have hslice : ∀ c, (kb.proc c).qlev ≠ MoQ → ¬sliceOver (kb.proc c) := by
        obtain ⟨-, rfl⟩ := withLock_eq_some.mp hb
        exact fun c hq => not_sliceOver_boost _ c hq
      rw [if_neg fun hover => hslice c hover.1 hover.2] at h
      obtain rfl := Option.some.inj h
      have hboosts : Boosts k (.tick c user) := by
        refine ⟨by rwa [hcw] at hkill, hoff, ?_⟩
        rwa [countTick, setGlobalTick_globalTick, htick] at hge
      have hch : Changes True monopolizes kw kb := countTick_boost_changes hrun hb
      rwa [show True = Boosts k (.tick c user) from (eq_true hboosts).symm] at hch
    · obtain rfl := Option.some.inj hb
      exact countTick_changes hrun h

/-! ### One step -/

/-- What a step does outside monopoly mode. -/
lemma step_changes (hf : Forks k) (hoff : k.moqActive = 0) {op : Op} (hop : ∀ c, op ≠ .monopolize c)
    (h : Step k op k') : Changes (Boosts k op) (Monopolizes op) k k' := by
  simp only [Step] at h
  cases op with
  | userinit =>
    simp only [step] at h
    split_ifs at h
    exact userinit_changes h
  | scheduler =>
    simp only [step] at h
    obtain ⟨⟨d, ks⟩, hs, rfl⟩ := Option.map_eq_some_iff.mp h
    exact (scheduler_calm hs).changes
  | forkAlloc c =>
    simp only [step] at h
    split_ifs at h with hc
    obtain ⟨⟨o, ka⟩, hal, hk'⟩ := Option.map_eq_some_iff.mp h
    have hch : Changes (Boosts k (.forkAlloc c)) (Monopolizes (.forkAlloc c)) k ka :=
      (allocproc_changes hal).1
    cases o with
    | none => exact hk' ▸ hch
    | some i => exact hk' ▸ hch.then_calm (setNp_calm ka c (some i))
  | forkFail c =>
    simp only [step] at h
    split_ifs at h with hc
    obtain ⟨i, hci, rfl⟩ := Option.map_eq_some_iff.mp h
    exact ((setNp_calm k c none).trans (setProc_dead (by simp [Proc.Live]))).changes
  | forkDone c =>
    simp only [step] at h
    split_ifs at h with hc
    obtain ⟨i, hci, h⟩ := Option.bind_eq_some_iff.mp h
    have hlive : ((k.setProc c { k.proc c with np := none }).proc i).Live := by
      have hemb := hf.embryo c i hci
      rcases eq_or_ne i c with rfl | hne
      · simp [Proc.Live, hemb]
      · simp [Proc.Live, Function.update_of_ne hne, hemb]
    exact ((setNp_calm k c none).trans (forkDone_calm hlive h)).changes
  | exit c =>
    simp only [step] at h
    split_ifs at h
    exact (exit_calm h).changes
  | wait c =>
    simp only [step] at h
    split_ifs at h with hc
    exact (wait_calm (live_of_running hc.1) h).changes
  | kill c pid =>
    simp only [step] at h
    split_ifs at h
    exact (kill_calm h).changes
  | sleep c chan =>
    simp only [step] at h
    split_ifs at h with hc
    exact (sleep_calm (live_of_running hc.1) h).changes
  | wakeup chan =>
    simp only [step] at h
    exact (Calm.withLock (wakeup1_calm _ _) h).changes
  | yield c =>
    simp only [step] at h
    split_ifs at h with hc
    exact (yield_calm (live_of_running hc.1) h).changes
  | tick c user =>
    simp only [step] at h
    split_ifs at h with hc
    exact timerTrap_changes hc.1 hoff h
  | priorityBoost => exact priorityBoost_changes h
  | setpriority c pid priority =>
    simp only [step] at h
    split_ifs at h
    obtain ⟨⟨r, ks⟩, hs, rfl⟩ := Option.map_eq_some_iff.mp h
    exact setpriority_changes hs
  | setmonopoly c pid pw =>
    simp only [step] at h
    split_ifs at h
    obtain ⟨⟨r, ks⟩, hs, rfl⟩ := Option.map_eq_some_iff.mp h
    exact setmonopoly_changes hs
  | monopolize c => exact absurd rfl (hop c)
  | unmonopolize c =>
    simp only [step] at h
    split_ifs at h
    obtain rfl := Option.some.inj h
    exact Calm.changes ⟨fun _ => rfl, fun i hi => ⟨hi, SameShare.refl _⟩⟩

/-! ### Runs -/

/-- The levels, ticks and priorities that a live process can have. -/
structure Proc.LevelOk (p : Proc) : Prop where
  level : p.qlev ∈ [L0, L1, L2, L3, MoQ]
  priority : 0 ≤ p.priority ∧ p.priority ≤ 10
  slice : p.qlev ≠ MoQ → 0 ≤ p.tick ∧ p.tick < 2 * p.qlev + 2
  odd : p.qlev = L1 → Odd p.pid
  even : p.qlev = L2 → Even p.pid

/-- How the level of a live process can change in one operation. -/
inductive LevelChange (k : Kernel) (op : Op) (p p' : Proc) : Prop
  | same : p'.qlev = p.qlev → LevelChange k op p p'
  | odd : p.qlev = L0 → Odd p.pid → p'.qlev = L1 → LevelChange k op p p'
  | even : p.qlev = L0 → Even p.pid → p'.qlev = L2 → LevelChange k op p p'
  | lower : p.qlev = L1 ∨ p.qlev = L2 → p'.qlev = L3 → LevelChange k op p p'
  | boost : Boosts k op → p.qlev ≠ MoQ → p'.qlev = L0 → LevelChange k op p p'
  | monopoly : Monopolizes op → p'.qlev = MoQ → LevelChange k op p p'

lemma Change.levelChange {op : Op} {p p' : Proc} (hlive : p.Live)
    (h : Change (Boosts k op) (Monopolizes op) p p') :
    p'.pid = p.pid ∧ LevelChange k op p p' := by
  cases h with
  | same _ hs => exact ⟨hs.pid, .same hs.qlev⟩
  | fresh hn => exact absurd hlive hn
  | priority _ hpid hq => exact ⟨hpid, .same hq⟩
  | monopoly hm _ hpid hq => exact ⟨hpid, .monopoly hm hq⟩
  | boost hb _ hpid hq hq' => exact ⟨hpid, .boost hb hq hq'⟩
  | count _ hpid hq => exact ⟨hpid, .same hq⟩
  | demote _ hpid hd =>
    refine ⟨hpid, ?_⟩
    cases hd with
    | odd hq ho hq' => exact .odd hq ho hq'
    | even hq he hq' => exact .even hq he hq'
    | lower hq hq' => exact .lower hq hq'
    | last hq hq' => exact .same (hq'.trans hq.symm)

/-- No change of level leaves the MoQ. -/
lemma LevelChange.moQ {op : Op} {p p' : Proc} (h : LevelChange k op p p') (hq : p.qlev = MoQ) :
    p'.qlev = MoQ := by
  cases h with
  | same h => exact h.trans hq
  | odd h => exact absurd (h.symm.trans hq) (by decide)
  | even h => exact absurd (h.symm.trans hq) (by decide)
  | lower h =>
    rcases h with h | h
    · exact absurd (h.symm.trans hq) (by decide)
    · exact absurd (h.symm.trans hq) (by decide)
  | boost _ h => exact absurd hq h
  | monopoly _ h => exact h

/-- A process at the start of a time slice. -/
lemma LevelOk.start {p : Proc} (hlevel : p.qlev ∈ [L0, L1, L2, L3, MoQ])
    (hprio : 0 ≤ p.priority ∧ p.priority ≤ 10) (htick : p.tick = 0)
    (hodd : p.qlev = L1 → Odd p.pid) (heven : p.qlev = L2 → Even p.pid) : p.LevelOk :=
  ⟨hlevel, hprio, fun _ => by omega, hodd, heven⟩

lemma Demoted.levelOk {p p' : Proc} (hp : p.LevelOk) (hpid : p'.pid = p.pid) (h : Demoted p p') :
    p'.LevelOk := by
  obtain ⟨h₀, h₁⟩ := hp.priority
  cases h with
  | odd _ ho hq ht hprio =>
    refine LevelOk.start (by simp [hq]) (by omega) ht (fun _ => hpid ▸ ho) fun h => ?_
    exact absurd (hq.symm.trans h) (by decide)
  | even _ he hq ht hprio =>
    refine LevelOk.start (by simp [hq]) (by omega) ht (fun h => ?_) fun _ => hpid ▸ he
    exact absurd (hq.symm.trans h) (by decide)
  | lower _ hq ht hprio =>
    refine LevelOk.start (by simp [hq]) (by omega) ht (fun h => ?_) fun h => ?_
    · exact absurd (hq.symm.trans h) (by decide)
    · exact absurd (hq.symm.trans h) (by decide)
  | last _ hq ht hprio =>
    refine LevelOk.start (by simp [hq]) ?_ ht (fun h => ?_) fun h => ?_
    · rw [hprio]
      split_ifs <;> omega
    · exact absurd (hq.symm.trans h) (by decide)
    · exact absurd (hq.symm.trans h) (by decide)

/-- A counted tick that does not end the time slice. -/
lemma slice_of_not_sliceOver {p p' : Proc} (hq : p.qlev ≤ L3)
    (ht : 0 ≤ p.tick ∧ p.tick < 2 * p.qlev + 2) (hq' : p'.qlev = p.qlev)
    (ht' : p'.tick = int32 (p.tick + 1)) (h : ¬sliceOver p') :
    0 ≤ p'.tick ∧ p'.tick < 2 * p'.qlev + 2 := by
  have hle : p.qlev ≤ 3 := hq
  have heq : p'.tick = p.tick + 1 := by rw [ht', int32_of_bounds] <;> omega
  simp only [sliceOver, toUint, hq', heq] at h
  rw [hq', heq]
  omega

lemma Change.levelOk {p p' : Proc} (hp : p.Live → p.LevelOk)
    (h : Change boosts monopolizes p p') : p'.LevelOk := by
  cases h with
  | same hl hs =>
    obtain ⟨hlevel, hprio, hslice, hodd, heven⟩ := hp hl
    obtain ⟨hpid, hq, ht, hpr⟩ := hs
    refine ⟨?_, ?_, ?_, ?_, ?_⟩ <;> simp only [hpid, hq, ht, hpr] <;> assumption
  | fresh _ hq ht hpr =>
    refine LevelOk.start (by simp [hq]) (by simp [hpr]) ht (fun h => ?_) fun h => ?_
    · exact absurd (hq.symm.trans h) (by decide)
    · exact absurd (hq.symm.trans h) (by decide)
  | priority hl hpid hq ht h₀ h₁ =>
    obtain ⟨hlevel, -, hslice, hodd, heven⟩ := hp hl
    refine ⟨?_, ⟨h₀, h₁⟩, ?_, ?_, ?_⟩ <;> simp only [hpid, hq, ht] <;> assumption
  | monopoly _ hl _ hq hpr =>
    refine ⟨by simp [hq], by rw [hpr]; exact (hp hl).priority, fun h => absurd hq h, fun h => ?_,
      fun h => ?_⟩
    · exact absurd (hq.symm.trans h) (by decide)
    · exact absurd (hq.symm.trans h) (by decide)
  | boost _ hl _ _ hq ht hpr =>
    refine LevelOk.start (by simp [hq]) (by rw [hpr]; exact (hp hl).priority) ht (fun h => ?_)
      fun h => ?_
    · exact absurd (hq.symm.trans h) (by decide)
    · exact absurd (hq.symm.trans h) (by decide)
  | count hl hpid hq ht hpr hover =>
    obtain ⟨hlevel, hprio, hslice, hodd, heven⟩ := hp hl
    refine ⟨hq ▸ hlevel, hpr ▸ hprio, fun hne => ?_, hpid ▸ hq ▸ hodd, hpid ▸ hq ▸ heven⟩
    rw [hq] at hne
    have hle : p.qlev ≤ L3 := by
      simp only [List.mem_cons, List.not_mem_nil, or_false] at hlevel
      rcases hlevel with h | h | h | h | h
      · simp [h, L0, L3]
      · simp [h, L1, L3]
      · simp [h, L2, L3]
      · exact h.le
      · exact absurd h hne
    exact slice_of_not_sliceOver hle (hslice hne) hq ht (hover hle)
  | demote hl hpid hd => exact hd.levelOk (hp hl) hpid

/-- Monopoly mode is not switched on. -/
def NoMonopolize (_ : Kernel) : Op → Prop
  | .monopolize _ => False
  | _ => True

instance (k : Kernel) (op : Op) : Decidable (NoMonopolize k op) :=
  match op with
  | .monopolize _ => inferInstanceAs (Decidable False)
  | .userinit | .scheduler | .forkAlloc _ | .forkFail _ | .forkDone _ | .exit _ | .wait _
  | .kill _ _ | .sleep _ _ | .wakeup _ | .yield _ | .tick _ _ | .priorityBoost
  | .setpriority _ _ _ | .setmonopoly _ _ _ | .unmonopolize _ => inferInstanceAs (Decidable True)

/-- The states of runs in which monopoly mode is never switched on. -/
def LevelReach : Kernel → Prop := Reachable (· = pinit) (Guarded Step NoMonopolize)

/-- The invariant of these runs. -/
structure LevelInv (k : Kernel) : Prop where
  forks : Forks k
  off : k.moqActive = 0
  ok : ∀ i, (k.proc i).Live → (k.proc i).LevelOk

lemma LevelInv.changes (h : LevelInv k) {op : Op} (hs : Guarded Step NoMonopolize k op k') :
    Changes (Boosts k op) (Monopolizes op) k k' := by
  refine step_changes h.forks h.off (fun c hop => ?_) hs.1
  subst hop
  exact hs.2

lemma LevelReach.inv (h : LevelReach k) : LevelInv k := by
  refine h.invariant ?_ ?_
  · rintro k rfl
    refine ⟨forks_pinit, rfl, fun i hi => ?_⟩
    exact absurd hi (by simp [Kernel.pinit, Proc.zero, Proc.Live])
  · intro k op k' hk hs
    have hch := hk.changes hs
    exact ⟨(step_effect hk.forks hs.1).1, hch.active hk.off,
      fun i hi => (hch.change i hi).levelOk (hk.ok i)⟩

/-- **The state of the multilevel feedback queue.**  In every run that never switches monopoly
mode on, every live process has a level, a priority within bounds and, outside the MoQ, ticks
left in its time slice; in `L1` its pid is odd and in `L2` even.  A process starts in `L0`, its
level changes only as `LevelChange` lists, and it stays in the MoQ. -/
theorem levelOk_of_reach (h : LevelReach k) :
    (∀ i, (k.proc i).Live → (k.proc i).LevelOk) ∧
      ∀ op k', Guarded Step NoMonopolize k op k' → ∀ i, (k'.proc i).Live →
        ((k.proc i).Live → (k'.proc i).pid = (k.proc i).pid ∧
          LevelChange k op (k.proc i) (k'.proc i) ∧
          ((k.proc i).qlev = MoQ → (k'.proc i).qlev = MoQ)) ∧
        (¬(k.proc i).Live → (k'.proc i).qlev = L0) := by
  have hinv := h.inv
  refine ⟨hinv.ok, fun op k' hs i hi => ⟨fun hlive => ?_, fun hlive => ?_⟩⟩
  · obtain ⟨hpid, hlevel⟩ := ((hinv.changes hs).change i hi).levelChange hlive
    exact ⟨hpid, hlevel, hlevel.moQ⟩
  · cases (hinv.changes hs).change i hi with
    | fresh _ hq => exact hq
    | same hl | priority hl | monopoly _ hl | boost _ hl | count hl | demote hl =>
      exact absurd hl hlive

/-- The first process is demoted to `L1` after two ticks. -/
theorem levelOk_of_reach_demoted : ∃ k, LevelReach k ∧ (k.proc 0).qlev = L1 ∧
    ∀ i, (k.proc i).Live → (k.proc i).LevelOk := by
  have hrun : ((run (guardedNext step NoMonopolize) pinit
      [.userinit, .scheduler, .tick 0 true, .tick 0 true]).any
        fun k => decide ((k.proc 0).qlev = L1)) = true := by
    decide +kernel
  obtain ⟨k, hk, hq⟩ := (Option.any_eq_true _ _).mp hrun
  have hnext : ∀ s i s', guardedNext step NoMonopolize s i = some s' →
      Guarded Step NoMonopolize s i s' :=
    fun _ _ _ hs => guardedNext_eq_some.mp hs
  have hreach : LevelReach k := Reachable.run hnext (.start rfl) hk
  exact ⟨k, hreach, of_decide_eq_true hq, (levelOk_of_reach hreach).1⟩

end Xv6Projects.Mlfq
