import Xv6Projects.Threads.Waking

/-!
# Steps of the current process

The switches between a thread and the scheduler keep the shape of the table: `sleep`,
`yield`, `exit` and `thread_exit` on the way to the scheduler, and a pass of the scheduler on
the way back.
-/

namespace Xv6Projects.Threads

open Library Kernel

/-- What a step may do to the threads of the current process: a thread that can run
afterwards stood at the same place before, or constructs nothing. -/
def SamePlaces (x y : Proc) : Prop :=
  ∀ i, (y.pth i).state.Live →
    (x.pth i).state.Live ∧ (y.pth i).cont = (x.pth i).cont ∨ (y.pth i).cont.target = none

/-- The process that the CPU executes is changed, and the CPU goes on with `c`. -/
lemma Shape.upd {k : Kernel} (hk : Shape k) {p : Slot} (hp : k.Current p) {f : Proc → Proc}
    {c : Cpu} (hproc : ProcShape (f (k.proc p)))
    (hplaces : SamePlaces (k.proc p) (f (k.proc p)))
    (hchan : ∀ i, ((f (k.proc p)).pth i).ChanOk p)
    (hc : ∀ q, c = .run q ∨ c = .resume q → q = p ∧ (f (k.proc p)).mypth.state = .running ∧
      c = cpuAt p (f (k.proc p)).mypth.cont)
    (hrun : ∀ i, ((f (k.proc p)).pth i).state = .running →
      (c = .run p ∨ c = .resume p) ∧ i = (f (k.proc p)).onTidx) :
    Shape ((k.updProc p f).setCpu c) := by
  set k' := (k.updProc p f).setCpu c with hk'
  have hself : k'.proc p = f (k.proc p) := by simp [hk']
  have hother : ∀ {q}, q ≠ p → k'.proc q = k.proc q := fun hq => by simp [hk', updProc_of_ne _ _ hq]
  -- the current process is not under construction
  have hnot : ∀ {q i np}, k.Live q i → ((k.proc q).pth i).cont.target = some np → np ≠ p := by
    rintro q i np hl ht rfl
    exact (hk.alive_current hp).ne_embryo (hk.target q i np hl ht)
  -- a thread that constructs a process is one of before
  have hbefore : ∀ {q i np}, k'.Live q i → ((k'.proc q).pth i).cont.target = some np →
      k.Live q i ∧ ((k'.proc q).pth i).cont = ((k.proc q).pth i).cont := by
    intro q i np hl ht
    by_cases hq : q = p
    · subst hq
      rw [Kernel.Live, hself] at hl
      rw [hself] at ht ⊢
      rcases hplaces i hl with h | h
      · exact h
      · rw [h] at ht
        exact absurd ht (by simp)
    · rw [Kernel.Live, hother hq] at hl
      rw [hother hq]
      exact ⟨hl, rfl⟩
  constructor
  · intro q
    by_cases hq : q = p
    · subst hq
      rwa [hself]
    · rw [hother hq]
      exact hk.proc q
  · intro q hq
    obtain ⟨rfl, hrun, hat⟩ := hc q hq
    rw [hself]
    exact ⟨hrun, hat⟩
  · intro q i hi
    by_cases hq : q = p
    · subst hq
      rw [hself] at hi ⊢
      exact hrun i hi
    · rw [hother hq] at hi
      exact absurd ((hk.running q i hi).1.eq hp) hq
  · intro q i np hl ht
    obtain ⟨hl₀, hcont⟩ := hbefore hl ht
    rw [hcont] at ht
    rw [hother (hnot hl₀ ht)]
    exact hk.target q i np hl₀ ht
  · intro q i r j np hl hl' ht ht'
    obtain ⟨hl₀, hcont⟩ := hbefore hl ht
    obtain ⟨hl₁, hcont'⟩ := hbefore hl' ht'
    rw [hcont] at ht
    rw [hcont'] at ht'
    exact hk.owner q i r j np hl₀ hl₁ ht ht'
  · intro q i np hl hu
    obtain ⟨hl₀, hcont⟩ := hbefore hl hu.target
    rw [hcont] at hu
    rw [hother (hnot hl₀ hu.target)]
    exact hk.orphan q i np hl₀ hu
  · intro q i
    by_cases hq : q = p
    · subst hq
      rw [hself]
      exact hchan i
    · rw [hother hq]
      exact hk.chan q i

/-- After a switch to the scheduler no thread runs. -/
lemma Shape.updSched {k : Kernel} (hk : Shape k) {p : Slot} (hp : k.Current p) {f : Proc → Proc}
    (hproc : ProcShape (f (k.proc p))) (hplaces : SamePlaces (k.proc p) (f (k.proc p)))
    (hchan : ∀ i, ((f (k.proc p)).pth i).ChanOk p)
    (hrun : ∀ i, ((f (k.proc p)).pth i).state ≠ .running) :
    Shape ((k.updProc p f).setCpu (.sched p)) := by
  refine hk.upd hp hproc hplaces hchan ?_ fun i hi => absurd hi (hrun i)
  rintro q (h | h)
  · exact absurd h (by simp)
  · exact absurd h (by simp)

/-- The threads of the current process besides the current thread. -/
lemma Shape.not_running {k : Kernel} (hk : Shape k) {p : Slot} {i : Tidx}
    (hi : i ≠ (k.proc p).onTidx) : ((k.proc p).pth i).state ≠ .running :=
  fun h => hi (hk.running p i h).2

lemma Shape.not_embryo {k : Kernel} (hk : Shape k) {p : Slot} (hp : k.Current p) (i : Tidx) :
    ((k.proc p).pth i).state ≠ .embryo :=
  (hk.proc p).notEmbryo (hk.alive_current hp).ne_embryo i

lemma Proc.sleep_pth (x : Proc) (chan : Chan) (c : Cont) (i : Tidx) :
    (x.sleep chan c).pth i = if i = x.onTidx then
      { x.mypth with chan := chan, state := .sleeping, cont := c } else x.pth i := by
  rw [Proc.sleep, Proc.setProcState_pth, Proc.updMypth, Proc.updPth_pth]
  rfl

lemma Shape.sleep {k : Kernel} (hk : Shape k) {p : Slot} (hp : k.Current p) {chan : Chan}
    {c : Cont} (hc : c = (k.proc p).mypth.cont ∨ c.target = none)
    (hwait : c = .wait → chan = .proc p)
    (hjoin : ∀ t havepth, c = .join t havepth → chan = .word t) : Shape (k.sleep p chan c) := by
  have hmine : (((k.proc p).sleep chan c).pth (k.proc p).onTidx).state = .sleeping := by
    rw [Proc.sleep_pth, if_pos rfl]
  refine hk.updSched hp ?_ ?_ ?_ ?_
  · refine procShape_of_live (Proc.setProcState_live (i := (k.proc p).onTidx) (Or.inl ?_)) ?_
    · exact hmine
    · intro i
      rw [Proc.sleep_pth]
      split_ifs
      · exact State.noConfusion
      · exact hk.not_embryo hp i
  · intro i hl
    rw [Proc.sleep_pth] at hl ⊢
    split_ifs at hl ⊢ with hi
    · subst hi
      rcases hc with rfl | hc
      · exact Or.inl ⟨hk.live_current hp, rfl⟩
      · exact Or.inr hc
    · exact Or.inl ⟨hl, rfl⟩
  · intro i
    rw [Proc.sleep_pth]
    split_ifs
    · exact fun _ => ⟨hwait, hjoin⟩
    · exact hk.chan p i
  · intro i
    rw [Proc.sleep_pth]
    split_ifs with hi
    · exact State.noConfusion
    · exact hk.not_running hi

/-- A thread that runs with the lock free is not in `wait` or `thread_join`. -/
lemma Shape.run_cont {k : Kernel} (hk : Shape k) {p : Slot} (hp : k.cpu = .run p) :
    (k.proc p).mypth.cont ≠ .wait ∧
      ∀ t havepth, (k.proc p).mypth.cont ≠ .join t havepth := by
  have h := (hk.place p (Or.inl hp)).2
  rw [hp] at h
  constructor
  · intro hw
    rw [hw] at h
    exact absurd h (by simp [cpuAt])
  · intro t havepth hj
    rw [hj] at h
    exact absurd h (by simp [cpuAt])

lemma Shape.sleepAddr {k : Kernel} (hk : Shape k) {p : Slot} (hp : k.cpu = .run p) (a : ℕ) :
    Shape (k.sleepAddr p a) :=
  hk.sleep (Or.inl hp) (Or.inl rfl) (fun h => absurd h (hk.run_cont hp).1)
    fun t havepth h => absurd h ((hk.run_cont hp).2 t havepth)

lemma Proc.updMypth_pth (x : Proc) (f : Pthread → Pthread) (i : Tidx) :
    (x.updMypth f).pth i = if i = x.onTidx then f x.mypth else x.pth i := by
  rw [Proc.updMypth, Proc.updPth_pth]
  rfl

lemma Proc.yield_pth (x : Proc) (i : Tidx) : x.yield.pth i =
    if i = x.onTidx then { x.mypth with state := .runnable } else x.pth i :=
  x.updMypth_pth (fun t => { t with state := .runnable }) i

lemma Shape.yield {k : Kernel} (hk : Shape k) {p : Slot} (hp : k.Current p) :
    Shape (k.yield p) := by
  refine hk.updSched hp (procShape_of_live (Or.inr (Or.inl rfl)) ?_) ?_ ?_ ?_
  · intro i
    rw [Proc.yield_pth]
    split_ifs
    · exact State.noConfusion
    · exact hk.not_embryo hp i
  · intro i hl
    rw [Proc.yield_pth] at hl ⊢
    split_ifs at hl ⊢ with hi
    · subst hi
      exact Or.inl ⟨hk.live_current hp, rfl⟩
    · exact Or.inl ⟨hl, rfl⟩
  · intro i
    rw [Proc.yield_pth]
    split_ifs
    · intro h
      exact absurd h State.noConfusion
    · exact hk.chan p i
  · intro i
    rw [Proc.yield_pth]
    split_ifs with hi
    · exact State.noConfusion
    · exact hk.not_running hi

lemma Shape.timer {k : Kernel} (hk : Shape k) {p : Slot} (hp : k.cpu = .run p) :
    Shape (k.timer p) := by
  have hcalm := calm_wakeup1 k (.addr ticks)
  unfold Kernel.timer
  dsimp only
  split_ifs
  · exact (hcalm.shape hk).yield (Or.inl hp)
  · exact hcalm.shape hk

/-- A thread after `exit` has ended its process. -/
lemma Proc.exit_pth_state (x : Proc) (i : Tidx) :
    (x.exit.pth i).state = .unused ∨ (x.exit.pth i).state = .zombie := by
  dsimp only [Proc.exit]
  split_ifs with h
  · exact Or.inl h
  · exact Or.inr rfl

lemma Proc.exit_not_live (x : Proc) (i : Tidx) : ¬(x.exit.pth i).state.Live := by
  intro h
  rcases x.exit_pth_state i with hs | hs
  · exact h.ne_unused hs
  · exact h.ne_zombie hs

lemma Shape.exit {k : Kernel} (hk : Shape k) {p : Slot} (hp : k.cpu = .run p) :
    Shape (k.exit p) := by
  set k₁ := (k.wakeup1 (parentChan (k.proc p).parent)).reparent p with hk₁
  have hcalm : Calm k k₁ := (calm_wakeup1 _ _).trans (calm_reparent _ _)
  have hcur : k₁.Current p := Or.inl (hcalm.cpu.trans hp)
  refine (hcalm.shape hk).updSched hcur ⟨?_, ?_, ?_, ?_, ?_⟩ ?_ ?_ ?_
  · exact fun h => absurd h State.noConfusion
  · exact fun h => absurd h State.noConfusion
  · exact fun _ => Proc.exit_not_live _
  · intro _ i h
    rcases Proc.exit_pth_state (k₁.proc p) i with hs | hs
    · exact State.noConfusion (h.symm.trans hs)
    · exact State.noConfusion (h.symm.trans hs)
  · exact fun h => absurd h State.noConfusion
  · exact fun i hl => absurd hl (Proc.exit_not_live _ i)
  · intro i hs
    exact absurd (Or.inl hs) (Proc.exit_not_live (k₁.proc p) i)
  · intro i hs
    exact absurd (Or.inr (Or.inr hs)) (Proc.exit_not_live (k₁.proc p) i)

lemma Proc.threadExit_pth (x : Proc) (v : UInt32) (i : Tidx) :
    (x.threadExit v).pth i = if i = x.onTidx then
      { x.mypth with retval := v, state := .zombie } else x.pth i := by
  rw [Proc.threadExit, Proc.setProcState_pth, Proc.updMypth_pth]

/-- The state of a process after `thread_exit` depends on the other threads. -/
lemma Proc.threadExit_state (x : Proc) (v : UInt32) :
    ((x.threadExit v).state.Live ∧ ∃ i, i ≠ x.onTidx ∧ (x.pth i).state.Live) ∨
      (x.threadExit v).state = .zombie ∧ ∀ i, ¬((x.threadExit v).pth i).state.Live := by
  by_cases h : ∃ i, i ≠ x.onTidx ∧ (x.pth i).state.Live
  · obtain ⟨i, hi, hl⟩ := h
    refine Or.inl ⟨Proc.setProcState_live (i := i) ?_, i, hi, hl⟩
    rwa [Proc.updMypth_pth, if_neg hi]
  · push Not at h
    have hno : ∀ i, ¬((x.threadExit v).pth i).state.Live := by
      intro i hl
      rw [Proc.threadExit_pth] at hl
      split_ifs at hl with hi
      · exact hl.ne_zombie rfl
      · exact h i hi hl
    refine Or.inr ⟨Proc.setProcState_zombie (i := x.onTidx) ?_ hno, hno⟩
    rw [Proc.updMypth_pth, if_pos rfl]

lemma Shape.threadExit {k : Kernel} (hk : Shape k) {p : Slot} (hp : k.cpu = .run p)
    (v : UInt32) : Shape (k.threadExit p v) := by
  set k₁ := k.wakeup1 (.word (k.proc p).mypth.tid) with hk₁
  have hcalm : Calm k k₁ := calm_wakeup1 _ _
  have h₁ := hcalm.shape hk
  have hcur : k₁.Current p := Or.inl hp
  have hne : ∀ i, (((k₁.proc p).threadExit v).pth i).state ≠ .embryo := by
    intro i
    rw [Proc.threadExit_pth]
    split_ifs
    · exact State.noConfusion
    · exact h₁.not_embryo hcur i
  refine h₁.updSched hcur ?_ ?_ ?_ ?_
  · rcases (k₁.proc p).threadExit_state v with ⟨hl, -⟩ | ⟨hz, hno⟩
    · exact procShape_of_live hl hne
    · refine ⟨?_, ?_, fun _ => hno, fun _ => hne, ?_⟩
      · exact fun h => absurd (hz.symm.trans h) State.noConfusion
      · exact fun h => absurd (hz.symm.trans h) State.noConfusion
      · exact fun h => absurd (hz.symm.trans h) State.noConfusion
  · intro i hl
    rw [Proc.threadExit_pth] at hl ⊢
    split_ifs at hl ⊢ with hi
    · exact absurd rfl hl.ne_zombie
    · exact Or.inl ⟨hl, rfl⟩
  · intro i
    rw [Proc.threadExit_pth]
    split_ifs
    · intro h
      exact absurd h State.noConfusion
    · exact h₁.chan p i
  · intro i
    rw [Proc.threadExit_pth]
    split_ifs with hi
    · exact State.noConfusion
    · exact h₁.not_running hi

/-! ### The scheduler -/

lemma cpuAt_eq {p q : Slot} {c : Cont} (h : cpuAt p c = .run q ∨ cpuAt p c = .resume q) :
    q = p := by
  cases c <;> simp_all [cpuAt]

lemma cpuAt_current (p : Slot) (c : Cont) : cpuAt p c = .run p ∨ cpuAt p c = .resume p := by
  cases c <;> simp [cpuAt]

/-- A switch from the scheduler, where no thread runs. -/
lemma Shape.switchTo {k : Kernel} (hk : Shape k) (hnone : ∀ q, ¬k.Current q) {p : Slot}
    {i : Tidx} (hi : ((k.proc p).pth i).state = .runnable) : Shape (k.switchTo p i) := by
  have halive : (k.proc p).state.Live := (hk.proc p).alive (i := i) (Or.inr (Or.inl hi))
  set k' := k.switchTo p i with hk'
  have hpth : ∀ q j, ((k'.proc q).pth j) = if q = p ∧ j = i then
      { (k.proc p).pth i with state := .running, chan := .word 0 } else (k.proc q).pth j := by
    intro q j
    by_cases hq : q = p
    · subst hq
      simp [hk', Kernel.switchTo, Proc.updPth_pth]
    · simp [hk', Kernel.switchTo, updProc_of_ne _ _ hq, hq]
  have hstate : ∀ q, (k'.proc q).state = (k.proc q).state := by
    intro q
    by_cases hq : q = p
    · subst hq
      simp [hk', Kernel.switchTo]
    · simp [hk', Kernel.switchTo, updProc_of_ne _ _ hq]
  have hparent : ∀ q, (k'.proc q).parent = (k.proc q).parent := by
    intro q
    by_cases hq : q = p
    · subst hq
      simp [hk', Kernel.switchTo]
    · simp [hk', Kernel.switchTo, updProc_of_ne _ _ hq]
  have hon : (k'.proc p).onTidx = i := by simp [hk', Kernel.switchTo]
  have hcpu : k'.cpu = cpuAt p ((k.proc p).pth i).cont := rfl
  -- no live thread is new: the one switched to was runnable before
  have hlive : ∀ {q j}, k'.Live q j → k.Live q j := by
    intro q j h
    rw [Kernel.Live, hpth] at h
    split_ifs at h with hqj
    · obtain ⟨rfl, rfl⟩ := hqj
      exact Or.inr (Or.inl hi)
    · exact h
  have hcont : ∀ q j, ((k'.proc q).pth j).cont = ((k.proc q).pth j).cont := by
    intro q j
    rw [hpth]
    split_ifs with hqj
    · obtain ⟨rfl, rfl⟩ := hqj
      rfl
    · rfl
  constructor
  · intro q
    by_cases hq : q = p
    · subst hq
      refine procShape_of_live (by rwa [hstate]) fun j => ?_
      rw [hpth]
      split_ifs
      · exact State.noConfusion
      · exact (hk.proc q).notEmbryo halive.ne_embryo j
    · have hsame : k'.proc q = k.proc q := by
        simp [hk', Kernel.switchTo, updProc_of_ne _ _ hq]
      rw [hsame]
      exact hk.proc q
  · intro q hq
    rw [Kernel.Current, hcpu] at hq
    have hqp := cpuAt_eq hq
    rw [hqp, Proc.mypth, hon, hcont, hpth, if_pos ⟨rfl, rfl⟩]
    exact ⟨rfl, hcpu⟩
  · intro q j hj
    rw [hpth] at hj
    split_ifs at hj with hqj
    · obtain ⟨rfl, rfl⟩ := hqj
      exact ⟨by rw [Kernel.Current, hcpu]; exact cpuAt_current _ _, hon.symm⟩
    · exact absurd (hk.running q j hj).1 (hnone q)
  · intro q j np hl ht
    rw [hcont] at ht
    rw [hstate]
    exact hk.target q j np (hlive hl) ht
  · intro q j r l np hl hl' ht ht'
    rw [hcont] at ht ht'
    exact hk.owner q j r l np (hlive hl) (hlive hl') ht ht'
  · intro q j np hl hu
    rw [hcont] at hu
    rw [hparent]
    exact hk.orphan q j np (hlive hl) hu
  · intro q j
    rw [hpth]
    split_ifs
    · intro h
      exact absurd h State.noConfusion
    · exact hk.chan q j

/-- The threads that can run stay as they are in one process; some may end. -/
lemma Shape.updLess {k : Kernel} (hk : Shape k) {q : Slot} {f : Proc → Proc}
    (hne : (k.proc q).state ≠ .embryo) (hproc : ProcShape (f (k.proc q)))
    (hlive : ∀ i, ((f (k.proc q)).pth i).state.Live →
      (f (k.proc q)).pth i = (k.proc q).pth i)
    (hcur : k.Current q → (f (k.proc q)).mypth = (k.proc q).mypth ∧
      (f (k.proc q)).onTidx = (k.proc q).onTidx) : Shape (k.updProc q f) := by
  set k' := k.updProc q f with hk'
  have hself : k'.proc q = f (k.proc q) := by simp [hk']
  have hother : ∀ {r}, r ≠ q → k'.proc r = k.proc r := fun hr => by simp [hk', updProc_of_ne _ _ hr]
  have hpth : ∀ {r i}, k'.Live r i → (k'.proc r).pth i = (k.proc r).pth i := by
    intro r i h
    by_cases hr : r = q
    · subst hr
      rw [Kernel.Live, hself] at h
      rw [hself]
      exact hlive i h
    · rw [hother hr]
  have hbefore : ∀ {r i}, k'.Live r i → k.Live r i := by
    intro r i h
    rw [Kernel.Live, ← hpth h]
    exact h
  have hnot : ∀ {r i np}, k'.Live r i → ((k'.proc r).pth i).cont.target = some np → np ≠ q := by
    rintro r i np hl ht rfl
    rw [hpth hl] at ht
    exact hne (hk.target r i np (hbefore hl) ht)
  constructor
  · intro r
    by_cases hr : r = q
    · subst hr
      rwa [hself]
    · rw [hother hr]
      exact hk.proc r
  · intro r hr
    by_cases hrq : r = q
    · subst hrq
      rw [hself, (hcur hr).1]
      exact hk.place r hr
    · rw [hother hrq]
      exact hk.place r hr
  · intro r i hi
    have hl : k'.Live r i := Or.inr (Or.inr hi)
    rw [hpth hl] at hi
    obtain ⟨hr, hon⟩ := hk.running r i hi
    refine ⟨hr, ?_⟩
    by_cases hrq : r = q
    · subst hrq
      rw [hself, (hcur hr).2]
      exact hon
    · rw [hother hrq]
      exact hon
  · intro r i np hl ht
    rw [hother (hnot hl ht)]
    rw [hpth hl] at ht
    exact hk.target r i np (hbefore hl) ht
  · intro r i s j np hl hl' ht ht'
    rw [hpth hl] at ht
    rw [hpth hl'] at ht'
    exact hk.owner r i s j np (hbefore hl) (hbefore hl') ht ht'
  · intro r i np hl hu
    rw [hother (hnot hl hu.target)]
    rw [hpth hl] at hu
    exact hk.orphan r i np (hbefore hl) hu
  · intro r i hs
    have hl : k'.Live r i := Or.inl hs
    rw [hpth hl] at hs ⊢
    exact hk.chan r i hs

lemma Shape.dispatch {k : Kernel} (hk : Shape k) (hnone : ∀ q, ¬k.Current q) {p : Slot}
    {i : Tidx} (hi : ((k.proc p).pth i).state = .runnable) : Shape (k.dispatch p i) := by
  have halive : (k.proc p).state.Live := (hk.proc p).alive (i := i) (Or.inr (Or.inl hi))
  have hmid : Shape (k.updProc p fun x => { x with state := .running }) := by
    refine hk.updLess halive.ne_embryo (procShape_of_live (Or.inr (Or.inr rfl)) fun j => ?_)
      (fun _ _ => rfl) fun _ => ⟨rfl, rfl⟩
    exact (hk.proc p).notEmbryo halive.ne_embryo j
  refine hmid.switchTo hnone ?_
  rw [updProc_self]
  exact hi

lemma nextPth_runnable {x : Proc} {is : List Tidx} {i : Tidx} (h : nextPth x is = some i) :
    (x.pth i).state = .runnable := by
  simpa using List.find?_some h

lemma nextProc_runnable {k : Kernel} {ps : List Slot} {p : Slot} {i : Tidx}
    (h : k.nextProc ps = some (p, i)) :
    (k.proc p).state = .runnable ∧ ((k.proc p).pth i).state = .runnable := by
  obtain ⟨q, -, hq⟩ := List.exists_of_findSome?_eq_some h
  split_ifs at hq with hrun
  obtain ⟨j, hj, hqj⟩ := Option.map_eq_some_iff.mp hq
  obtain ⟨rfl, rfl⟩ := Prod.mk.inj hqj
  exact ⟨hrun, nextPth_runnable hj⟩

lemma Shape.idle {k : Kernel} (hk : Shape k) (hnone : ∀ q, ¬k.Current q) :
    Shape (k.setCpu .idle) := by
  have hcur : ∀ q, ¬(k.setCpu .idle).Current q := by
    rintro q (h | h)
    · exact absurd h (by simp)
    · exact absurd h (by simp)
  exact ⟨hk.proc, fun p hp => absurd hp (hcur p),
    fun p i hi => absurd (hk.running p i hi).1 (hnone p), hk.target, hk.owner, hk.orphan, hk.chan⟩

lemma Shape.pass {k : Kernel} (hk : Shape k) (hnone : ∀ q, ¬k.Current q) (ps : List Slot) :
    Shape (k.pass ps) := by
  unfold Kernel.pass
  split
  · rename_i q i h
    exact hk.dispatch hnone (nextProc_runnable h).2
  · exact hk.idle hnone

lemma Shape.schedule {k : Kernel} (hk : Shape k) {p : Slot} (hp : k.cpu = .sched p) :
    Shape (k.schedule p) := by
  have hnone : ∀ q, ¬k.Current q := by
    rintro q (h | h)
    · exact absurd (hp.symm.trans h) (by simp)
    · exact absurd (hp.symm.trans h) (by simp)
  unfold Kernel.schedule
  split
  · rename_i i h
    exact hk.switchTo hnone (nextPth_runnable h)
  · exact hk.pass hnone _

end Xv6Projects.Threads
