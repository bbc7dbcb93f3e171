import Mathlib.Data.List.Basic
import Xv6Projects.Threads.Joins
import Xv6Projects.Threads.Undo

/-!
# The state of a process and the states of its threads

`set_proc_state` computes the state of a process from its threads, and other functions store it
without looking at them.  When `scheduler` leaves a process for the next one after each of its
threads, and `allocproc` takes no slot that a failed `fork` has not finished with, the state is
always the one that `set_proc_state` would compute.
-/

namespace Xv6Projects.Threads

open Library Kernel

/-! ### The property -/

/-- The state of a process read off its threads: that of the thread that is furthest on, and
`ZOMBIE` when no thread can run. -/
def Proc.summary (x : Proc) : State :=
  if x.hasState .running then .running
  else if x.hasState .runnable then .runnable
  else if x.hasState .sleeping then .sleeping
  else .zombie

/-- The state of every process in use is the one that `f` computes, and a process whose thread
executes is running. -/
structure StateRight (f : Proc → State) (k : Kernel) : Prop where
  state : ∀ p, (k.proc p).state ≠ .unused → (k.proc p).state ≠ .embryo →
    (k.proc p).state = f (k.proc p)
  running : ∀ p, k.cpu = .run p → (k.proc p).state = .running

/-- `scheduler` does not go on to another thread of the process it has just run: no thread of a
higher index is runnable. -/
def NoFastPath (k : Kernel) : Op → Prop
  | .schedule => ∀ p, k.cpu = .sched p → ∀ i, (k.proc p).onTidx < i →
      ((k.proc p).pth i).state ≠ .runnable
  | _ => True

/-- A zombie that `thread_join` gives back is not the last thread of its process. -/
def LeavesThread (k : Kernel) (op : Op) : Prop :=
  ∀ p t havepth, k.joinRound op = some (p, t, havepth) → ∀ q i, k.joinScan t = some (q, i) →
    ((k.proc q).pth i).state = .zombie → ∃ j, j ≠ i ∧ ((k.proc q).pth j).state ≠ .unused

/-- The states of the runs in which `scheduler` leaves a process after each of its threads, and
no slot is taken between the two stores of a failed `fork`. -/
def ScheduleReach : CallState → Prop :=
  Reachable (· = CallState.pinit) (Guarded CallStep (Meets NoFastPath))

/-- The same, when in addition no process loses its last thread to `thread_join`. -/
def StateReach : CallState → Prop :=
  Reachable (· = CallState.pinit) (Guarded CallStep (Meets fun k op =>
    NoFastPath k op ∧ LeavesThread k op))

/-! ### The state of one process -/

/-- The process is not in use, or its state is the one read off its threads. -/
def Proc.Summary (x : Proc) : Prop :=
  x.state ≠ .unused → x.state ≠ .embryo → x.state = x.summary

namespace Proc
variable {x y : Proc} {i : Tidx}

lemma not_hasState {s : State} (h : ∀ i, (x.pth i).state ≠ s) : ¬x.hasState s = true := by
  rw [hasState_iff]
  rintro ⟨i, hi⟩
  exact h i hi

lemma summary_running (h : (x.pth i).state = .running) : x.summary = .running :=
  if_pos (x.hasState_iff.mpr ⟨i, h⟩)

lemma summary_runnable (hrun : ∀ j, (x.pth j).state ≠ .running)
    (h : (x.pth i).state = .runnable) : x.summary = .runnable := by
  rw [summary, if_neg (not_hasState hrun), if_pos (x.hasState_iff.mpr ⟨i, h⟩)]

lemma summary_zombie (h : ∀ j, ¬(x.pth j).state.Live) : x.summary = .zombie := by
  have hno : ∀ s : State, s.Live → ¬x.hasState s = true := fun s hs =>
    not_hasState fun j hj => h j (by rwa [hj])
  rw [summary, if_neg (hno .running (Or.inr (Or.inr rfl))),
    if_neg (hno .runnable (Or.inr (Or.inl rfl))), if_neg (hno .sleeping (Or.inl rfl))]

/-- What is read off the threads depends on their states. -/
lemma summary_congr (h : ∀ i s, s.Live → ((y.pth i).state = s ↔ (x.pth i).state = s)) :
    y.summary = x.summary := by
  have hall : ∀ s : State, s.Live → y.hasState s = x.hasState s := by
    intro s hs
    rw [Bool.eq_iff_iff, hasState_iff, hasState_iff]
    exact exists_congr fun i => h i s hs
  rw [summary, summary, hall .running (Or.inr (Or.inr rfl)), hall .runnable (Or.inr (Or.inl rfl)),
    hall .sleeping (Or.inl rfl)]

/-- `set_proc_state` differs only when no thread is left. -/
lemma procState_eq (h : x.procState ≠ .unused) : x.procState = x.summary := by
  unfold procState at h ⊢
  unfold summary
  split_ifs at h ⊢ <;> first | rfl | exact absurd rfl h

lemma procState_eq_of_used (h : (x.pth i).state ≠ .unused) (he : (x.pth i).state ≠ .embryo) :
    x.procState = x.summary := by
  refine procState_eq fun hun => ?_
  unfold procState at hun
  split_ifs at hun with hrun hable hsleep hzom
  rw [hasState_iff] at hrun hable hsleep hzom
  cases hs : (x.pth i).state with
  | unused => exact h hs
  | embryo => exact he hs
  | sleeping => exact hsleep ⟨i, hs⟩
  | runnable => exact hable ⟨i, hs⟩
  | running => exact hrun ⟨i, hs⟩
  | zombie => exact hzom ⟨i, hs⟩

/-- No state and no thread that can run is changed. -/
lemma Summary.congr (hx : x.Summary) (hstate : y.state = x.state)
    (h : ∀ i s, s.Live → ((y.pth i).state = s ↔ (x.pth i).state = s)) : y.Summary := by
  rw [Summary, hstate, summary_congr h]
  exact hx

lemma Summary.same (hx : x.Summary) (hstate : y.state = x.state)
    (h : ∀ i, (y.pth i).state = (x.pth i).state) : y.Summary :=
  hx.congr hstate fun i s _ => by rw [h i]

lemma summary_setProcState (x : Proc) : x.setProcState.Summary := fun hun _ =>
  procState_eq hun

/-- A process with a thread that runs is running. -/
lemma Summary.running (hx : x.Summary) (hs : ProcShape x) (h : (x.pth i).state = .running) :
    x.state = .running := by
  have hlive := hs.alive (i := i) (by rw [h]; exact Or.inr (Or.inr rfl))
  rw [hx hlive.ne_unused hlive.ne_embryo, summary_running h]

/-- In a process that sleeps, no thread is runnable or runs, and one sleeps. -/
lemma Summary.sleeping (hx : x.Summary) (h : x.state = .sleeping) :
    (∀ i, (x.pth i).state ≠ .running ∧ (x.pth i).state ≠ .runnable) ∧
      ∃ i, (x.pth i).state = .sleeping := by
  have hsum : x.summary = .sleeping := by
    rw [← hx (by rw [h]; exact State.noConfusion) (by rw [h]; exact State.noConfusion), h]
  unfold summary at hsum
  split_ifs at hsum with hrun hable hsleep
  rw [hasState_iff] at hrun hable hsleep
  exact ⟨fun i => ⟨fun hi => hrun ⟨i, hi⟩, fun hi => hable ⟨i, hi⟩⟩, hsleep⟩

/-- In a process that is runnable, no thread runs, and one is runnable. -/
lemma Summary.runnable (hx : x.Summary) (h : x.state = .runnable) :
    (∀ i, (x.pth i).state ≠ .running) ∧ ∃ i, (x.pth i).state = .runnable := by
  have hsum : x.summary = .runnable := by
    rw [← hx (by rw [h]; exact State.noConfusion) (by rw [h]; exact State.noConfusion), h]
  unfold summary at hsum
  split_ifs at hsum with hrun hable
  rw [hasState_iff] at hrun hable
  exact ⟨fun i hi => hrun ⟨i, hi⟩, hable⟩

/-- In a process that runs, a thread runs. -/
lemma Summary.runs (hx : x.Summary) (h : x.state = .running) : ∃ i, (x.pth i).state = .running := by
  have hsum : x.summary = .running := by
    rw [← hx (by rw [h]; exact State.noConfusion) (by rw [h]; exact State.noConfusion), h]
  unfold summary at hsum
  split_ifs at hsum with hrun
  exact x.hasState_iff.mp hrun

/-- Some sleeping threads become runnable, and with them a process that sleeps. -/
lemma Summary.wake (hx : x.Summary) (hs : ProcShape x)
    (hpth : ∀ i, Woken (x.pth i).state (y.pth i).state)
    (hstate : y.state = if x.state = .sleeping ∧
      ∃ i, (x.pth i).state = .sleeping ∧ (y.pth i).state = .runnable then .runnable
      else x.state) : y.Summary := by
  intro hun hem
  by_cases hsleep : x.state = .sleeping
  · obtain ⟨hno, -⟩ := hx.sleeping hsleep
    by_cases hwake : ∃ i, (x.pth i).state = .sleeping ∧ (y.pth i).state = .runnable
    · rw [if_pos ⟨hsleep, hwake⟩] at hstate
      obtain ⟨i, -, hi⟩ := hwake
      rw [hstate, summary_runnable (fun l hl => ?_) hi]
      exact (hno l).1 ((hpth l).eq_iff State.noConfusion State.noConfusion |>.mp hl)
    · rw [if_neg fun h => hwake h.2] at hstate
      -- nothing is woken up
      have hsame : ∀ i, (y.pth i).state = (x.pth i).state := fun i => by
        rcases hpth i with h | h
        · exact h
        · exact absurd ⟨i, h⟩ hwake
      rw [hstate] at hun hem ⊢
      exact (hx hun hem).trans (summary_congr fun i s _ => by rw [hsame i]).symm
  · rw [if_neg fun h => hsleep h.1] at hstate
    rw [hstate] at hun hem ⊢
    cases hc : x.state with
    | unused => exact absurd hc hun
    | embryo => exact absurd hc hem
    | sleeping => exact absurd hc hsleep
    | runnable =>
      obtain ⟨hno, i, hi⟩ := hx.runnable hc
      refine (summary_runnable (fun l hl => ?_) (i := i) ?_).symm
      · exact hno l ((hpth l).eq_iff State.noConfusion State.noConfusion |>.mp hl)
      · rcases hpth i with h | ⟨-, h⟩
        · rw [h, hi]
        · exact h
    | running =>
      obtain ⟨i, hi⟩ := hx.runs hc
      refine (summary_running (i := i) ?_).symm
      rw [(hpth i).eq_iff State.noConfusion State.noConfusion, hi]
    | zombie =>
      refine (summary_zombie fun j hj => ?_).symm
      exact hs.zombie hc j ((hpth j).live_iff.mp hj)

lemma summary_wakeup1 (hx : x.Summary) (hs : ProcShape x) (c : Chan) : (x.wakeup1 c).Summary := by
  refine hx.wake hs (fun i => (calmProc_wakeup1 x c).pth i) ?_
  unfold wakeup1
  split_ifs with hrun hwake hwake
  · obtain ⟨hsleep, i, hi, hi'⟩ := hwake
    dsimp only at hi' ⊢
    refine if_pos ⟨hsleep, List.any_eq_true.mpr ⟨i, List.mem_finRange i, ?_⟩⟩
    by_contra hno
    rw [wokenPth, if_neg (by simpa using hno), hi] at hi'
    exact State.noConfusion hi'
  · refine if_neg fun h => hwake ⟨h.1, ?_⟩
    obtain ⟨i, -, hi⟩ := List.any_eq_true.mp h.2
    have hi := of_decide_eq_true hi
    refine ⟨i, hi.1, ?_⟩
    dsimp only
    rw [wokenPth, if_pos hi]
  · exact absurd (Or.inl hwake.1) hrun
  · rfl

lemma summary_kill (hx : x.Summary) (hs : ProcShape x) : x.kill.Summary := by
  refine hx.wake hs (fun i => (calmProc_kill x).pth i) ?_
  by_cases hsleep : x.state = .sleeping
  · obtain ⟨-, i, hi⟩ := hx.sleeping hsleep
    have hi' : (x.kill.pth i).state = .runnable := by
      dsimp only [kill]
      rw [if_pos hi]
    rw [if_pos ⟨hsleep, i, hi, hi'⟩]
    exact if_pos hsleep
  · rw [if_neg fun h => hsleep h.1]
    exact if_neg hsleep

end Proc

/-! ### The table -/

/-- The state of every process in use is the one read off its threads. -/
def Summaries (k : Kernel) : Prop := ∀ p, (k.proc p).Summary

section
variable {k k' : Kernel} {p : Slot}

lemma Summaries.updProc (hk : Summaries k) {f : Proc → Proc} (h : (f (k.proc p)).Summary) :
    Summaries (k.updProc p f) := by
  intro q
  by_cases hq : q = p
  · rw [hq, updProc_self]
    exact h
  · rw [updProc_of_ne _ _ hq]
    exact hk q

/-- Only places, files and memory are changed. -/
lemma Summaries.same (hk : Summaries k) (hstate : ∀ q, (k'.proc q).state = (k.proc q).state)
    (hpth : ∀ q i, ((k'.proc q).pth i).state = ((k.proc q).pth i).state) : Summaries k' :=
  fun q => (hk q).same (hstate q) (hpth q)

lemma Summaries.updMypth (hk : Summaries k) {f : Pthread → Pthread}
    (hf : ∀ t, (f t).state = t.state) : Summaries (k.updProc p fun x => x.updMypth f) := by
  refine hk.updProc ((hk p).same rfl fun i => ?_)
  rw [Proc.updMypth_pth]
  split_ifs with hi
  · rw [hf, hi]
    rfl
  · rfl

lemma Summaries.setCont (hk : Summaries k) (c : Cont) : Summaries (k.setCont p c) :=
  hk.updMypth fun _ => rfl

lemma Summaries.wakeup1 (hk : Summaries k) (hs : Shape k) (c : Chan) :
    Summaries (k.wakeup1 c) := fun q => Proc.summary_wakeup1 (hk q) (hs.proc q) c

lemma Summaries.sleep (hk : Summaries k) (chan : Chan) (c : Cont) :
    Summaries (k.sleep p chan c) :=
  hk.updProc (f := fun x => x.sleep chan c) (Proc.summary_setProcState _)

/-- The current process is running. -/
lemma Summaries.current (hk : Summaries k) (hs : Shape k) (hp : k.Current p) :
    (k.proc p).state = .running := (hk p).running (hs.proc p) (hs.place p hp).1

/-- The current thread goes on running, and no process changes its state. -/
lemma Summaries.keepRunning (hk : Summaries k) (hs : Shape k) (hp : k.Current p) {f : Proc → Proc}
    (hstate : (f (k.proc p)).state = (k.proc p).state)
    (hpth : ((f (k.proc p)).pth (k.proc p).onTidx).state = .running) :
    Summaries (k.updProc p f) := by
  refine hk.updProc fun _ _ => ?_
  rw [hstate, hk.current hs hp, Proc.summary_running hpth]

lemma Summaries.yield (hk : Summaries k) (hs : Shape k) : Summaries (k.yield p) := by
  refine hk.updProc (f := Proc.yield) fun _ _ => ?_
  refine (Proc.summary_runnable (fun i => ?_) (i := (k.proc p).onTidx) ?_).symm
  · rw [Proc.yield_pth]
    split_ifs with hi
    · exact State.noConfusion
    · exact hs.not_running hi
  · rw [Proc.yield_pth, if_pos rfl]

lemma Summaries.timer (hk : Summaries k) (hs : Shape k) : Summaries (k.timer p) := by
  have hwake := hk.wakeup1 hs (.addr ticks)
  have hs' := (calm_wakeup1 k (.addr ticks)).shape hs
  unfold Kernel.timer
  dsimp only
  split_ifs
  · exact hwake.yield hs'
  · exact hwake

lemma Summaries.kill (hk : Summaries k) (hs : Shape k) (pid : ℤ) : Summaries (k.kill pid) := by
  unfold Kernel.kill
  split
  · exact hk
  · rename_i q _
    exact hk.updProc (Proc.summary_kill (hk q) (hs.proc q))

/-- A thread is dispatched in a process that is scheduled anew. -/
lemma Summaries.dispatch (hk : Summaries k) (i : Tidx) : Summaries (k.dispatch p i) := by
  intro q
  by_cases hq : q = p
  · subst hq
    refine fun _ _ => ?_
    have hst : ((k.dispatch q i).proc q).state = .running := by
      simp [Kernel.dispatch, Kernel.switchTo]
    have hpth : (((k.dispatch q i).proc q).pth i).state = .running := by
      simp [Kernel.dispatch, Kernel.switchTo]
    rw [hst, Proc.summary_running hpth]
  · have hsame : (k.dispatch p i).proc q = k.proc q := by
      rw [Kernel.dispatch, Kernel.switchTo, setCpu_proc, updProc_of_ne _ _ hq,
        updProc_of_ne _ _ hq]
    rw [hsame]
    exact hk q

lemma Summaries.pass (hk : Summaries k) (ps : List Slot) : Summaries (k.pass ps) := by
  unfold Kernel.pass
  split
  · exact hk.dispatch _
  · exact hk

/-- The slots after slot `i`. -/
lemma lt_of_mem_drop {i j : Tidx} (h : j ∈ tidxs.drop (i + 1)) : i < j := by
  obtain ⟨n, hn, rfl⟩ := List.mem_drop_iff_getElem.mp h
  simp only [tidxs, List.getElem_finRange, Fin.lt_def, Fin.val_cast]
  omega

lemma mem_drop_of_lt {i j : Tidx} (h : i < j) : j ∈ tidxs.drop (i + 1) := by
  rw [List.mem_drop_iff_getElem]
  refine ⟨j - (i + 1), ?_, ?_⟩
  · rw [tidxs, List.length_finRange]
    have := j.isLt
    have := Fin.lt_def.mp h
    omega
  · have := Fin.lt_def.mp h
    simp only [tidxs, List.getElem_finRange]
    ext
    dsimp only [Fin.val_cast]
    omega

/-- Without a runnable thread of a higher index, the scheduler goes on to the next process. -/
lemma Summaries.schedule (hk : Summaries k) (h : ∀ i, (k.proc p).onTidx < i →
    ((k.proc p).pth i).state ≠ .runnable) : Summaries (k.schedule p) := by
  unfold Kernel.schedule
  split
  · rename_i i hi
    exact absurd (nextPth_runnable hi) (h i (lt_of_mem_drop (List.mem_of_find?_eq_some hi)))
  · exact hk.pass _

/-! ### Processes and threads -/

/-- A process that is under construction, or unused. -/
lemma Proc.summary_of_not {x : Proc} (h : x.state = .unused ∨ x.state = .embryo) : x.Summary :=
  fun hun hem => by
    rcases h with h | h
    · exact absurd h hun
    · exact absurd h hem

lemma Summaries.allocSlot (hk : Summaries k) (np : Slot) : Summaries (k.allocSlot np) :=
  hk.updProc (p := np) (f := fun x => x.allocSlot k.nextpid k.nextTid)
    (Proc.summary_of_not (Or.inr rfl))

/-- A new process, whose first thread is its only one. -/
lemma Proc.summary_first {x : Proc} (hstate : x.state = .runnable)
    (h0 : (x.pth 0).state = .runnable) (h : ∀ i, i ≠ 0 → (x.pth i).state = .unused) :
    x.Summary := fun _ _ => by
  refine hstate.trans (Proc.summary_runnable (fun i hi => ?_) h0).symm
  by_cases hi0 : i = 0
  · rw [hi0, h0] at hi
    exact State.noConfusion hi
  · exact State.noConfusion ((h i hi0).symm.trans hi)

lemma Summaries.userinit (hk : Summaries k) (hs : Shape k) {n : ℕ} (h : k.userinit n = some k') :
    Summaries k' := by
  obtain ⟨np, hnp, h⟩ := Option.bind_eq_some_iff.mp h
  obtain ⟨k₁, h₁, rfl⟩ := Option.map_eq_some_iff.mp h
  have hun := (hs.proc np).unused (unusedSlot_state hnp)
  obtain ⟨k₂, h₂, rfl⟩ := Option.map_eq_some_iff.mp h₁
  obtain ⟨-, rfl⟩ := kalloc_eq_some.mp h₂
  have hslot := hk.allocSlot np
  have hstack : Summaries ((k.allocSlot np).updProc np (·.allocStack n)) := by
    refine hslot.updProc (Proc.summary_of_not (Or.inr ?_))
    simp [Kernel.allocSlot, Proc.allocStack, Proc.allocSlot, Kernel.updProc]
  refine Summaries.updProc (k := (k.allocSlot np).updProc np (·.allocStack n)) hstack ?_
  refine Proc.summary_first rfl ?_ fun i hi => ?_
  · rw [Proc.userinit_first]
  · rw [Proc.userinit_pth hi, updProc_self, Proc.allocStack_pth hi]
    have hsame : ((k.allocSlot np).proc np).pth i = (k.proc np).pth i := by
      simp [Kernel.allocSlot, Proc.allocSlot_pth hi, Kernel.updProc]
    rw [hsame, hun i]

lemma Summaries.forkAlloc (hk : Summaries k) (p : Slot) : Summaries (k.forkAlloc p) := by
  unfold Kernel.forkAlloc
  split
  · exact hk
  · exact (hk.allocSlot _).setCont _

lemma Summaries.forkStep (hk : Summaries k) (hs : Shape k) (hp : k.cpu = .run p) {op : Op}
    (h : forkStep k p (k.proc p).mypth.cont op = some k') : Summaries k' := by
  have hlive := hs.live_current (Or.inl hp)
  rcases forkStep_eq_some h with ⟨np, page, hc, -, h⟩ | ⟨np, ok, hc, -, h⟩ | ⟨np, hc, -, rfl⟩
  · have hem := hs.target p _ np hlive (by rw [← Proc.mypth, hc]; rfl)
    cases page with
    | none =>
      obtain rfl := Option.some.inj h
      exact (hk.updProc (f := Proc.allocFail) (Proc.summary_of_not (Or.inl rfl))).setCont _
    | some n =>
      obtain ⟨k₁, h₁, rfl⟩ := Option.map_eq_some_iff.mp h
      obtain ⟨k₂, h₂, rfl⟩ := Option.map_eq_some_iff.mp h₁
      obtain ⟨-, rfl⟩ := kalloc_eq_some.mp h₂
      have hstack : Summaries (k.updProc np (·.allocStack n)) :=
        hk.updProc (Proc.summary_of_not (Or.inr hem))
      exact Summaries.setCont (k := { k with kmem := _ }.updProc np (·.allocStack n)) hstack _
  · have hem := hs.target p _ np hlive (by rw [← Proc.mypth, hc]; rfl)
    unfold Kernel.forkCopy at h
    split_ifs at h
    · obtain rfl := Option.some.inj h
      refine (hk.updProc (f := Proc.forkImage p (k.proc p)) ?_).setCont _
      exact Proc.summary_of_not (Or.inr hem)
    · obtain ⟨k₁, h₁, rfl⟩ := Option.map_eq_some_iff.mp h
      unfold Kernel.kfree at h₁
      split_ifs at h₁
      obtain rfl := Option.some.inj h₁
      have hfail : Summaries (k.updProc np Proc.forkFail) :=
        hk.updProc (Proc.summary_of_not (Or.inl rfl))
      exact Summaries.setCont (k := { k with kmem := _, refreed := _ }.updProc np Proc.forkFail)
        hfail _
  · have hem := hs.target p _ np hlive (by rw [← Proc.mypth, hc]; rfl)
    refine (hk.updProc (f := Proc.forkDone) ?_).setCont _
    refine Proc.summary_first rfl ?_ fun i hi => ?_
    · rw [Proc.forkDone_first]
    · rw [Proc.forkDone_pth hi]
      exact ((hs.proc np).embryo hem).2 i hi

lemma Summaries.exit (hk : Summaries k) (hs : Shape k) (p : Slot) : Summaries (k.exit p) := by
  have hwake := hk.wakeup1 hs (parentChan (k.proc p).parent)
  have hs₁ := (calm_wakeup1 k (parentChan (k.proc p).parent)).shape hs
  set k₁ := k.wakeup1 (parentChan (k.proc p).parent)
  have hadopt : Summaries (k₁.adopt p) := by
    refine hwake.same (fun q => ?_) fun q i => ?_
    all_goals
      rw [Kernel.adopt, mapProc_proc]
      split_ifs <;> rfl
  have hrep : Summaries (k₁.reparent p) := by
    unfold Kernel.reparent
    split_ifs
    · exact hadopt.wakeup1 ((calm_adopt k₁ p).shape hs₁) _
    · exact hadopt
  refine hrep.updProc (f := Proc.exit) fun _ _ => ?_
  exact (Proc.summary_zombie (Proc.exit_not_live _)).symm

lemma Summaries.reap (hk : Summaries k) {q : Slot} (h : k.reap q = some k') : Summaries k' := by
  obtain ⟨k₁, h₁, rfl⟩ := Option.map_eq_some_iff.mp h
  obtain ⟨m, b, rfl⟩ := kfreeAll_eq h₁
  have hreap : Summaries (k.updProc q Proc.reap) :=
    hk.updProc (Proc.summary_of_not (Or.inl rfl))
  exact hreap

lemma Summaries.wait (hk : Summaries k) (h : k.wait p = some k') : Summaries k' := by
  unfold Kernel.wait at h
  split at h
  · obtain ⟨k₁, h₁, rfl⟩ := Option.map_eq_some_iff.mp h
    exact (hk.reap h₁).setCont .user
  · split_ifs at h
    · obtain rfl := Option.some.inj h
      exact hk.sleep _ _
    · obtain rfl := Option.some.inj h
      exact hk.setCont .user

lemma Summaries.exec (hk : Summaries k) (hs : Shape k) (hp : k.cpu = .run p) {sz : ℕ}
    (h : k.exec p sz = some k') : Summaries k' := by
  have hcalm : Calm k (k.updProc p fun x => x.commit sz) :=
    calm_updProc (CalmProc.of_eq rfl rfl rfl rfl)
  have hcommit : Summaries (k.updProc p fun x => x.commit sz) :=
    hk.updProc (f := fun x => x.commit sz) ((hk p).same rfl fun _ => rfl)
  obtain ⟨k₁, h₁, rfl⟩ := Option.map_eq_some_iff.mp h
  obtain ⟨m, b, rfl⟩ := kfreeAll_eq h₁
  have hs₁ := hcalm.shape hs
  have hp₁ : (k.updProc p fun x => x.commit sz).Current p := Or.inl hp
  have hinit : Summaries ((k.updProc p fun x => x.commit sz).updProc p
      fun x => x.initAllpth x.onTidx) := by
    refine hcommit.keepRunning hs₁ hp₁ rfl ?_
    rw [Proc.initAllpth_pth, if_pos rfl]
    exact (hs₁.place p hp₁).1
  exact hinit

lemma Summaries.threadCreate (hk : Summaries k) (hs : Shape k) (hp : k.cpu = .run p)
    {page : Option ℕ} {avail : ℕ} (h : k.threadCreate p page avail = some k') :
    Summaries k' := by
  obtain ⟨i, n, ok, y, -, hy, -⟩ := threadCreate_created h
  have hrun := (hs.place p (Or.inl hp)).1
  obtain ⟨sz, pgdir, ustacks, he⟩ := hy.proc
  have hnew : Summaries (k.updProc p fun _ => y) := by
    refine hk.keepRunning hs (Or.inl hp) (by rw [he]) ?_
    rw [hy.pth, if_neg]
    · exact hrun
    · intro hi
      have hslot := hy.slot
      rw [← hi] at hslot
      exact State.noConfusion (hrun.symm.trans hslot)
  intro q
  rw [hy.table]
  exact hnew q

lemma Summaries.threadExit (hk : Summaries k) (hs : Shape k) (p : Slot) (v : UInt32) :
    Summaries (k.threadExit p v) :=
  (hk.wakeup1 hs _).updProc (f := fun x => x.threadExit v) (Proc.summary_setProcState _)

lemma Summaries.threadJoin (hk : Summaries k) (p : Slot) (t : ℤ) (havepth : Bool) :
    Summaries (k.threadJoin p t havepth).2 := by
  unfold Kernel.threadJoin
  split
  · rename_i q i _
    split_ifs with hz
    · refine Summaries.setCont (p := p) (hk.updProc (p := q) (f := fun x => x.joinPth i)
        ((hk q).congr rfl fun j s hl => ?_)) .user
      by_cases hj : j = i
      · subst hj
        rw [Proc.joinPth, Proc.updPth_self, hz]
        exact iff_of_false (fun h => hl.ne_unused h.symm) fun h => hl.ne_zombie h.symm
      · rw [Proc.joinPth, Proc.updPth_of_ne _ _ hj]
    · exact hk.sleep _ _
  · split_ifs
    · exact hk.sleep _ _
    · exact hk.setCont .user

lemma Summaries.exitStep (hk : Summaries k) (hs : Shape k) {op : Op}
    (h : exitStep k p (k.proc p).mypth.cont op = some k') : Summaries k' := by
  rcases exitStep_eq_some h with ⟨fd, -, -, rfl⟩ | ⟨-, -, rfl⟩
  · unfold Kernel.exitFile
    split_ifs with hfd
    · exact (hk.updProc (p := p)
        (f := fun x => { x with ofile := Function.update x.ofile ⟨fd, hfd⟩ none })
        ((hk p).same rfl fun _ => rfl)).setCont _
    · exact (hk.updProc (p := p) (f := fun x => { x with cwd := none })
        ((hk p).same rfl fun _ => rfl)).setCont _
  · exact hk.exit hs p

lemma Summaries.sleepAddr (hk : Summaries k) (p : Slot) (a : ℕ) : Summaries (k.sleepAddr p a) :=
  hk.sleep _ _

/-! ### The runs -/

/-- A step that leaves the fast path of `scheduler` alone keeps the states right. -/
lemma Summaries.step {op : Op} (hk : Summaries k) (hs : Shape k) (h : Step k op k')
    (hsafe : NoFastPath k op) : Summaries k' := by
  unfold Step at h
  cases op with
  | userinit n => exact hk.userinit hs (Option.ite_none_right_eq_some.mp h).2
  | pass =>
    obtain ⟨-, h⟩ := Option.ite_none_right_eq_some.mp h
    obtain rfl := Option.some.inj h
    exact hk.pass _
  | schedule =>
    obtain ⟨p, hp, h⟩ := onSched_eq_some.mp h
    obtain rfl := Option.some.inj h
    exact hk.schedule (hsafe p hp)
  | timer =>
    obtain ⟨p, -, h⟩ := onCpu_eq_some.mp h
    obtain rfl := Option.some.inj h
    exact hk.timer hs
  | wakeup a =>
    obtain ⟨-, h⟩ := Option.ite_none_right_eq_some.mp h
    obtain rfl := Option.some.inj h
    exact hk.wakeup1 hs _
  | sleep a =>
    obtain ⟨p, -, h⟩ := onCpu_eq_some.mp h
    obtain rfl := Option.some.inj h
    exact hk.sleepAddr p a
  | kill pid =>
    obtain ⟨p, -, -, h⟩ := syscall_eq_some.mp h
    obtain rfl := Option.some.inj h
    exact hk.kill hs pid
  | forkAlloc =>
    obtain ⟨p, -, -, h⟩ := syscall_eq_some.mp h
    obtain rfl := Option.some.inj h
    exact hk.forkAlloc p
  | forkStack | forkCopy | forkDone =>
    obtain ⟨p, hp, h⟩ := onCpu_eq_some.mp h
    exact hk.forkStep hs hp h
  | exec sz =>
    obtain ⟨p, hp, -, h⟩ := syscall_eq_some.mp h
    exact hk.exec hs hp (Option.ite_none_right_eq_some.mp h).2
  | sbrk n avail =>
    obtain ⟨p, -, -, h⟩ := syscall_eq_some.mp h
    obtain ⟨x, hx, rfl⟩ := Option.map_eq_some_iff.mp (Option.ite_none_right_eq_some.mp h).2
    obtain ⟨r, -, rfl⟩ := Option.map_eq_some_iff.mp hx
    exact hk.updProc ((hk p).same rfl fun _ => rfl)
  | exitBegin =>
    obtain ⟨p, -, -, h⟩ := syscall_eq_some.mp h
    unfold Kernel.exitBegin at h
    split_ifs at h
    obtain rfl := Option.some.inj h
    exact hk.setCont _
  | exitFile | exit =>
    obtain ⟨p, -, h⟩ := onCpu_eq_some.mp h
    exact hk.exitStep hs (Option.ite_none_right_eq_some.mp h).2
  | wait =>
    obtain ⟨p, -, -, h⟩ := syscall_eq_some.mp h
    exact hk.wait h
  | threadCreate page avail =>
    obtain ⟨p, hp, -, h⟩ := syscall_eq_some.mp h
    exact hk.threadCreate hs hp h
  | threadExit v =>
    obtain ⟨p, -, -, h⟩ := syscall_eq_some.mp h
    obtain rfl := Option.some.inj h
    exact hk.threadExit hs p v
  | threadJoin t =>
    obtain ⟨p, -, -, h⟩ := syscall_eq_some.mp h
    obtain rfl := Option.some.inj h
    exact hk.threadJoin p t false
  | resume =>
    obtain ⟨p, -, h⟩ := onResume_eq_some.mp h
    rcases resumeStep_eq_some h with ⟨-, h⟩ | ⟨t, havepth, -, rfl⟩
    · exact hk.wait h
    · exact hk.threadJoin p t havepth
  | fdalloc f =>
    obtain ⟨p, -, h⟩ := onCpu_eq_some.mp h
    obtain ⟨-, h⟩ := Option.ite_none_right_eq_some.mp h
    obtain rfl := Option.some.inj h
    unfold Kernel.fdalloc
    split
    · exact hk
    · rename_i fd _
      exact hk.updProc (f := fun x => { x with ofile := Function.update x.ofile fd (some f) })
        ((hk p).same rfl fun _ => rfl)
  | close fd =>
    obtain ⟨p, -, h⟩ := onCpu_eq_some.mp h
    obtain ⟨-, h⟩ := Option.ite_none_right_eq_some.mp h
    obtain rfl := Option.some.inj h
    exact hk.updProc (f := fun x => { x with ofile := Function.update x.ofile fd none })
      ((hk p).same rfl fun _ => rfl)
  | chdir ip =>
    obtain ⟨p, -, h⟩ := onCpu_eq_some.mp h
    obtain ⟨-, h⟩ := Option.ite_none_right_eq_some.mp h
    obtain rfl := Option.some.inj h
    exact hk.updProc (f := fun x => { x with cwd := some ip }) ((hk p).same rfl fun _ => rfl)
  | beginOp =>
    obtain ⟨p, -, h⟩ := onCpu_eq_some.mp h
    obtain ⟨-, h⟩ := Option.ite_none_right_eq_some.mp h
    obtain rfl := Option.some.inj h
    unfold Kernel.beginOp
    split_ifs
    · exact hk.sleepAddr p _
    · exact hk.sleepAddr p _
    · exact hk.updMypth fun _ => rfl
  | endOp =>
    obtain ⟨p, -, h⟩ := onCpu_eq_some.mp h
    have h := (Option.ite_none_right_eq_some.mp h).2
    have hset : ∀ o, Summaries (k.setFsOp p o) := fun o => hk.updMypth fun _ => rfl
    unfold Kernel.endOp at h
    split_ifs at h
    · obtain rfl := Option.some.inj h
      exact hset _
    · obtain rfl := Option.some.inj h
      exact (hset _).wakeup1 ((calm_setFsOp k p .out).shape hs) _
  | commitDone =>
    obtain ⟨p, -, h⟩ := onCpu_eq_some.mp h
    obtain ⟨-, h⟩ := Option.ite_none_right_eq_some.mp h
    obtain rfl := Option.some.inj h
    have hset : Summaries (k.setFsOp p .out) := hk.updMypth fun _ => rfl
    exact hset.wakeup1 ((calm_setFsOp k p .out).shape hs) _
  | logWrite =>
    obtain ⟨p, -, h⟩ := onCpu_eq_some.mp h
    obtain ⟨-, h⟩ := Option.ite_none_right_eq_some.mp h
    unfold Kernel.logWrite at h
    split_ifs at h
    obtain rfl := Option.some.inj h
    exact hk
  | acquiresleep l =>
    obtain ⟨p, -, h⟩ := onCpu_eq_some.mp h
    obtain rfl := Option.some.inj h
    unfold Kernel.acquiresleep
    split_ifs
    · exact hk.sleepAddr p _
    · exact hk.updMypth fun _ => rfl
  | releasesleep l =>
    obtain ⟨p, -, h⟩ := onCpu_eq_some.mp h
    obtain ⟨-, h⟩ := Option.ite_none_right_eq_some.mp h
    obtain rfl := Option.some.inj h
    have hset : Summaries (k.setSleeplocks p ((k.proc p).mypth.sleeplocks.erase l)) :=
      hk.updMypth fun _ => rfl
    exact hset.wakeup1 ((calm_setSleeplocks k p _).shape hs) _

/-! ### The last thread of a process -/

/-- A process in use has a thread in use. -/
def Proc.Used (x : Proc) : Prop :=
  x.state ≠ .unused → x.state ≠ .embryo → ∃ i, (x.pth i).state ≠ .unused

lemma Still.used {x y : Proc} (h : Still x y) (hx : x.Used) : y.Used := by
  intro hun hem
  rw [ne_eq, h.state.eq_iff State.not_live_unused] at hun
  rw [ne_eq, h.state.eq_iff State.not_live_embryo] at hem
  obtain ⟨i, hi⟩ := hx hun hem
  refine ⟨i, ?_⟩
  rwa [ne_eq, (h.pth i).state.eq_iff State.not_live_unused]

lemma Major.used {q : Slot} {op : Op} {x y : Proc} (hs : Shape k) (h : Major k q op x y)
    (hop : ¬op.Joins) (hx : x.Used) : y.Used := by
  cases h with
  | grow h =>
    obtain ⟨r, -, rfl⟩ := Option.map_eq_some_iff.mp h
    exact hx
  | commit => exact hx
  | initAllpth hp he =>
    refine fun _ _ => ⟨x.onTidx, ?_⟩
    have hrun := (hs.place q (Or.inl hp)).1
    rw [Proc.initAllpth_pth, if_pos rfl, he]
    exact fun hun => State.noConfusion (hrun.symm.trans hun)
  | fsOp | sleeplocks =>
    intro hun hem
    obtain ⟨i, hi⟩ := hx hun hem
    refine ⟨i, ?_⟩
    rw [Proc.updMypth_pth]
    split_ifs with hmine
    · rwa [hmine] at hi
    · exact hi
  | exit hp _ _ _ hstill =>
    refine fun _ _ => ⟨(k.proc q).onTidx, ?_⟩
    have hlive := (hstill.pth _).state.live_iff.mpr (hs.live_current (Or.inl hp))
    dsimp only [Proc.exit]
    rw [if_neg hlive.ne_unused]
    exact State.noConfusion
  | threadExit c =>
    refine fun _ _ => ⟨((k.proc q).wakeup1 c).onTidx, ?_⟩
    rw [Proc.threadExit_pth, if_pos rfl]
    exact State.noConfusion
  | allocSlot => exact fun _ hem => absurd rfl hem
  | allocStack _ he => exact fun _ hem => absurd he hem
  | userinit =>
    refine fun _ _ => ⟨0, ?_⟩
    rw [Proc.userinit_first]
    exact State.noConfusion
  | allocFail | forkFail | reap => exact fun hun => absurd rfl hun
  | forkImage he => exact fun _ hem => absurd he hem
  | forkDone =>
    refine fun _ _ => ⟨0, ?_⟩
    rw [Proc.forkDone_first]
    exact State.noConfusion
  | @created i _ _ _ _ _ hp hy =>
    refine fun _ _ => ⟨(k.proc q).onTidx, ?_⟩
    have hrun := (hs.place q (Or.inl hp)).1
    rw [hy.pth, if_neg]
    · exact fun hun => State.noConfusion (hrun.symm.trans hun)
    · intro hi
      have hslot := hy.slot
      rw [← hi] at hslot
      exact State.noConfusion (hrun.symm.trans hslot)
  | joinPth hj => exact absurd hj hop

lemma Change.used {q : Slot} {op : Op} {x y : Proc} (hs : Shape k) (h : Change k q op x y)
    (hop : ¬op.Joins) (hx : x.Used) : y.Used := by
  rcases h.still_or hs with h | h
  · exact h.used hx
  · exact h.used hs hop hx

lemma Changes.used {q : Slot} {op : Op} {x y : Proc} (hs : Shape k) (h : Changes k q op x y)
    (hop : ¬op.Joins) (hx : x.Used) : y.Used :=
  Changes.lift (R := fun x y => x.Used → y.Used) (fun _ h => h) (fun _ _ _ h h' hx => h' (h hx))
    (fun _ _ h => h.used hs hop) h hx

/-- A round of `thread_join` that gives back no last thread. -/
lemma used_threadJoin (hs : Shape k) (hk : ∀ q, (k.proc q).Used) (hp : k.Current p) {t : ℤ}
    {havepth : Bool} (h : ∀ q i, k.joinScan t = some (q, i) → ((k.proc q).pth i).state = .zombie →
      ∃ j, j ≠ i ∧ ((k.proc q).pth j).state ≠ .unused) (r : Slot) :
    ((k.threadJoin p t havepth).2.proc r).Used := by
  have hsleep : ((k.sleep p (.word t) (.join t true)).proc r).Used := by
    rw [Kernel.sleep, setCpu_proc, updProc_proc]
    split_ifs with hr
    · exact (still_sleep hs hp _ _).used (hk p)
    · exact hk r
  have hgoOn : ∀ k₁ : Kernel, (∀ q, (k₁.proc q).Used) → ((k₁.setCont p .user).proc r).Used := by
    intro k₁ hk₁
    rw [Kernel.setCont, updProc_proc]
    split_ifs with hr
    · exact (still_setCont _ _).used (hk₁ p)
    · exact hk₁ r
  unfold Kernel.threadJoin
  split
  · rename_i q i hscan
    split_ifs with hz
    · refine hgoOn _ fun r => ?_
      rw [updProc_proc]
      split_ifs with hr
      · obtain ⟨j, hj, hjun⟩ := h q i hscan hz
        refine fun _ _ => ⟨j, ?_⟩
        rwa [Proc.joinPth, Proc.updPth_of_ne _ _ hj]
      · exact hk r
    · exact hsleep
  · split_ifs
    · exact hsleep
    · exact hgoOn k hk

lemma Step.used {op : Op} (hs : Shape k) (hk : ∀ q, (k.proc q).Used) (h : Step k op k')
    (hsafe : LeavesThread k op) (q : Slot) : (k'.proc q).Used := by
  cases hj : k.joinRound op with
  | some j =>
    obtain ⟨p, t, havepth⟩ := j
    obtain ⟨hp, rfl⟩ := h.joinRound hj
    exact used_threadJoin hs hk hp (hsafe p t havepth hj) q
  | none =>
    by_cases hop : op.Joins
    · -- `wait`, after its `sleep`
      cases op with
      | threadJoin t =>
        obtain ⟨p, hp, -, -⟩ := syscall_eq_some.mp h
        exact absurd hj (by simp [Kernel.joinRound, hp])
      | resume =>
        obtain ⟨p, hp, h⟩ := onResume_eq_some.mp h
        rcases resumeStep_eq_some h with ⟨-, h⟩ | ⟨t, havepth, hc, -⟩
        · have hwait : Op.Waits .wait := trivial
          exact (changes_wait hs hwait (Or.inr hp) h q).used hs (fun h => h) (hk q)
        · exact absurd hj (by simp [Kernel.joinRound, hp, hc])
      | _ => exact hop.elim
    · exact (h.changes hs q).used hs hop (hk q)

end

/-! ### The result -/

lemma summaries_of_reach {k : Kernel}
    (h : Reachable (· = Kernel.pinit) (Guarded Step NoFastPath) k) : Shape k ∧ Summaries k := by
  refine Reachable.invariant (I := fun k => Shape k ∧ Summaries k) ?_ ?_ h
  · rintro _ rfl
    exact ⟨shape_pinit, fun _ => Proc.summary_of_not (Or.inl rfl)⟩
  · rintro k op k' ⟨hs, hk⟩ ⟨hstep, hsafe⟩
    exact ⟨hs.step hstep, hk.step hs hstep hsafe⟩

lemma used_of_reach {k : Kernel} (h : Reachable (· = Kernel.pinit) (Guarded Step fun k op =>
    NoFastPath k op ∧ LeavesThread k op) k) :
    (Shape k ∧ Summaries k) ∧ ∀ q, (k.proc q).Used := by
  refine Reachable.invariant
    (I := fun k => (Shape k ∧ Summaries k) ∧ ∀ q, (k.proc q).Used) ?_ ?_ h
  · rintro _ rfl
    exact ⟨⟨shape_pinit, fun _ => Proc.summary_of_not (Or.inl rfl)⟩, fun _ hun => absurd rfl hun⟩
  · rintro k op k' ⟨⟨hs, hk⟩, hused⟩ ⟨hstep, hsafe, hleave⟩
    exact ⟨⟨hs.step hstep, hk.step hs hstep hsafe⟩, hstep.used hs hused hleave⟩

/-- The conditions do not depend on the threads that wait for a store. -/
lemma Settles.noFastPath {a k : Kernel} {op : Op} (h : Settles a k) (hk : NoFastPath k op) :
    NoFastPath a op := by
  cases op with
  | schedule =>
    intro p hp i hi hrun
    rw [(h.proc p).onTidx] at hi
    refine hk p (h.cpu ▸ hp) i hi ?_
    exact ((h.proc p).pth_state i State.noConfusion State.noConfusion).mp hrun
  | _ => trivial

lemma Settles.joinRound {a k : Kernel} (h : Settles a k) (ha : Shape a) (op : Op) :
    a.joinRound op = k.joinRound op := by
  unfold Kernel.joinRound
  cases op with
  | threadJoin t => rw [h.cpu]
  | resume =>
    dsimp only
    rw [h.cpu]
    split
    · rename_i p hp
      rw [h.sameCurrent ha (Or.inr hp)]
    · rfl
  | _ => rfl

lemma Settles.leavesThread {a k : Kernel} {op : Op} (h : Settles a k) (ha : Shape a)
    (hk : LeavesThread k op) : LeavesThread a op := by
  intro p t havepth hj q i hscan hz
  rw [h.joinRound ha] at hj
  rw [h.joinScan] at hscan
  have hzk := ((h.proc q).pth_state i (s := .zombie) State.noConfusion State.noConfusion).mp hz
  have hq : a.proc q = k.proc q := by
    refine h.sameThread ha (i := i) ?_ ?_
    · rw [hzk]
      exact State.noConfusion
    · rw [hzk]
      exact State.noConfusion
  rw [hq]
  exact hk p t havepth hj q i hscan hzk

lemma leavesThread_of_givesBack {k : Kernel} {op : Op} (h : op.GivesBack = true) :
    NoFastPath k op ∧ LeavesThread k op := by
  cases op with
  | forkStack page => exact ⟨trivial, fun _ _ _ hj => absurd hj (by simp [Kernel.joinRound])⟩
  | forkCopy ok => exact ⟨trivial, fun _ _ _ hj => absurd hj (by simp [Kernel.joinRound])⟩
  | _ => exact absurd h (by simp [Op.GivesBack])

/-- The property does not depend on the threads that wait for a store. -/
lemma Settles.stateRight {a k : Kernel} {f : Proc → State} (h : Settles a k)
    (ha : StateRight f a) : StateRight f k := by
  constructor
  · intro p hun hem
    have hp := (h.proc p).eq hun
    rw [← hp] at hem hun ⊢
    exact ha.state p hun hem
  · intro p hp
    rw [← (h.proc p).state]
    exact ha.running p (h.cpu.trans hp)

/-- The fast path leaves a running thread in a process that is not running. -/
theorem not_summaries_schedule {k : Kernel} (hs : Shape k) (hk : Summaries k) {p : Slot}
    (hp : k.cpu = .sched p) {i : Tidx} (hi : (k.proc p).onTidx < i)
    (hrun : ((k.proc p).pth i).state = .runnable) : ¬Summaries (k.schedule p) := by
  have hnone : ∀ j, ((k.proc p).pth j).state ≠ .running := by
    intro j hj
    rcases (hs.running p j hj).1 with h | h
    · exact absurd (hp.symm.trans h) (by simp)
    · exact absurd (hp.symm.trans h) (by simp)
  have hlive := (hs.proc p).alive (i := i) (Or.inr (Or.inl hrun))
  have hstate : (k.proc p).state = .runnable := by
    rw [hk p hlive.ne_unused hlive.ne_embryo, Proc.summary_runnable hnone hrun]
  obtain ⟨j, hj⟩ : ∃ j, nextPth (k.proc p) (tidxs.drop ((k.proc p).onTidx + 1)) = some j := by
    rw [← Option.isSome_iff_exists, nextPth, List.find?_isSome]
    exact ⟨i, mem_drop_of_lt hi, by simpa using hrun⟩
  unfold Kernel.schedule
  rw [hj]
  intro h
  have hsame : ((k.switchTo p j).proc p).state = .runnable := by
    simpa [Kernel.switchTo] using hstate
  have hpth : (((k.switchTo p j).proc p).pth j).state = .running := by
    simp [Kernel.switchTo]
  obtain ⟨hno, -⟩ := (h p).runnable hsame
  exact hno j hpth

/-- **The state of a process tells what its threads do**, in every run in which `scheduler`
leaves a process after each of its threads and no slot is taken between the two stores of a
failed `fork`: it is the one read off the threads.  When no process loses its last thread to
`thread_join`, it is the one that `set_proc_state` would compute. -/
theorem stateRight_of_noFastPath (s : CallState) :
    (ScheduleReach s → StateRight Proc.summary s.kernel) ∧
      (StateReach s → StateRight Proc.procState s.kernel) := by
  refine ⟨fun h => ?_, fun h => ?_⟩
  · obtain ⟨a, ha, hset⟩ := follows (C := NoFastPath) (fun _ h hk => h.noFastPath hk)
      (fun ho => (leavesThread_of_givesBack ho).1) h
    obtain ⟨hs, hk⟩ := summaries_of_reach ha
    exact hset.stateRight ⟨hk, fun p hp => hk.current hs (Or.inl hp)⟩
  · obtain ⟨a, ha, hset⟩ := follows
      (fun hs h hk => ⟨h.noFastPath hk.1, h.leavesThread hs hk.2⟩) leavesThread_of_givesBack h
    obtain ⟨⟨hs, hk⟩, hused⟩ := used_of_reach ha
    refine hset.stateRight ⟨fun p hun hem => ?_, fun p hp => hk.current hs (Or.inl hp)⟩
    obtain ⟨i, hi⟩ := hused p hun hem
    rw [Proc.procState_eq_of_used hi ((hs.proc p).notEmbryo hem i)]
    exact hk p hun hem

/-- The conditions, computed. -/
def stateSafe (k : Kernel) (op : Op) : Bool :=
  (match op with
    | .schedule => slots.all fun p => k.cpu ≠ .sched p || tidxs.all fun i =>
        i ≤ (k.proc p).onTidx || ((k.proc p).pth i).state ≠ .runnable
    | _ => true) &&
  match k.joinRound op with
    | none => true
    | some (_, t, _) =>
        match k.joinScan t with
        | none => true
        | some (q, i) => ((k.proc q).pth i).state ≠ .zombie ||
            tidxs.any fun j => j ≠ i && ((k.proc q).pth j).state ≠ .unused

lemma stateSafe_of_eq_true {k : Kernel} {op : Op} (h : stateSafe k op = true) :
    NoFastPath k op ∧ LeavesThread k op := by
  obtain ⟨hpath, hleave⟩ := Bool.and_eq_true_iff.mp h
  refine ⟨?_, fun p t havepth hj q i hscan hz => ?_⟩
  · cases op with
    | schedule =>
      intro p hp i hi hrun
      have hall := List.all_eq_true.mp hpath p (List.mem_finRange p)
      rw [hp] at hall
      have hall : ∀ i ∈ tidxs, i ≤ (k.proc p).onTidx ∨ ((k.proc p).pth i).state ≠ .runnable := by
        simpa using hall
      rcases hall i (List.mem_finRange i) with h | h
      · exact absurd hi (not_lt.mpr h)
      · exact h hrun
    | _ => trivial
  · rw [hj] at hleave
    dsimp only at hleave
    rw [hscan] at hleave
    have hleave : ∃ j ∈ tidxs, j ≠ i ∧ ((k.proc q).pth j).state ≠ .unused := by
      simpa [hz] using hleave
    obtain ⟨j, -, hj⟩ := hleave
    exact ⟨j, hj⟩

/-- The conditions of an operation of the finer system that is one of `step`. -/
def callSafe (s : CallState) : CallOp → Bool
  | .op op => stateSafe s.kernel op
  | _ => true

lemma callSafe_of_eq_true {s : CallState} {o : CallOp} (h : callSafe s o = true) (op : Op)
    (ho : o = .op op) : NoFastPath s.kernel op ∧ LeavesThread s.kernel op := by
  subst ho
  exact stateSafe_of_eq_true h

/-- The operation takes no slot. -/
def CallOp.takesNone : CallOp → Bool
  | .op .forkAlloc | .op (.userinit _) => false
  | _ => true

lemma noReuse_of_takesNone {s : CallState} {o : CallOp} (h : o.takesNone = true) : NoReuse s o := by
  unfold NoReuse
  split
  · exact absurd h (by simp [CallOp.takesNone])
  · exact absurd h (by simp [CallOp.takesNone])
  · trivial

/-- The first process has a child, which creates a thread and exits; the thread is joined.  Then
it calls `fork` again. -/
def stateOps : List CallOp :=
  callOps ([.userinit 1, .pass, .forkAlloc, .forkStack (some 2), .forkCopy true, .forkDone, .timer,
    .schedule, .threadCreate (some 3) 1, .exitBegin] ++ List.replicate (NOFILE + 1) .exitFile ++
    [.exit, .schedule, .pass, .threadJoin 3, .forkAlloc])

/-- No page is left.  The process is preempted between the two stores. -/
def giveUpOps : List CallOp := [.giveUp, .op .timer, .op .schedule, .op .pass, .undo]

/-- The child is a zombie, and has its first thread left; the second slot is unused again. -/
theorem stateRight_of_noFastPath_join : ∃ s, StateReach s ∧ s.kernel.cpu = .run 0 ∧
    ((s.kernel.proc 1).pth 1).state = .unused ∧ (s.kernel.proc 1).state = .zombie ∧
    (s.kernel.proc 2).state = .unused ∧ ((s.kernel.proc 2).pth 0).state = .unused ∧
    (s.kernel.proc 1).procState = .zombie ∧ (s.kernel.proc 0).state = .running := by
  have hrun : ((run (guardedNext callStep fun s o => callSafe s o = true ∧ o ≠ .giveUp)
      CallState.pinit stateOps).any fun s₁ =>
        (run (guardedNext callStep fun s o => callSafe s o = true ∧ o.takesNone = true) s₁
          giveUpOps).any fun s => decide (s.kernel.cpu = .run 0 ∧
            ((s.kernel.proc 1).pth 1).state = .unused ∧ (s.kernel.proc 1).state = .zombie ∧
            (s.kernel.proc 2).state = .unused ∧
            ((s.kernel.proc 2).pth 0).state = .unused)) = true := by
    decide +kernel
  obtain ⟨s₁, hs₁, hall⟩ := (Option.any_eq_true _ _).mp hrun
  obtain ⟨s, hs, hall⟩ := (Option.any_eq_true _ _).mp hall
  have hnext₁ : ∀ s o s', guardedNext callStep (fun s o => callSafe s o = true ∧ o ≠ .giveUp)
      s o = some s' → Guarded CallStep (fun s o => callSafe s o = true ∧ o ≠ .giveUp) s o s' :=
    fun s o s' h => guardedNext_eq_some.mp h
  have hreach₁ : Reachable (· = CallState.pinit) (Guarded CallStep fun s o =>
      callSafe s o = true ∧ o ≠ .giveUp) s₁ := Reachable.run hnext₁ (.start rfl) hs₁
  have hreach : StateReach s := by
    refine Reachable.run (fun s o s' h => ?_)
      ((meets_of_not_giveUp (C := fun s o => callSafe s o = true) hreach₁).2.mono ?_) hs
    · obtain ⟨hstep, hsafe, hnone⟩ := guardedNext_eq_some.mp h
      exact ⟨hstep, noReuse_of_takesNone hnone, callSafe_of_eq_true hsafe⟩
    · rintro s o s' ⟨hstep, hno, hsafe⟩
      exact ⟨hstep, hno, callSafe_of_eq_true hsafe⟩
  obtain ⟨hcpu, hun, hz, hnp, hfirst⟩ := of_decide_eq_true hall
  have hright := (stateRight_of_noFastPath s).2 hreach
  refine ⟨s, hreach, hcpu, hun, hz, hnp, hfirst, ?_, hright.running 0 hcpu⟩
  rw [← hright.state 1 (by rw [hz]; exact State.noConfusion) (by rw [hz]; exact State.noConfusion),
    hz]

/-- The first process creates a thread, and is preempted. -/
def fastPathOps : List CallOp :=
  callOps [.userinit 1, .pass, .threadCreate (some 2) 1, .timer, .schedule]

/-- The new thread executes, and its process is not running: the timer does not preempt it. -/
theorem not_stateRight : ∃ s, CallReach s ∧ s.kernel.LockFree ∧ s.kernel.cpu = .run 0 ∧
    ((s.kernel.proc 0).pth 1).state = .running ∧ (s.kernel.proc 0).state = .runnable ∧
    (s.kernel.timer 0).cpu = .run 0 ∧ ¬StateRight Proc.summary s.kernel ∧
    ¬StateRight Proc.procState s.kernel := by
  have hrun : ((run callStep CallState.pinit fastPathOps).any fun s =>
      decide (s.kernel.LockFree ∧ s.kernel.cpu = .run 0 ∧
        ((s.kernel.proc 0).pth 1).state = .running ∧ (s.kernel.proc 0).state = .runnable ∧
        (s.kernel.timer 0).cpu = .run 0)) = true := by
    decide +kernel
  obtain ⟨s, hs, hall⟩ := (Option.any_eq_true _ _).mp hrun
  obtain ⟨hfree, hcpu, hpth, hstate, htimer⟩ := of_decide_eq_true hall
  have hne : (s.kernel.proc 0).state ≠ .running := by
    rw [hstate]
    exact State.noConfusion
  exact ⟨s, Reachable.run (fun _ _ _ h => h) (.start rfl) hs, hfree, hcpu, hpth, hstate, htimer,
    fun h => hne (h.running 0 hcpu), fun h => hne (h.running 0 hcpu)⟩

/-- The first process is preempted between the two stores of a failed `fork`, and its child takes
the slot for a `fork` that succeeds. -/
def reuseOps : List CallOp :=
  callOps [.userinit 1, .pass, .forkAlloc, .forkStack (some 2), .forkCopy true, .forkDone,
    .forkAlloc] ++ [.giveUp] ++
  callOps [.timer, .schedule, .forkAlloc, .forkStack (some 3), .forkCopy true, .forkDone, .timer,
    .schedule, .timer, .schedule, .pass] ++ [.undo]

/-- The second store hits the new process: it is runnable, and has no thread. -/
theorem not_stateRight_reuse : ∃ s, Reachable (· = CallState.pinit) (Guarded CallStep fun s o =>
      ∀ op, o = .op op → NoFastPath s.kernel op ∧ LeavesThread s.kernel op) s ∧
    s.kernel.LockFree ∧ (s.kernel.proc 2).state = .runnable ∧
    ((s.kernel.proc 2).pth 0).state = .unused ∧ ¬StateRight Proc.summary s.kernel ∧
    ¬StateRight Proc.procState s.kernel := by
  have hrun : ((run (guardedNext callStep fun s o => callSafe s o = true) CallState.pinit
      reuseOps).any fun s => decide (s.kernel.LockFree ∧ (s.kernel.proc 2).state = .runnable ∧
        ((s.kernel.proc 2).pth 0).state = .unused ∧
        (s.kernel.proc 2).summary ≠ .runnable ∧ (s.kernel.proc 2).procState ≠ .runnable)) =
      true := by
    decide +kernel
  obtain ⟨s, hs, hall⟩ := (Option.any_eq_true _ _).mp hrun
  obtain ⟨hfree, hstate, hpth, hsum, hproc⟩ := of_decide_eq_true hall
  have hnext : ∀ s o s', guardedNext callStep (fun s o => callSafe s o = true) s o = some s' →
      Guarded CallStep (fun s o => ∀ op, o = .op op → NoFastPath s.kernel op ∧
        LeavesThread s.kernel op) s o s' := fun s o s' h =>
    ⟨(guardedNext_eq_some.mp h).1, callSafe_of_eq_true (guardedNext_eq_some.mp h).2⟩
  have hreach : Reachable (· = CallState.pinit) (Guarded CallStep fun s o =>
      ∀ op, o = .op op → NoFastPath s.kernel op ∧ LeavesThread s.kernel op) s :=
    Reachable.run hnext (.start rfl) hs
  have hun : (s.kernel.proc 2).state ≠ .unused := by
    rw [hstate]
    exact State.noConfusion
  have hem : (s.kernel.proc 2).state ≠ .embryo := by
    rw [hstate]
    exact State.noConfusion
  exact ⟨s, hreach, hfree, hstate, hpth, fun h => hsum ((h.state 2 hun hem).symm.trans hstate),
    fun h => hproc ((h.state 2 hun hem).symm.trans hstate)⟩

end Xv6Projects.Threads
