import Xv6Projects.Mlfq.Lookup
import Xv6Projects.Mlfq.Moves

/-!
# `setpriority` among the operations of other processes

`setpriority` looks the slot up under `ptable.lock`, releases the lock, and writes the priority
after that.  In between other processes fork, exit and wait.
-/

namespace Xv6Projects.Mlfq

open Library Kernel

/-- Where a call of `setpriority` stands. -/
inductive Call
  /-- Before the lock is taken. -/
  | start
  /-- The lock has been released; `target_proc` is the slot that was found. -/
  | found (target : Option Slot)
  | done (r : ℤ)
deriving DecidableEq, Repr

/-- The kernel with one call of `setpriority`.  `hit` is the entry whose priority the call has
written, as it was before. -/
structure Race where
  kernel : Kernel
  call : Call
  hit : Option Proc

/-- The process that performs an operation. -/
def Op.caller : Op → Option Slot
  | .forkAlloc c | .forkFail c | .forkDone c | .exit c | .wait c | .kill c _ | .sleep c _
  | .yield c | .tick c _ | .setpriority c _ _ | .setmonopoly c _ _ | .monopolize c
  | .unmonopolize c => some c
  | .userinit | .scheduler | .wakeup _ | .priorityBoost => none

/-- What can happen while process `c` is in `setpriority`: an operation of another process, or a
timer interrupt, at which `c` may lose the CPU. -/
def Foreign (c : Slot) (op : Op) : Prop := op.caller ≠ some c ∨ op = .tick c false

instance (c : Slot) (op : Op) : Decidable (Foreign c op) := inferInstanceAs (Decidable (_ ∨ _))

namespace Race

/-- The next step of the call. -/
def callNext (s : Race) (pid priority : ℤ) : Option Race :=
  match s.call with
  | .start =>
      if priority < 0 ∨ 10 < priority then some { s with call := .done (-2) }
      else (setpriorityFind s.kernel pid).map fun o => { s with call := .found o }
  | .found none => some { s with call := .done (-1) }
  | .found (some i) =>
      some ⟨s.kernel.setProc i { s.kernel.proc i with priority := priority }, .done 0,
        some (s.kernel.proc i)⟩
  | .done _ => none

/-- A step of the call by process `c` (`none`), or an operation in between. -/
def step (c : Slot) (pid priority : ℤ) (s : Race) : Option Op → Option Race
  | none => if (s.kernel.proc c).state = .running then s.callNext pid priority else none
  | some op =>
      if Foreign c op then (Mlfq.step s.kernel op).map fun k => { s with kernel := k } else none

/-- The step leads from one state to the other. -/
def Step (c : Slot) (pid priority : ℤ) (s : Race) (l : Option Op) (s' : Race) : Prop :=
  s.step c pid priority l = some s'

/-- The call starts in a reachable state. -/
def Start (s : Race) : Prop := Reach s.kernel ∧ s.call = .start ∧ s.hit = none

end Race

/-- The entry that the call writes is that of a process with the pid, a return value of `0` means
that there was one, and a negative value that nothing was written. -/
structure RaceRight (pid : ℤ) (s : Race) : Prop where
  hit : ∀ p, s.hit = some p → p.pid = pid ∧ p.state ≠ .unused
  success : s.call = .done 0 → ∃ p, s.hit = some p ∧ p.pid = pid ∧ p.state ≠ .unused
  refused : ∀ r, s.call = .done r → r < 0 → s.hit = none

/-- The first slot with the pid is in use when it is looked up, and between the look-up and the
write no `wait` reaps it and no failing `fork` gives it back. -/
def RaceSafe (pid : ℤ) (s : Race) : Option Op → Prop
  | none => s.call = .start → ∀ i, (hits s.kernel pid).head? = some i →
      (s.kernel.proc i).state ≠ .unused
  | some (.wait c) => s.call ≠ .found (zombieChild s.kernel c) ∨ zombieChild s.kernel c = none
  | some (.forkFail c) => s.call ≠ .found (s.kernel.proc c).np ∨ (s.kernel.proc c).np = none
  | some _ => True

variable {k k' : Kernel} {op : Op} {pid priority : ℤ} {c i : Slot} {s s' : Race}

/-! ### A slot that stays in use -/

lemma InUse.steady (h : InUse k pid i) (hs : Steady k k') : InUse k' pid i :=
  ⟨fun hu => h.1 ((hs.proc i).used.mp hu), (hs.proc i).pid.trans h.2⟩

/-- A slot in use keeps its pid, unless it is reaped or a failing `fork` gives it back. -/
lemma InUse.move (h : InUse k pid i) (hm : Move k op k')
    (hwait : ∀ c, op = .wait c → zombieChild k c ≠ some i)
    (hfail : ∀ c, op = .forkFail c → (k.proc c).np ≠ some i) : InUse k' pid i := by
  have hother : ∀ {k k₁ : Kernel} {j : Slot} {p : Proc}, InUse k pid i → i ≠ j →
      k₁.proc = Function.update k.proc j p → InUse k₁ pid i := by
    intro k k₁ j p h hij hproc
    rw [InUse, hproc, Function.update_of_ne hij]
    exact h
  cases hm with
  | steady _ hs => exact h.steady hs
  | @alloc _ k₁ _ j _ hs hj hs' =>
    refine InUse.steady ?_ hs'
    have h₁ := h.steady hs
    refine hother h₁ ?_ (allocSlot_proc k₁ j)
    rintro rfl
    exact h₁.1 hj
  | @fail c j _ hc _ hs =>
    refine InUse.steady ?_ hs
    refine hother (j := j) (p := { k.proc j with state := .unused }) h ?_ rfl
    rintro rfl
    exact hfail c rfl hc
  | @reap c j _ hz hs =>
    refine InUse.steady ?_ hs
    refine hother (j := j) (p := { k.proc j with
      state := .unused, pid := 0, parent := none, killed := false }) h ?_ rfl
    rintro rfl
    exact hwait c rfl hz
  | @dispatch d _ hd hs =>
    refine InUse.steady ?_ hs
    cases d with
    | none => exact h
    | some j =>
      by_cases hij : i = j
      · rw [InUse, ← hij, dispatched, setProc_proc, Function.update_self]
        exact ⟨by simp, h.2⟩
      · exact hother (j := j) (p := { k.proc j with state := .running, chan := .null }) h hij rfl
  | ends _ hs => exact InUse.steady (k := unmonopolize k) h hs
  | tick _ hs => exact InUse.steady (k := k.setGlobalTick (tickAfter k)) h hs
  | monopolize _ => exact h
  | unmonopolize => exact h

/-! ### One step -/

/-- What holds of a call all the time: the slot that was found stays in use, with the pid. -/
structure RaceInv (pid : ℤ) (s : Race) : Prop where
  forks : Forks s.kernel
  found : ∀ i, s.call = .found (some i) → InUse s.kernel pid i
  pending : ∀ o, s.call = .start ∨ s.call = .found o → s.hit = none
  right : RaceRight pid s

lemma RaceInv.callNext (h : RaceInv pid s) (hs : s.callNext pid priority = some s')
    (hsafe : RaceSafe pid s none) : RaceInv pid s' := by
  rw [Race.callNext] at hs
  cases hc : s.call with
  | start =>
    have hnone : s.hit = none := h.pending none (.inl hc)
    rw [hc] at hs
    dsimp only at hs
    by_cases hrange : priority < 0 ∨ 10 < priority
    · rw [if_pos hrange] at hs
      obtain rfl := Option.some.inj hs
      exact ⟨h.forks, by simp, by simp, ⟨h.right.hit, by simp, fun _ _ _ => hnone⟩⟩
    · rw [if_neg hrange] at hs
      obtain ⟨o, ho, rfl⟩ := Option.map_eq_some_iff.mp hs
      refine ⟨h.forks, fun i hi => ?_, fun _ _ => hnone, ⟨h.right.hit, by simp, by simp⟩⟩
      -- the slot that was found is the first one with the pid
      obtain ⟨ka, ha, hfind⟩ := Option.map_eq_some_iff.mp ho
      obtain ⟨-, rfl⟩ := acquire_eq_some.mp ha
      rw [setLocked_proc, find_pid] at hfind
      obtain rfl := Call.found.inj hi
      exact ⟨hsafe hc i hfind, mem_hits.mp (List.mem_of_mem_head? hfind)⟩
  | found o =>
    have hnone : s.hit = none := h.pending o (.inr hc)
    rw [hc] at hs
    cases o with
    | none =>
      obtain rfl := Option.some.inj hs
      exact ⟨h.forks, by simp, by simp, ⟨h.right.hit, by simp, fun _ _ _ => hnone⟩⟩
    | some i =>
      obtain rfl := Option.some.inj hs
      have hi := h.found i hc
      refine ⟨h.forks.keeps (KeepsForks.setProc rfl id), by simp, by simp, ⟨?_, ?_, ?_⟩⟩
      · intro p hp
        obtain rfl := Option.some.inj hp
        exact ⟨hi.2, hi.1⟩
      · exact fun _ => ⟨_, rfl, hi.2, hi.1⟩
      · intro r hr hneg
        obtain rfl := Call.done.inj hr
        exact absurd hneg (lt_irrefl 0)
  | done r =>
    rw [hc] at hs
    exact absurd hs (by simp)

/-- An operation in between. -/
lemma RaceInv.other (h : RaceInv pid s) (hs : Mlfq.Step s.kernel op k')
    (hsafe : RaceSafe pid s (some op)) : RaceInv pid { s with kernel := k' } := by
  refine ⟨(step_effect h.forks hs).1, fun i hi => ?_, h.pending,
    ⟨h.right.hit, h.right.success, h.right.refused⟩⟩
  refine (h.found i hi).move (step_move h.forks hs) ?_ ?_
  · rintro c rfl hz
    rcases hsafe with hne | hn
    · exact hne (hz ▸ hi)
    · exact absurd (hz.symm.trans hn) (by simp)
  · rintro c rfl hnp
    rcases hsafe with hne | hn
    · exact hne (hnp ▸ hi)
    · exact absurd (hnp.symm.trans hn) (by simp)

lemma RaceInv.step {l : Option Op} (h : RaceInv pid s) (hs : Race.Step c pid priority s l s')
    (hsafe : RaceSafe pid s l) : RaceInv pid s' := by
  cases l with
  | none =>
    rw [Race.Step, Race.step] at hs
    split_ifs at hs
    exact h.callNext hs hsafe
  | some op =>
    rw [Race.Step, Race.step] at hs
    split_ifs at hs
    obtain ⟨k', hk, rfl⟩ := Option.map_eq_some_iff.mp hs
    exact h.other hk hsafe

/-! ### Every interleaving -/

lemma forks_of_reach (h : Reach k) : Forks k := by
  refine Reachable.invariant (I := Forks) ?_ (fun k op k' hf hs => (step_effect hf hs).1) h
  rintro k rfl
  exact forks_pinit

/-- **`setpriority` hits only the process it names** in every interleaving in which the slot that
it has found is not given back before it writes. -/
theorem raceRight_of_raceSafe
    (h : Reachable Race.Start (Guarded (Race.Step c pid priority) (RaceSafe pid)) s) :
    RaceRight pid s := by
  have hinv : RaceInv pid s := by
    refine h.invariant (I := fun s => RaceInv pid s) ?_ fun s l s' h hs => h.step hs.1 hs.2
    rintro s ⟨hk, hcall, hhit⟩
    refine ⟨forks_of_reach hk, ?_, fun _ _ => hhit, ⟨?_, ?_, ?_⟩⟩
    · simp [hcall]
    · simp [hhit]
    · simp [hcall]
    · simp [hcall]
  exact hinv.right

instance (pid : ℤ) (s : Race) : (l : Option Op) → Decidable (RaceSafe pid s l)
  | none => inferInstanceAs (Decidable (_ → ∀ _, _ → _))
  | some (.wait _) | some (.forkFail _) => inferInstanceAs (Decidable (_ ∨ _))
  | some .userinit | some .scheduler | some (.forkAlloc _) | some (.forkDone _) | some (.exit _)
  | some (.kill _ _) | some (.sleep _ _) | some (.wakeup _) | some (.yield _) | some (.tick _ _)
  | some .priorityBoost | some (.setpriority _ _ _) | some (.setmonopoly _ _ _)
  | some (.monopolize _) | some (.unmonopolize _) => isTrue trivial

/-- The first process has two children, and all three have been dispatched. -/
def siblingOps : List Op :=
  [.userinit, .scheduler, .forkAlloc 0, .forkDone 0, .forkAlloc 0, .forkDone 0, .scheduler,
    .scheduler]

/-- The second child names the first one, which exits in between. -/
theorem raceRight_of_raceSafe_sibling : ∃ s₀ s : Race, Race.Start s₀ ∧
    Reachable (· = s₀) (Guarded (Race.Step 2 2 7) (RaceSafe 2)) s ∧ s.call = .done 0 ∧
      RaceRight 2 s := by
  have hrun : ((run Mlfq.step pinit siblingOps).any fun k =>
      (run (guardedNext (Race.step 2 2 7) (RaceSafe 2)) ⟨k, .start, none⟩
        [none, some (.tick 2 false), some (.exit 1), none]).any fun s =>
          decide (s.call = .done 0)) = true := by
    decide +kernel
  obtain ⟨k, hk, hall⟩ := (Option.any_eq_true _ _).mp hrun
  obtain ⟨s, hs, hdone⟩ := (Option.any_eq_true _ _).mp hall
  have hreach : Reach k := Reachable.run (fun _ _ _ h => h) (.start rfl) hk
  have hstart : Race.Start ⟨k, .start, none⟩ := ⟨hreach, rfl, rfl⟩
  have hnext : ∀ s l s', guardedNext (Race.step 2 2 7) (RaceSafe 2) s l = some s' →
      Guarded (Race.Step 2 2 7) (RaceSafe 2) s l s' := fun _ _ _ h => guardedNext_eq_some.mp h
  have hstretch : Reachable (· = ⟨k, .start, none⟩) (Guarded (Race.Step 2 2 7) (RaceSafe 2)) s :=
    Reachable.run hnext (.start rfl) hs
  have hrace : Reachable Race.Start (Guarded (Race.Step 2 2 7) (RaceSafe 2)) s :=
    Reachable.run hnext (.start hstart) hs
  exact ⟨_, s, hstart, hstretch, of_decide_eq_true hdone, raceRight_of_raceSafe hrace⟩

/-- The first child exits and is reaped, and its slot goes to a third child, which is hit. -/
theorem not_raceRight : ∃ s : Race, Reachable Race.Start (Race.Step 2 2 7) s ∧
    s.call = .done 0 ∧ (∃ p, s.hit = some p ∧ p.pid = 4) ∧ ¬RaceRight 2 s := by
  have hrun : ((run Mlfq.step pinit siblingOps).any fun k =>
      (run (Race.step 2 2 7) ⟨k, .start, none⟩ [none, some (.exit 1), some (.wait 0),
        some (.forkAlloc 0), none]).any fun s =>
          decide (s.call = .done 0 ∧ s.hit.map Proc.pid = some 4)) = true := by
    decide +kernel
  obtain ⟨k, hk, hall⟩ := (Option.any_eq_true _ _).mp hrun
  obtain ⟨s, hs, hend⟩ := (Option.any_eq_true _ _).mp hall
  obtain ⟨hdone, hpid⟩ := of_decide_eq_true hend
  have hreach : Reach k := Reachable.run (fun _ _ _ h => h) (.start rfl) hk
  have hstart : Race.Start ⟨k, .start, none⟩ := ⟨hreach, rfl, rfl⟩
  obtain ⟨p, hp, hpid⟩ := Option.map_eq_some_iff.mp hpid
  refine ⟨s, Reachable.run (fun _ _ _ h => h) (.start hstart) hs, hdone, ⟨p, hp, hpid⟩, fun h => ?_⟩
  have hbad := (h.hit p hp).1
  rw [hpid] at hbad
  exact absurd hbad (by norm_num)

end Xv6Projects.Mlfq
