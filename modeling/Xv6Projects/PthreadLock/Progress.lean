import Xv6Projects.PthreadLock.Exclusion

/-!
# No deadlocked state of the lock

If every thread inside `lock` were held at its spin test, then so would be one at the highest
level.  The thread that it waits for has announced at least that level, so it is at the same one,
and then both of them are the last writer of the same `turn[i]`.
-/

namespace Xv6Projects.PthreadLock

open Library

variable {N : ℕ}

/-- The level and the other thread of the spin test at which a thread stands. -/
def Pc.spinning : Pc → Option (ℕ × ℕ)
  | .spin i other | .gotOther i other _ | .gotOwn i other _ | .readTurn i other => some (i, other)
  | .outside | .level _ | .writeTurn _ | .scan _ _ | .critical => none

/-- The thread is between the call of `lock` and its return. -/
def Pc.InLock (p : Pc) : Prop := p ≠ .outside ∧ p ≠ .critical

/-- Thread `t` is not at its spin test, or the exit condition of the test is true. -/
def CanLeave (s : State N) (t : Fin N) : Prop :=
  ∀ i other, (s.pc t).spinning = some (i, other) → s.flag other < s.flag t ∨ s.turn i ≠ t

lemma Pc.announced_of_spinning {p : Pc} {i other : ℕ} (h : p.spinning = some (i, other)) :
    p.announced N = i + 1 := by
  cases p <;> simp_all [spinning, announced]

/-! ### The other thread of a spin test -/

/-- A thread waits for another thread only. -/
def SpinsOnOther (s : State N) : Prop :=
  ∀ t i other, (s.pc t).spinning = some (i, other) → other < N ∧ other ≠ t

lemma SpinsOnOther.move {s s' : State N} (h : SpinsOnOther s) {t : Fin N} {p : Pc}
    (hpc : s'.pc = Function.update s.pc t p)
    (hp : ∀ i other, p.spinning = some (i, other) → other < N ∧ other ≠ t) : SpinsOnOther s' := by
  intro u i other hu
  rw [hpc] at hu
  by_cases hut : u = t
  · subst hut
    rw [Function.update_self] at hu
    exact hp i other hu
  · rw [Function.update_of_ne hut] at hu
    exact h u i other hu

lemma SpinsOnOther.step {s : State N} (h : SpinsOnOther s) (t : Fin N) (ownFirst : Bool) :
    SpinsOnOther (step s t ownFirst) := by
  -- at the spin test the thread stays at the same one or leaves it
  have hstay : ∀ {i other : ℕ} {p : Pc}, (s.pc t).spinning = some (i, other) →
      p.spinning = some (i, other) ∨ p.spinning = none → SpinsOnOther (s.goto t p) := by
    intro i other p hspin hp
    refine h.move rfl fun j o hj => ?_
    rcases hp with hp | hp
    · obtain ⟨rfl, rfl⟩ := Prod.mk.inj (Option.some.inj (hp.symm.trans hj))
      exact h t i other hspin
    · exact absurd (hp.symm.trans hj) (by simp)
  cases hpc : s.pc t with
  | outside =>
    simp only [PthreadLock.step, hpc]
    exact h.move rfl (by simp [Pc.spinning])
  | level i =>
    simp only [PthreadLock.step, hpc]
    split_ifs
    · exact h.move rfl (by simp [Pc.spinning])
    · exact h.move rfl (by simp [Pc.spinning])
  | writeTurn i =>
    simp only [PthreadLock.step, hpc]
    exact h.move rfl (by simp [Pc.spinning])
  | scan i other =>
    simp only [PthreadLock.step, hpc]
    split_ifs with hlt hself
    · exact h.move rfl (by simp [Pc.spinning])
    · refine h.move rfl fun j o hj => ?_
      obtain ⟨-, rfl⟩ := Prod.mk.inj (Option.some.inj hj)
      exact ⟨hlt, hself⟩
    · exact h.move rfl (by simp [Pc.spinning])
  | spin i other =>
    have hspin : (s.pc t).spinning = some (i, other) := by rw [hpc]; rfl
    simp only [PthreadLock.step, hpc]
    split_ifs
    · exact hstay hspin (.inl rfl)
    · exact hstay hspin (.inl rfl)
  | gotOther i other v =>
    have hspin : (s.pc t).spinning = some (i, other) := by rw [hpc]; rfl
    simp only [PthreadLock.step, hpc]
    split_ifs
    · exact hstay hspin (.inr rfl)
    · exact hstay hspin (.inl rfl)
  | gotOwn i other w =>
    have hspin : (s.pc t).spinning = some (i, other) := by rw [hpc]; rfl
    simp only [PthreadLock.step, hpc]
    split_ifs
    · exact hstay hspin (.inr rfl)
    · exact hstay hspin (.inl rfl)
  | readTurn i other =>
    have hspin : (s.pc t).spinning = some (i, other) := by rw [hpc]; rfl
    simp only [PthreadLock.step, hpc]
    split_ifs
    · exact hstay hspin (.inr rfl)
    · exact hstay hspin (.inl rfl)
  | critical =>
    simp only [PthreadLock.step, hpc]
    exact h.move rfl (by simp [Pc.spinning])

lemma spinsOnOther_of_reach {s : State N} (h : Reach N s) : SpinsOnOther s := by
  refine Reachable.invariant (fun s hs => ?_) (fun s l s' hi hs => ?_) h
  · subst hs
    simp [SpinsOnOther, State.init, Pc.spinning]
  · subst hs
    exact hi.step l.1 l.2

/-! ### The highest level -/

/-- A thread that cannot leave waits for a thread that has announced at least its level. -/
lemma Inv.waits {s : State N} (h : Inv s) {t : Fin N} (ht : ¬CanLeave s t) :
    ∃ i other, (s.pc t).spinning = some (i, other) ∧ s.turn i = t ∧ i + 1 ≤ s.flag other := by
  simp only [CanLeave, not_forall, not_or, not_lt, not_not] at ht
  obtain ⟨i, other, hspin, hflag, hturn⟩ := ht
  rw [h.flag_eq t, Pc.announced_of_spinning hspin] at hflag
  exact ⟨i, other, hspin, hturn, hflag⟩

/-- **No deadlock.**  In every interleaving, when some thread is inside `lock` and none is between
the return of `lock` and the end of `unlock`, some thread inside `lock` can go on. -/
theorem lock_not_deadlocked {s : State N} (hs : Reach N s) (hin : ∃ t, (s.pc t).InLock)
    (hout : ∀ t, s.pc t ≠ .critical) : ∃ t, (s.pc t).InLock ∧ CanLeave s t := by
  have hinv := inv_of_reach hs
  by_contra hstuck
  have hwait : ∀ t, (s.pc t).InLock → ¬CanLeave s t := fun t ht hc => hstuck ⟨t, ht, hc⟩
  -- a thread inside `lock` at the highest level
  obtain ⟨t₀, ht₀⟩ := hin
  obtain ⟨t, ht, hmax⟩ := Set.exists_max_image {t | (s.pc t).InLock}
    (fun t => (s.pc t).announced N) (Set.toFinite _) ⟨t₀, ht₀⟩
  obtain ⟨i, other, hspin, hturn, hflag⟩ := hinv.waits (hwait t ht)
  obtain ⟨hlt, hne⟩ := spinsOnOther_of_reach hs t i other hspin
  -- the thread it waits for is inside `lock`, too
  obtain ⟨u, rfl⟩ : ∃ u : Fin N, (u : ℕ) = other := ⟨⟨other, hlt⟩, rfl⟩
  have hann : i + 1 ≤ (s.pc u).announced N := hinv.flag_eq u ▸ hflag
  have hu : (s.pc u).InLock := by
    refine ⟨fun hp => ?_, hout u⟩
    rw [hp, Pc.announced] at hann
    omega
  obtain ⟨j, other', hspin', hturn', -⟩ := hinv.waits (hwait u hu)
  -- at the same level
  have hji : j = i := by
    have hle : (s.pc u).announced N ≤ (s.pc t).announced N := hmax u hu
    rw [Pc.announced_of_spinning hspin, Pc.announced_of_spinning hspin'] at hle
    rw [Pc.announced_of_spinning hspin'] at hann
    omega
  rw [hji, hturn] at hturn'
  exact hne hturn'.symm

/-- Two threads at their spin tests: the first one can go on. -/
theorem lock_not_deadlocked_two :
    let s := ([0, 0, 0, 0, 0, 1, 1, 1, 1] : List (Fin 2)).foldl
      (fun s t => step s t true) (State.init 2)
    (∀ t, (s.pc t).spinning.isSome) ∧ ∃ t, (s.pc t).InLock ∧ CanLeave s t := by
  have reach : ∀ (l : List (Fin 2)) (s : State 2), Reach 2 s →
      Reach 2 (l.foldl (fun s t => step s t true) s) := by
    intro l
    induction l with
    | nil => exact fun s hs => hs
    | cons t l ih => exact fun s hs => ih _ (.next (i := (t, true)) hs rfl)
  refine ⟨by decide, lock_not_deadlocked (reach _ _ (.start rfl)) ⟨0, ?_⟩ ?_⟩
  · exact ⟨by decide, by decide⟩
  · decide

end Xv6Projects.PthreadLock
