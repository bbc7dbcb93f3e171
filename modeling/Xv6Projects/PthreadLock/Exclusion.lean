import Mathlib.Data.Fintype.Card
import Mathlib.Data.Finset.Card
import Mathlib.Tactic
import Xv6Projects.PthreadLock.Basic

/-!
# Mutual exclusion of the lock

The invariant concerns, for each level `i`, the threads that have written `turn[i]`
in their current call of `lock`.  If one of them is the last writer, then every thread
it has already passed in its scan has not written `turn[i]`: a thread that comes later
takes `turn[i]` over.  And as long as some thread has written `turn[i]`, the last writer
is one of them.  The bound on the threads that finished a level follows, at each single
state, by induction over the levels.
-/

namespace Xv6Projects.PthreadLock

open Library

variable {N : ℕ}

/-- The number of levels at which a thread has written `turn` since it entered `lock`. -/
def Pc.wrote (N : ℕ) : Pc → ℕ
  | .outside => 0
  | .level i | .writeTurn i => i
  | .scan i _ | .spin i _ | .gotOther i _ _ | .gotOwn i _ _ | .readTurn i _ => i + 1
  | .critical => N - 1

/-- The value a thread at this place has in `flag`. -/
def Pc.announced (N : ℕ) : Pc → ℕ
  | .outside => 0
  | .level i => i
  | .writeTurn i | .scan i _ | .spin i _ | .gotOther i _ _ | .gotOwn i _ _ | .readTurn i _ => i + 1
  | .critical => N - 1

/-- The thread at this place has got past thread `u` at level `j`: its scan of the level
is beyond `u`, or it has just read a value of `flag[u]` that will let it pass. -/
def Pc.Passed (N : ℕ) (j u : ℕ) : Pc → Prop
  | .outside => False
  | .level i | .writeTurn i => j < i
  | .scan i other | .spin i other | .gotOwn i other _ | .readTurn i other =>
      j < i ∨ j = i ∧ u < other
  | .gotOther i other v => j < i ∨ j = i ∧ (u < other ∨ u = other ∧ v ≤ i)
  | .critical => j < N - 1

lemma Pc.wrote_le_announced (p : Pc) : p.wrote N ≤ p.announced N := by
  cases p <;> simp [wrote, announced]

lemma Pc.passed_of_lt_finished {p : Pc} {j : ℕ} (h : j < p.finished N) (u : ℕ) :
    p.Passed N j u := by
  cases p <;> simp_all [finished, Passed]

lemma Pc.finished_le_wrote (p : Pc) : p.finished N ≤ p.wrote N := by
  cases p <;> simp [finished, wrote]

lemma Pc.lt_finished_of_lt_wrote {p : Pc} {j : ℕ} (h : j + 1 < p.wrote N) :
    j < p.finished N := by
  cases p <;> simp_all [finished, wrote] <;> omega

/-- The invariant of the lock. -/
structure Inv (s : State N) : Prop where
  /-- `flag` holds what the place of a thread announces. -/
  flag_eq : ∀ t : Fin N, s.flag t = (s.pc t).announced N
  announced_le : ∀ t : Fin N, (s.pc t).announced N ≤ N - 1
  own_eq : ∀ t i other w, s.pc t = .gotOwn i other w → w = i + 1
  /-- No thread has written `turn[i]` that the last writer of `turn[i]` has passed. -/
  not_wrote : ∀ i (t u : Fin N), t ≠ u → s.turn i = t → (s.pc t).Passed N i u →
    (s.pc u).wrote N ≤ i
  /-- If some thread has written `turn[i]`, so has the last writer. -/
  last_writer : ∀ i t, i < (s.pc t).wrote N → ∃ u : Fin N, s.turn i = u ∧ i < (s.pc u).wrote N

lemma inv_init : Inv (State.init N) where
  flag_eq := by simp [State.init, Pc.announced]
  announced_le := by simp [State.init, Pc.announced]
  own_eq := by simp [State.init]
  not_wrote := by simp [State.init, Pc.wrote]
  last_writer := by simp [State.init, Pc.wrote]

/-- A step that does not write `turn` keeps the invariant if the thread does not claim more
than before: it has not written `turn` at a new level, and whoever it newly passes has not
written `turn` at that level or has taken it over. -/
lemma Inv.goto {s : State N} (h : Inv s) {t : Fin N} {p : Pc}
    (hann : p.announced N = (s.pc t).announced N)
    (hown : ∀ i other w, p = .gotOwn i other w → w = i + 1)
    (hwrote : p.wrote N = (s.pc t).wrote N)
    (hpass : ∀ i (u : Fin N), t ≠ u → s.turn i = t → p.Passed N i u →
      (s.pc t).Passed N i u ∨ (s.pc u).wrote N ≤ i) :
    Inv (s.goto t p) where
  flag_eq := by
    intro u
    by_cases hu : u = t
    · subst hu; simpa [hann] using h.flag_eq u
    · simpa [Function.update_of_ne hu] using h.flag_eq u
  announced_le := by
    intro u
    by_cases hu : u = t
    · subst hu; simpa [hann] using h.announced_le u
    · simpa [Function.update_of_ne hu] using h.announced_le u
  own_eq := by
    intro u i other w hp
    by_cases hu : u = t
    · subst hu; exact hown i other w (by simpa using hp)
    · exact h.own_eq u i other w (by simpa [Function.update_of_ne hu] using hp)
  not_wrote := by
    intro i a u hau hturn hpa
    have hwu : (Function.update s.pc t p u).wrote N = (s.pc u).wrote N := by
      by_cases hu : u = t
      · subst hu; simpa using hwrote
      · simp [Function.update_of_ne hu]
    simp only [State.goto_pc, hwu]
    by_cases ha : a = t
    · subst ha
      rcases hpass i u hau hturn (by simpa using hpa) with hold | hnot
      · exact h.not_wrote i a u hau hturn hold
      · exact hnot
    · exact h.not_wrote i a u hau hturn (by simpa [Function.update_of_ne ha] using hpa)
  last_writer := by
    have hw : ∀ u, (Function.update s.pc t p u).wrote N = (s.pc u).wrote N := by
      intro u
      by_cases hu : u = t
      · subst hu; simpa using hwrote
      · simp [Function.update_of_ne hu]
    intro i a ha
    simp only [State.goto_pc, hw] at ha ⊢
    exact h.last_writer i a ha

/-- Announcing the next level: only `flag` and the place of the thread change. -/
lemma Inv.announce {s : State N} (h : Inv s) {t : Fin N} {i : ℕ} (hpc : s.pc t = .level i)
    (hi : i < N - 1) : Inv ((s.setFlag t (i + 1)).goto t (.writeTurn i)) where
  flag_eq := by
    intro u
    by_cases hu : u = t
    · subst hu; simp [Pc.announced]
    · have hv : (u : ℕ) ≠ t := fun hv => hu (Fin.ext hv)
      simpa [Function.update_of_ne hu, Function.update_of_ne hv] using h.flag_eq u
  announced_le := by
    intro u
    by_cases hu : u = t
    · subst hu; simpa [Pc.announced] using hi
    · simpa [Function.update_of_ne hu] using h.announced_le u
  own_eq := by
    intro u j other w hp
    by_cases hu : u = t
    · subst hu; simp at hp
    · exact h.own_eq u j other w (by simpa [Function.update_of_ne hu] using hp)
  not_wrote := by
    intro j a u hau hturn hpa
    have hwu : (Function.update s.pc t (.writeTurn i) u).wrote N = (s.pc u).wrote N := by
      by_cases hu : u = t
      · subst hu; simp [hpc, Pc.wrote]
      · simp [Function.update_of_ne hu]
    simp only [State.goto_pc, State.setFlag_pc, hwu]
    refine h.not_wrote j a u hau hturn ?_
    by_cases ha : a = t
    · subst ha; simpa [hpc, Pc.Passed] using hpa
    · simpa [Function.update_of_ne ha] using hpa
  last_writer := by
    have hw : ∀ u, (Function.update s.pc t (.writeTurn i) u).wrote N = (s.pc u).wrote N := by
      intro u
      by_cases hu : u = t
      · subst hu; simp [hpc, Pc.wrote]
      · simp [Function.update_of_ne hu]
    intro j a ha
    simp only [State.goto_pc, State.setFlag_pc, State.goto_turn, State.setFlag_turn, hw] at ha ⊢
    exact h.last_writer j a ha

/-- Writing `turn[i]`: the thread becomes the last writer and has passed nobody yet. -/
lemma Inv.takeTurn {s : State N} (h : Inv s) {t : Fin N} {i : ℕ}
    (hpc : s.pc t = .writeTurn i) : Inv ((s.setTurn t i).goto t (.scan i 0)) where
  flag_eq := by
    intro u
    by_cases hu : u = t
    · subst hu; simpa [hpc, Pc.announced] using h.flag_eq u
    · simpa [Function.update_of_ne hu] using h.flag_eq u
  announced_le := by
    intro u
    by_cases hu : u = t
    · subst hu; simpa [hpc, Pc.announced] using h.announced_le u
    · simpa [Function.update_of_ne hu] using h.announced_le u
  own_eq := by
    intro u j other w hp
    by_cases hu : u = t
    · subst hu; simp at hp
    · exact h.own_eq u j other w (by simpa [Function.update_of_ne hu] using hp)
  not_wrote := by
    intro j a u hau hturn hpa
    by_cases hj : j = i
    · -- only `t` can be the last writer of `turn[i]` now
      subst hj
      have hat : a = t := Fin.ext (by simpa using hturn.symm)
      subst hat
      simp [Pc.Passed] at hpa
    · have hold : s.turn j = a := by simpa [Function.update_of_ne hj] using hturn
      -- the other levels are as before
      have hpass : (s.pc a).Passed N j u := by
        by_cases ha : a = t
        · subst ha
          simpa [hpc, Pc.Passed, hj] using hpa
        · simpa [Function.update_of_ne ha] using hpa
      have hnot := h.not_wrote j a u hau hold hpass
      by_cases hu : u = t
      · subst hu
        simp only [hpc, Pc.wrote] at hnot
        simp only [State.goto_pc, Function.update_self, Pc.wrote]
        omega
      · simpa [Function.update_of_ne hu] using hnot
  last_writer := by
    intro j a ha
    by_cases hj : j = i
    · subst hj
      exact ⟨t, by simp, by simp [Pc.wrote]⟩
    · have hlt : j < (s.pc a).wrote N := by
        by_cases hat : a = t
        · subst hat
          simp only [State.goto_pc, Function.update_self, Pc.wrote] at ha
          simp only [hpc, Pc.wrote]
          omega
        · simpa [Function.update_of_ne hat] using ha
      obtain ⟨u, hu, hlu⟩ := h.last_writer j a hlt
      refine ⟨u, by simpa [Function.update_of_ne hj] using hu, ?_⟩
      by_cases hut : u = t
      · subst hut
        simp only [hpc, Pc.wrote] at hlu
        simp only [State.goto_pc, Function.update_self, Pc.wrote]
        omega
      · simpa [Function.update_of_ne hut] using hlu

/-- `unlock`: the thread has passed everybody at every level, so at each level where it is
the last writer nobody else has written `turn`. -/
lemma Inv.release {s : State N} (h : Inv s) {t : Fin N} (hpc : s.pc t = .critical) :
    Inv ((s.setFlag t 0).goto t .outside) where
  flag_eq := by
    intro u
    by_cases hu : u = t
    · subst hu; simp [Pc.announced]
    · have hv : (u : ℕ) ≠ t := fun hv => hu (Fin.ext hv)
      simpa [Function.update_of_ne hu, Function.update_of_ne hv] using h.flag_eq u
  announced_le := by
    intro u
    by_cases hu : u = t
    · subst hu; simp [Pc.announced]
    · simpa [Function.update_of_ne hu] using h.announced_le u
  own_eq := by
    intro u j other w hp
    by_cases hu : u = t
    · subst hu; simp at hp
    · exact h.own_eq u j other w (by simpa [Function.update_of_ne hu] using hp)
  not_wrote := by
    intro j a u hau hturn hpa
    by_cases hu : u = t
    · subst hu; simp [Pc.wrote]
    · have ha : a ≠ t := by
        rintro rfl
        simp [Pc.Passed] at hpa
      simpa [Function.update_of_ne hu] using
        h.not_wrote j a u hau hturn (by simpa [Function.update_of_ne ha] using hpa)
  last_writer := by
    intro j a ha
    have hat : a ≠ t := by
      rintro rfl
      simp [Pc.wrote] at ha
    have hlt : j < (s.pc a).wrote N := by simpa [Function.update_of_ne hat] using ha
    obtain ⟨u, hu, hlu⟩ := h.last_writer j a hlt
    -- the last writer is not `t`: it has passed `a`, which has not written then
    have hut : u ≠ t := by
      rintro rfl
      have hjN : j < N - 1 := by simpa [hpc, Pc.wrote] using hlu
      have := h.not_wrote j u a (Ne.symm hat) hu (by simpa [hpc, Pc.Passed] using hjN)
      omega
    exact ⟨u, by simpa using hu, by simpa [Function.update_of_ne hut] using hlu⟩

/-- A thread whose `flag` is at most `i` has not written `turn[i]`. -/
lemma Inv.wrote_le_of_flag_le {s : State N} (h : Inv s) {u : Fin N} {i : ℕ}
    (hle : s.flag u ≤ i) : (s.pc u).wrote N ≤ i :=
  (Pc.wrote_le_announced _).trans (h.flag_eq u ▸ hle)

/-- One step of any thread preserves the invariant. -/
theorem Inv.step {s : State N} (h : Inv s) (t : Fin N) (ownFirst : Bool) :
    Inv (step s t ownFirst) := by
  have hflag := h.flag_eq t
  cases hpc : s.pc t with
  | outside =>
    simp only [PthreadLock.step, hpc]
    exact h.goto (by simp [hpc, Pc.announced]) (by simp) (by simp [hpc, Pc.wrote])
      (fun i u _ _ hp => by simp [Pc.Passed] at hp)
  | level i =>
    simp only [PthreadLock.step, hpc]
    split_ifs with hi
    · exact h.announce hpc hi
    · -- the outer loop is over
      have hiN : i = N - 1 := by
        have := h.announced_le t
        simp only [hpc, Pc.announced] at this
        omega
      exact h.goto (by simp [hpc, Pc.announced, hiN]) (by simp) (by simp [hpc, Pc.wrote, hiN])
        (fun j u _ _ hp => Or.inl (by simpa [hpc, Pc.Passed, hiN] using hp))
  | writeTurn i =>
    simp only [PthreadLock.step, hpc]
    exact h.takeTurn hpc
  | scan i other =>
    simp only [PthreadLock.step, hpc]
    split_ifs with hN hself
    · -- the thread skips itself
      refine h.goto (by simp [hpc, Pc.announced]) (by simp) (by simp [hpc, Pc.wrote]) ?_
      intro j u htu _ hp
      have hne : (u : ℕ) ≠ t := fun hv => htu (Fin.ext hv.symm)
      simp only [Pc.Passed] at hp
      exact Or.inl (by simp only [hpc, Pc.Passed]; omega)
    · exact h.goto (by simp [hpc, Pc.announced]) (by simp) (by simp [hpc, Pc.wrote])
        (fun j u _ _ hp => Or.inl (by simpa [hpc, Pc.Passed] using hp))
    · -- the inner loop is over: every thread index is below `other`
      refine h.goto (by simp [hpc, Pc.announced]) (by simp) (by simp [hpc, Pc.wrote]) ?_
      intro j u _ _ hp
      have := u.isLt
      simp only [Pc.Passed] at hp
      exact Or.inl (by simp only [hpc, Pc.Passed]; omega)
  | spin i other =>
    simp only [PthreadLock.step, hpc]
    split_ifs with hb
    · -- the own entry is read
      refine h.goto (by simp [hpc, Pc.announced]) ?_ (by simp [hpc, Pc.wrote])
        (fun j u _ _ hp => Or.inl (by simpa [hpc, Pc.Passed] using hp))
      intro j o w hw
      simp only [hpc, Pc.announced] at hflag
      simp only [Pc.gotOwn.injEq] at hw
      omega
    · refine h.goto (by simp [hpc, Pc.announced]) (by simp) (by simp [hpc, Pc.wrote]) ?_
      intro j u _ _ hp
      rcases hp with hlt | ⟨rfl, hlt | ⟨hu, hv⟩⟩
      · exact Or.inl (by simp [hpc, Pc.Passed, hlt])
      · exact Or.inl (by simp [hpc, Pc.Passed, hlt])
      · exact Or.inr (h.wrote_le_of_flag_le (by rw [hu]; exact hv))
  | gotOther i other v =>
    simp only [PthreadLock.step, hpc]
    simp only [hpc, Pc.announced] at hflag
    split_ifs with hv
    · refine h.goto (by simp [hpc, Pc.announced]) (by simp) (by simp [hpc, Pc.wrote]) ?_
      intro j u _ _ hp
      simp only [Pc.Passed] at hp
      exact Or.inl (by simp only [hpc, Pc.Passed]; omega)
    · refine h.goto (by simp [hpc, Pc.announced]) (by simp) (by simp [hpc, Pc.wrote]) ?_
      intro j u _ _ hp
      simp only [Pc.Passed] at hp
      exact Or.inl (by simp only [hpc, Pc.Passed]; omega)
  | gotOwn i other w =>
    have hw := h.own_eq t i other w hpc
    simp only [PthreadLock.step, hpc]
    split_ifs with hv
    · refine h.goto (by simp [hpc, Pc.announced]) (by simp) (by simp [hpc, Pc.wrote]) ?_
      intro j u _ _ hp
      simp only [Pc.Passed] at hp
      -- `flag[other]` is below the own entry: `other` has been passed at this level
      by_cases hu : j = i ∧ (u : ℕ) = other
      · obtain ⟨rfl, hu⟩ := hu
        exact Or.inr (h.wrote_le_of_flag_le (by rw [hu]; omega))
      · exact Or.inl (by simp only [hpc, Pc.Passed]; omega)
    · exact h.goto (by simp [hpc, Pc.announced]) (by simp) (by simp [hpc, Pc.wrote])
        (fun j u _ _ hp => Or.inl (by simpa [hpc, Pc.Passed] using hp))
  | readTurn i other =>
    simp only [PthreadLock.step, hpc]
    split_ifs with hturn
    · -- somebody has taken `turn[i]` over, so nothing is claimed at level `i`
      refine h.goto (by simp [hpc, Pc.announced]) (by simp) (by simp [hpc, Pc.wrote]) ?_
      intro j u _ hj hp
      have hji : j ≠ i := by rintro rfl; exact hturn hj
      simp only [Pc.Passed] at hp
      exact Or.inl (by simp only [hpc, Pc.Passed]; omega)
    · exact h.goto (by simp [hpc, Pc.announced]) (by simp) (by simp [hpc, Pc.wrote])
        (fun j u _ _ hp => Or.inl (by simpa [hpc, Pc.Passed] using hp))
  | critical =>
    simp only [PthreadLock.step, hpc]
    exact h.release hpc

/-- The invariant holds in every interleaving. -/
theorem inv_of_reach {s : State N} (h : Reach N s) : Inv s := by
  refine Reachable.invariant (fun s hs => ?_) (fun s l s' hi hs => ?_) h
  · subst hs; exact inv_init
  · subst hs; exact hi.step l.1 l.2

/-! ### Counting the threads above a level -/

/-- The threads that have finished iteration `i` of the outer loop. -/
def finishedAt (s : State N) (i : ℕ) : Finset (Fin N) :=
  Finset.univ.filter fun t => i < (s.pc t).finished N

/-- The threads that have written `turn[i]`. -/
def wroteAt (s : State N) (i : ℕ) : Finset (Fin N) :=
  Finset.univ.filter fun t => i < (s.pc t).wrote N

@[simp] lemma mem_finishedAt {s : State N} {i : ℕ} {t : Fin N} :
    t ∈ finishedAt s i ↔ i < (s.pc t).finished N := by
  simp [finishedAt]

@[simp] lemma mem_wroteAt {s : State N} {i : ℕ} {t : Fin N} :
    t ∈ wroteAt s i ↔ i < (s.pc t).wrote N := by
  simp [wroteAt]

lemma finishedAt_subset_wroteAt (s : State N) (i : ℕ) : finishedAt s i ⊆ wroteAt s i := by
  intro t ht
  rw [mem_finishedAt] at ht
  exact mem_wroteAt.mpr (ht.trans_le (Pc.finished_le_wrote _))

lemma wroteAt_succ_subset (s : State N) (i : ℕ) : wroteAt s (i + 1) ⊆ finishedAt s i := by
  intro t ht
  rw [mem_wroteAt] at ht
  exact mem_finishedAt.mpr (Pc.lt_finished_of_lt_wrote ht)

/-- If everybody who wrote `turn[i]` has finished the level, there is at most one such
thread: the last writer has passed all others. -/
lemma Inv.card_finishedAt_le_one {s : State N} (h : Inv s) {i : ℕ}
    (hsub : wroteAt s i ⊆ finishedAt s i) : (finishedAt s i).card ≤ 1 := by
  rw [Finset.card_le_one]
  have key : ∀ t ∈ finishedAt s i, s.turn i = t := by
    intro t ht
    have htw : i < (s.pc t).wrote N := mem_wroteAt.mp (finishedAt_subset_wroteAt s i ht)
    obtain ⟨u, hu, huw⟩ := h.last_writer i t htw
    have huf : i < (s.pc u).finished N := mem_finishedAt.mp (hsub (mem_wroteAt.mpr huw))
    by_contra hne
    have hut : u ≠ t := by rintro rfl; exact hne hu
    have := h.not_wrote i u t hut hu (Pc.passed_of_lt_finished huf t)
    omega
  intro a ha b hb
  exact Fin.ext ((key a ha).symm.trans (key b hb))

/-- At most `N - 1 - i` threads have finished iteration `i`. -/
lemma Inv.card_finishedAt_le {s : State N} (h : Inv s) :
    ∀ i, i + 2 ≤ N → (finishedAt s i).card ≤ N - 1 - i := by
  intro i
  induction i with
  | zero =>
    intro hi
    by_cases hsub : wroteAt s 0 ⊆ finishedAt s 0
    · exact (h.card_finishedAt_le_one hsub).trans (by omega)
    · -- a thread that wrote `turn[0]` is still at level 0
      obtain ⟨t, -, ht⟩ := Finset.not_subset.mp hsub
      have hne : finishedAt s 0 ≠ Finset.univ := fun he => ht (he ▸ Finset.mem_univ t)
      have hlt := Finset.card_lt_card (Finset.ssubset_univ_iff.mpr hne)
      rw [Finset.card_univ, Fintype.card_fin] at hlt
      omega
  | succ i ih =>
    intro hi
    have hprev := ih (by omega)
    by_cases hsub : wroteAt s (i + 1) ⊆ finishedAt s (i + 1)
    · exact (h.card_finishedAt_le_one hsub).trans (by omega)
    · obtain ⟨t, htw, ht⟩ := Finset.not_subset.mp hsub
      have hss : finishedAt s (i + 1) ⊂ finishedAt s i := by
        refine ⟨(finishedAt_subset_wroteAt s _).trans (wroteAt_succ_subset s i), fun hback => ?_⟩
        exact ht (hback (wroteAt_succ_subset s i htw))
      have hlt := Finset.card_lt_card hss
      omega

/-- **Mutual exclusion.**  In every interleaving at most `N - 1 - i` threads have finished
iteration `i` of the outer loop and not yet executed `unlock`; in particular at most one
thread is between the return of `lock` and its `unlock`. -/
theorem lock_mutualExclusion (hN : 2 ≤ N) {s : State N} (hs : Reach N s) :
    (∀ i ≤ N - 2, (finishedAt s i).card ≤ N - 1 - i) ∧
      ∀ t u, s.pc t = .critical → s.pc u = .critical → t = u := by
  have h := inv_of_reach hs
  refine ⟨fun i hi => h.card_finishedAt_le i (by omega), fun t u ht hu => ?_⟩
  have hone : (finishedAt s (N - 2)).card ≤ 1 :=
    (h.card_finishedAt_le (N - 2) (by omega)).trans (by omega)
  have hmem : ∀ v, s.pc v = .critical → v ∈ finishedAt s (N - 2) := by
    intro v hv
    rw [mem_finishedAt, hv, Pc.finished]
    omega
  exact Finset.card_le_one.mp hone t (hmem t ht) u (hmem u hu)

/-- Two threads that run after each other: the second is held at its spin test. -/
theorem lock_mutualExclusion_two :
    let s := ([0, 0, 0, 0, 0, 0, 0, 0, 0, 1, 1, 1, 1, 1, 1, 1] : List (Fin 2)).foldl
      (fun s t => step s t true) (State.init 2)
    s.pc 0 = .critical ∧ s.pc 1 = .spin 0 0 ∧ (∀ i ≤ 2 - 2, (finishedAt s i).card ≤ 2 - 1 - i) ∧
      ∀ t u, s.pc t = .critical → s.pc u = .critical → t = u := by
  have reach : ∀ (l : List (Fin 2)) (s : State 2), Reach 2 s →
      Reach 2 (l.foldl (fun s t => step s t true) s) := by
    intro l
    induction l with
    | nil => exact fun s hs => hs
    | cons t l ih => exact fun s hs => ih _ (.next (i := (t, true)) hs rfl)
  exact ⟨by decide, by decide, lock_mutualExclusion (le_refl 2) (reach _ _ (.start rfl))⟩

end Xv6Projects.PthreadLock
