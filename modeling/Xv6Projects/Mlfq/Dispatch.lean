import Mathlib.Tactic
import Xv6Projects.Library.Scan
import Xv6Projects.Mlfq.System

/-!
# Which process a pass of the scheduler dispatches

The loop of `scheduler` is a scan for the best element: outside monopoly mode over the
runnable processes, with a key that looks at the priority inside `L3` only; in monopoly
mode over the runnable members of the MoQ, with `seq` as key.
-/

namespace Xv6Projects.Mlfq

open Library Kernel

lemma slots_pairwise : slots.Pairwise (· < ·) := List.pairwise_lt_finRange NPROC

@[simp] lemma mem_slots (i : Slot) : i ∈ slots := List.mem_finRange i

/-- Slot `i` comes before slot `j`, or is the same: lower level first, inside `L3` higher
priority first, then smaller ticket, then lower table index. -/
def SchedLe (k : Kernel) (i j : Slot) : Prop :=
  (k.proc i).qlev < (k.proc j).qlev ∨
    (k.proc i).qlev = (k.proc j).qlev ∧
      ((k.proc i).qlev = L3 ∧ (k.proc j).priority < (k.proc i).priority ∨
        ((k.proc i).qlev = L3 → (k.proc i).priority = (k.proc j).priority) ∧
          ((k.proc i).seq < (k.proc j).seq ∨ (k.proc i).seq = (k.proc j).seq ∧ i ≤ j))

/-- The key whose lexicographic order `schedBefore` compares. -/
def schedKey (p : Proc) : ℕ ×ₗ ℤ ×ₗ ℤ :=
  toLex (p.qlev, toLex (if p.qlev = L3 then -p.priority else 0, p.seq))

lemma schedBefore_iff (p b : Proc) : schedBefore p b = true ↔ schedKey p < schedKey b := by
  simp only [schedBefore, schedKey, Prod.Lex.toLex_lt_toLex]
  by_cases h1 : p.qlev < b.qlev
  · simp [h1]
  · by_cases h2 : b.qlev = p.qlev
    · by_cases h3 : p.qlev = L3
      · simp only [h2, h3]
        by_cases h4 : b.priority < p.priority
        · simp [h4]
        · by_cases h5 : b.priority = p.priority
          · simp [h5]
          · simp [h4, h5, Ne.symm h5]
      · simp [h2, h3]
    · simp [h1, h2, Ne.symm h2]

lemma schedLe_of_key {k : Kernel} {i j : Slot}
    (h : toLex (schedKey (k.proc i), i) ≤ toLex (schedKey (k.proc j), j)) : SchedLe k i j := by
  rw [Prod.Lex.toLex_le_toLex] at h
  simp only [schedKey, Prod.Lex.toLex_lt_toLex, EmbeddingLike.apply_eq_iff_eq,
    Prod.mk.injEq] at h
  rcases h with (hq | ⟨hq, hp | ⟨hp, hs⟩⟩) | ⟨⟨hq, hp, hs⟩, hij⟩
  · exact Or.inl hq
  · refine Or.inr ⟨hq, Or.inl ?_⟩
    by_cases h3 : (k.proc i).qlev = L3
    · rw [← hq, if_pos h3, if_pos h3] at hp
      exact ⟨h3, by omega⟩
    · rw [← hq, if_neg h3, if_neg h3] at hp
      exact absurd hp (lt_irrefl _)
  · refine Or.inr ⟨hq, Or.inr ⟨fun h3 => ?_, Or.inl hs⟩⟩
    rw [← hq, if_pos h3, if_pos h3] at hp
    omega
  · refine Or.inr ⟨hq, Or.inr ⟨fun h3 => ?_, Or.inr ⟨hs, hij⟩⟩⟩
    rw [← hq, if_pos h3, if_pos h3] at hp
    omega

/-! ### The loop as a scan -/

variable {k : Kernel}

lemma schedulerLoop_off (hoff : k.moqActive = 0) (l : List Slot) :
    ∀ s m, schedulerLoop k l s m =
      ((l.filter fun i => (k.proc i).state = .runnable).foldl
        (keepBest fun i b => schedBefore (k.proc i) (k.proc b)) s, m) := by
  induction l with
  | nil => exact fun s m => rfl
  | cons i l ih =>
    intro s m
    by_cases hrun : (k.proc i).state = .runnable
    · cases s with
      | none => simp [schedulerLoop, hrun, hoff, ih]
      | some b =>
        simp only [schedulerLoop, hrun, hoff, ih, ne_eq, not_true_eq_false, if_false,
          decide_true, List.filter_cons_of_pos, List.foldl_cons, keepBest_some]
        split_ifs <;> rfl
    · simp [schedulerLoop, hrun, ih]

lemma schedulerLoop_on (hon : k.moqActive ≠ 0) (hsz : k.moqSz ≠ 0) (l : List Slot) :
    ∀ s m, schedulerLoop k l s m =
      (s, (l.filter fun i => (k.proc i).state = .runnable ∧ (k.proc i).qlev = MoQ).foldl
        (keepBest fun i b => decide ((k.proc i).seq < (k.proc b).seq)) m) := by
  induction l with
  | nil => exact fun s m => rfl
  | cons i l ih =>
    intro s m
    by_cases hrun : (k.proc i).state = .runnable
    · by_cases hq : (k.proc i).qlev = MoQ
      · cases m with
        | none => simp [schedulerLoop, hrun, hon, hsz, hq, ih]
        | some b =>
          simp only [schedulerLoop, hrun, hon, hsz, hq, ih, ne_eq, not_true_eq_false, if_false,
            not_false_eq_true, if_true, and_self, decide_true, List.filter_cons_of_pos,
            List.foldl_cons, keepBest_some, decide_eq_true_eq]
          split_ifs <;> rfl
      · simp [schedulerLoop, hrun, hon, hsz, hq, ih]
    · simp [schedulerLoop, hrun, ih]

lemma schedulerLoop_empty (hon : k.moqActive ≠ 0) (hsz : k.moqSz = 0) (l : List Slot) :
    schedulerLoop k l none none = (none, none) := by
  induction l with
  | nil => rfl
  | cons i l ih =>
    by_cases hrun : (k.proc i).state = .runnable
    · simp [schedulerLoop, hrun, hon, hsz]
    · simp [schedulerLoop, hrun, ih]

/-- The process a pass dispatches outside monopoly mode. -/
lemma schedulerBody_off (hoff : k.moqActive = 0) :
    ∃ d, schedulerBody k = (d, dispatched k d) ∧
      (∀ i, d = some i → (k.proc i).state = .runnable ∧
        ∀ j, (k.proc j).state = .runnable → SchedLe k i j) ∧
      (d = none → ∀ i, (k.proc i).state ≠ .runnable) := by
  obtain ⟨d, hd⟩ : ∃ d, ((slots.filter fun i => (k.proc i).state = .runnable).foldl
      (keepBest fun i b => schedBefore (k.proc i) (k.proc b)) none) = d := ⟨_, rfl⟩
  refine ⟨d, ?_, ?_, ?_⟩
  · simp [schedulerBody, schedulerLoop_off hoff, hd, hoff]
  · rintro i rfl
    have hleast := isLeast_of_foldl_keepBest (fun i => schedKey (k.proc i))
      (fun i b => schedBefore_iff (k.proc i) (k.proc b)) (slots_pairwise.filter _) hd
    refine ⟨by simpa using (List.mem_filter.mp hleast.1).2, fun j hj => ?_⟩
    exact schedLe_of_key (hleast.2 j (List.mem_filter.mpr ⟨mem_slots j, by simpa using hj⟩))
  · rintro rfl i hi
    have hnil := List.filter_eq_nil_iff.mp (foldl_keepBest_eq_none hd) i (mem_slots i)
    exact hnil (by simpa using hi)

/-- The process a pass dispatches in monopoly mode, as long as the MoQ is not empty. -/
lemma schedulerBody_on (hon : k.moqActive ≠ 0) (hsz : k.moqSz ≠ 0) :
    ∃ d, schedulerBody k = (d, dispatched k d) ∧
      (∀ i, d = some i → ((k.proc i).state = .runnable ∧ (k.proc i).qlev = MoQ) ∧
        ∀ j, (k.proc j).state = .runnable → (k.proc j).qlev = MoQ →
          (k.proc i).seq < (k.proc j).seq ∨ (k.proc i).seq = (k.proc j).seq ∧ i ≤ j) ∧
      (d = none → ∀ i, ¬((k.proc i).state = .runnable ∧ (k.proc i).qlev = MoQ)) := by
  obtain ⟨d, hd⟩ : ∃ d, ((slots.filter fun i => (k.proc i).state = .runnable ∧
      (k.proc i).qlev = MoQ).foldl
      (keepBest fun i b => decide ((k.proc i).seq < (k.proc b).seq)) none) = d := ⟨_, rfl⟩
  refine ⟨d, ?_, ?_, ?_⟩
  · simp only [schedulerBody, schedulerLoop_on hon hsz, hd, if_pos hon, if_neg hsz]
    cases d <;> rfl
  · rintro i rfl
    have hleast := isLeast_of_foldl_keepBest (fun i => (k.proc i).seq)
      (fun i b => by simp) (slots_pairwise.filter _) hd
    refine ⟨by simpa using (List.mem_filter.mp hleast.1).2, fun j hj hq => ?_⟩
    have hle := hleast.2 j (List.mem_filter.mpr ⟨mem_slots j, by simpa using ⟨hj, hq⟩⟩)
    simpa [Prod.Lex.toLex_le_toLex] using hle
  · rintro rfl i hi
    have hnil := List.filter_eq_nil_iff.mp (foldl_keepBest_eq_none hd) i (mem_slots i)
    exact hnil (by simpa using hi)

/-- With an empty MoQ a pass in monopoly mode ends the mode and dispatches nobody. -/
lemma schedulerBody_ends (hon : k.moqActive ≠ 0) (hsz : k.moqSz = 0) :
    schedulerBody k = (none, unmonopolize k) := by
  simp [schedulerBody, schedulerLoop_empty hon hsz, hon, hsz, dispatched]

/-- The outcome of a pass in all cases: a runnable process or nobody. -/
lemma schedulerBody_cases (k : Kernel) :
    (schedulerBody k = (none, unmonopolize k)) ∨
      ∃ d, schedulerBody k = (d, dispatched k d) ∧
        ∀ i, d = some i → (k.proc i).state = .runnable := by
  by_cases hoff : k.moqActive = 0
  · obtain ⟨d, hd, hsome, -⟩ := schedulerBody_off hoff
    exact Or.inr ⟨d, hd, fun i hi => (hsome i hi).1⟩
  · by_cases hsz : k.moqSz = 0
    · exact Or.inl (schedulerBody_ends hoff hsz)
    · obtain ⟨d, hd, hsome, -⟩ := schedulerBody_on hoff hsz
      exact Or.inr ⟨d, hd, fun i hi => (hsome i hi).1.1⟩

lemma scheduler_eq (hk : k.locked = false) :
    scheduler k = some ((schedulerBody (k.setLocked true)).1,
      (schedulerBody (k.setLocked true)).2.setLocked false) := by
  simp [scheduler, acquire, release, hk]

/-- **What one pass of the scheduler dispatches.**  Outside monopoly mode it is the least
runnable process in the order `SchedLe`, if there is a runnable process at all.  In monopoly
mode with a positive `MoQ_sz` it is the runnable member of the MoQ with the smallest ticket,
if there is one, and the mode stays on.  In monopoly mode with `MoQ_sz` zero nobody is
dispatched and the mode is turned off.  Only a runnable process is ever dispatched, and
nothing else in the table changes. -/
theorem scheduler_dispatches (k : Kernel) (hk : k.locked = false) :
    ∃ d k', scheduler k = some (d, k') ∧
      (∀ i, d = some i → (k.proc i).state = .runnable) ∧
      k'.proc = (dispatched k d).proc ∧
      (k.moqActive = 0 → (∃ i, (k.proc i).state = .runnable) →
        ∃ i, d = some i ∧ ∀ j, (k.proc j).state = .runnable → SchedLe k i j) ∧
      (k.moqActive ≠ 0 → 0 < k.moqSz → k'.moqActive = k.moqActive ∧
        ((∀ i, ¬((k.proc i).state = .runnable ∧ (k.proc i).qlev = MoQ)) → d = none) ∧
        ((∃ i, (k.proc i).state = .runnable ∧ (k.proc i).qlev = MoQ) →
          ∃ i, d = some i ∧ (k.proc i).qlev = MoQ ∧
            ∀ j, (k.proc j).state = .runnable → (k.proc j).qlev = MoQ →
              (k.proc i).seq < (k.proc j).seq ∨ (k.proc i).seq = (k.proc j).seq ∧ i ≤ j)) ∧
      (k.moqActive ≠ 0 → k.moqSz = 0 → d = none ∧ k'.moqActive = 0 ∧ k'.globalTick = 0) := by
  refine ⟨_, _, scheduler_eq hk, ?_⟩
  by_cases hoff : k.moqActive = 0
  · obtain ⟨d, hd, hsome, hnone⟩ := schedulerBody_off (k := k.setLocked true) hoff
    rw [hd]
    refine ⟨fun i hi => (hsome i hi).1, by cases d <;> rfl, ?_, fun hon => absurd hoff hon,
      fun hon => absurd hoff hon⟩
    rintro - ⟨i₀, hi₀⟩
    cases d with
    | none => exact absurd hi₀ (hnone rfl i₀)
    | some i => exact ⟨i, rfl, (hsome i rfl).2⟩
  · by_cases hsz : k.moqSz = 0
    · rw [schedulerBody_ends (k := k.setLocked true) hoff hsz]
      refine ⟨by simp, rfl, fun h => absurd h hoff, fun _ hpos => ?_, fun _ _ => ⟨rfl, rfl, rfl⟩⟩
      omega
    · obtain ⟨d, hd, hsome, hnone⟩ := schedulerBody_on (k := k.setLocked true) hoff hsz
      rw [hd]
      refine ⟨fun i hi => (hsome i hi).1.1, by cases d <;> rfl, fun h => absurd h hoff, ?_,
        fun _ h => absurd h hsz⟩
      intro _ _
      refine ⟨by cases d <;> rfl, fun hno => ?_, ?_⟩
      · cases d with
        | none => rfl
        | some i => exact absurd (hsome i rfl).1 (hno i)
      · rintro ⟨i₀, hi₀⟩
        cases d with
        | none => exact absurd hi₀ (hnone rfl i₀)
        | some i => exact ⟨i, rfl, (hsome i rfl).1.2, (hsome i rfl).2⟩

/-- Two runnable processes in `L0`: the one with the smaller ticket runs. -/
theorem scheduler_dispatches_pair :
    let p := { Proc.zero with state := .runnable, pid := 1, seq := 5 }
    let q := { Proc.zero with state := .runnable, pid := 2, seq := 3 }
    let k := (pinit.setProc 0 p).setProc 1 q
    ∃ d k', scheduler k = some (d, k') ∧
      (k.moqActive = 0 → (∃ i, (k.proc i).state = .runnable) →
        ∃ i, d = some i ∧ ∀ j, (k.proc j).state = .runnable → SchedLe k i j) := by
  intro p q k
  obtain ⟨d, k', h, -, -, hoff, -⟩ := scheduler_dispatches k rfl
  exact ⟨d, k', h, hoff⟩

end Xv6Projects.Mlfq
