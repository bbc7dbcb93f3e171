import Mathlib.Tactic
import Xv6Projects.Library.Count
import Xv6Projects.Mlfq.Membership

/-!
# The order of arrival in a queue

A process draws a ticket (`seq`) when it enters a queue, and the scheduler serves small
tickets first.  Here a history records when each process entered its queue, and tickets
are compared with arrivals.  A boost lets the processes of `L1`, `L2` and `L3` keep their
tickets, so the order survives a boost only when these tickets happen to fit.
-/

namespace Xv6Projects.Mlfq

open Library Kernel

variable {k k' k₁ : Kernel}

/-! ### The counters leave room for boosted tickets -/

/-- One when the process is live in queue `q`. -/
def Proc.here (p : Proc) (q : ℕ) : ℤ := if p.Live ∧ p.qlev = q then 1 else 0

lemma Proc.here_nonneg (p : Proc) (q : ℕ) : 0 ≤ p.here q := by
  unfold Proc.here
  split_ifs <;> simp

lemma Proc.here_le_one (p : Proc) (q : ℕ) : p.here q ≤ 1 := by
  unfold Proc.here
  split_ifs <;> simp

lemma Proc.here_eq_one {p : Proc} {q : ℕ} (hl : p.Live) (hq : p.qlev = q) : p.here q = 1 :=
  if_pos ⟨hl, hq⟩

lemma Proc.here_eq_zero {p : Proc} {q : ℕ} (h : p.Live → p.qlev ≠ q) : p.here q = 0 :=
  if_neg fun hm => h hm.1 hm.2

/-- The number of live processes in queue `q`. -/
def liveAt (k : Kernel) (q : ℕ) : ℤ := ∑ i, (k.proc i).here q

lemma liveAt_nonneg (k : Kernel) (q : ℕ) : 0 ≤ liveAt k q :=
  Finset.sum_nonneg fun i _ => (k.proc i).here_nonneg q

lemma here_le_liveAt (k : Kernel) (i : Slot) (q : ℕ) : (k.proc i).here q ≤ liveAt k q :=
  Finset.single_le_sum (f := fun i => (k.proc i).here q)
    (fun i _ => (k.proc i).here_nonneg q) (Finset.mem_univ i)

/-- A change at slot `i` changes the number by the difference at `i`. -/
lemma liveAt_off (i : Slot) (h : ∀ j, j ≠ i → k'.proc j = k.proc j) (q : ℕ) :
    liveAt k' q + (k.proc i).here q = liveAt k q + (k'.proc i).here q :=
  sum_univ_add_of_eq_off (f := fun j => (k'.proc j).here q) (g := fun j => (k.proc j).here q) i
    fun j hj => by rw [h j hj]

lemma Quiet.here (hq : Quiet k k') (i : Slot) (q : ℕ) :
    (k'.proc i).here q = (k.proc i).here q := by
  simp only [Proc.here, hq.live i, hq.qlev i]

lemma Quiet.liveAt (hq : Quiet k k') (q : ℕ) : liveAt k' q = liveAt k q :=
  Finset.sum_congr rfl fun i _ => hq.here i q

/-- The counters are in range, and every ticket drawn in `L1`, `L2` or `L3` is matched by
one drawn in `L0` before. -/
structure Slack (k : Kernel) : Prop where
  l1 : 0 ≤ k.l1Cnt
  l2 : 0 ≤ k.l2Cnt
  l3 : 0 ≤ k.l3Cnt
  moq : 0 ≤ k.moqCnt
  l0_lt : k.l0Cnt < 2147483648
  moq_lt : k.moqCnt < 2147483648
  first : k.l1Cnt + k.l2Cnt + liveAt k L0 ≤ k.l0Cnt
  second : k.l3Cnt + liveAt k L1 + liveAt k L2 ≤ k.l1Cnt + k.l2Cnt

lemma Slack.quiet (h : Slack k) (hq : Quiet k k') : Slack k' := by
  constructor
  · rw [hq.l1Cnt]; exact h.l1
  · rw [hq.l2Cnt]; exact h.l2
  · rw [hq.l3Cnt]; exact h.l3
  · rw [hq.moqCnt]; exact h.moq
  · rw [hq.l0Cnt]; exact h.l0_lt
  · rw [hq.moqCnt]; exact h.moq_lt
  · rw [hq.l0Cnt, hq.l1Cnt, hq.l2Cnt, hq.liveAt]; exact h.first
  · rw [hq.l1Cnt, hq.l2Cnt, hq.l3Cnt, hq.liveAt, hq.liveAt]; exact h.second

/-- Slot `i` leaves its queue; the counters of the levels stay. -/
lemma Slack.leave (h : Slack k) (i : Slot) (hother : ∀ j, j ≠ i → k'.proc j = k.proc j)
    (hi : (k'.proc i).Live → MoQ ≤ (k'.proc i).qlev) (h₀ : k'.l0Cnt = k.l0Cnt)
    (h₁ : k'.l1Cnt = k.l1Cnt) (h₂ : k'.l2Cnt = k.l2Cnt) (h₃ : k'.l3Cnt = k.l3Cnt)
    (hm : 0 ≤ k'.moqCnt) (hm' : k'.moqCnt < 2147483648) : Slack k' := by
  have hle : ∀ q, q < MoQ → liveAt k' q ≤ liveAt k q := by
    intro q hq
    have hoff := liveAt_off i hother q
    have hzero : (k'.proc i).here q = 0 :=
      Proc.here_eq_zero fun hl heq => absurd (hi hl) (not_le.mpr (heq ▸ hq))
    have hpos := (k.proc i).here_nonneg q
    omega
  have hle₀ := hle L0 (by decide)
  have hle₁ := hle L1 (by decide)
  have hle₂ := hle L2 (by decide)
  have hf := h.first
  have hs := h.second
  constructor
  · rw [h₁]; exact h.l1
  · rw [h₂]; exact h.l2
  · rw [h₃]; exact h.l3
  · exact hm
  · rw [h₀]; exact h.l0_lt
  · exact hm'
  · omega
  · omega

lemma Slack.fail (h : Slack k) (i : Slot) : Slack (allocFail k i) := by
  refine h.leave i (fun j hj => ?_) (fun hl => ?_) rfl rfl rfl rfl h.moq h.moq_lt
  · simp [allocFail, Function.update_of_ne hj]
  · simp [allocFail, Proc.Live] at hl

lemma Slack.exit (h : Slack k) (c : Slot) : Slack (exitSlot k c) := by
  refine h.leave c (fun j hj => ?_) (fun hl => ?_) rfl rfl rfl rfl h.moq h.moq_lt
  · simp [exitSlot_proc, Function.update_of_ne hj]
  · simp [exitSlot_proc, Proc.Live] at hl

lemma Slack.monopolySlot (h : Slack k) (i : Slot) (hm : k.moqCnt + 1 < 2147483648) :
    Slack (Kernel.monopolySlot k i) := by
  have hcnt : (Kernel.monopolySlot k i).moqCnt = k.moqCnt + 1 := by
    have hpos := h.moq
    exact int32_of_bounds (by omega) (by omega)
  have hpos := h.moq
  refine h.leave i (fun j hj => ?_) (fun _ => ?_) rfl rfl rfl rfl ?_ ?_
  · simp [Kernel.monopolySlot, Function.update_of_ne hj]
  · simp [Kernel.monopolySlot]
  · omega
  · omega

lemma Slack.l0_nonneg (h : Slack k) : 0 ≤ k.l0Cnt := by
  have hf := h.first
  have hn := liveAt_nonneg k L0
  have h₁ := h.l1
  have h₂ := h.l2
  omega

lemma Slack.alloc (h : Slack k) {i : Slot} (hi : (k.proc i).state = .unused)
    (hfit : k.l0Cnt + 1 < 2147483648) : Slack (allocSlot k i) := by
  have hcnt : (allocSlot k i).l0Cnt = k.l0Cnt + 1 := by
    have hpos := h.l0_nonneg
    exact int32_of_bounds (by omega) (by omega)
  have hoff : ∀ q, liveAt (allocSlot k i) q + (k.proc i).here q =
      liveAt k q + ((allocSlot k i).proc i).here q :=
    liveAt_off i fun j hj => by simp [Function.update_of_ne hj]
  have hwas : ∀ q, (k.proc i).here q = 0 := by
    intro q
    refine Proc.here_eq_zero fun hl => ?_
    simp [Proc.Live, hi] at hl
  have hnow : ∀ q, q ≠ L0 → ((allocSlot k i).proc i).here q = 0 := by
    intro q hq
    refine Proc.here_eq_zero fun _ heq => hq ?_
    simpa using heq.symm
  have hle := ((allocSlot k i).proc i).here_le_one L0
  have h0 := hoff L0
  have h1 := hoff L1
  have h2 := hoff L2
  rw [hwas] at h0 h1 h2
  rw [hnow L1 (by decide)] at h1
  rw [hnow L2 (by decide)] at h2
  have hf := h.first
  have hs := h.second
  refine ⟨h.l1, h.l2, h.l3, h.moq, ?_, h.moq_lt, ?_, ?_⟩
  · omega
  · change k.l1Cnt + k.l2Cnt + liveAt (allocSlot k i) L0 ≤ (allocSlot k i).l0Cnt
    omega
  · change k.l3Cnt + liveAt (allocSlot k i) L1 + liveAt (allocSlot k i) L2 ≤ k.l1Cnt + k.l2Cnt
    omega

/-- The queue a demotion leads to. -/
def DemotesTo (q r : ℕ) : Prop := q = L0 ∧ (r = L1 ∨ r = L2) ∨ (q = L1 ∨ q = L2) ∧ r = L3

/-- A demotion draws a ticket of the next queue, or is quiet. -/
lemma demote_cases (k : Kernel) (c : Slot) :
    (∃ p r, DemotesTo (k.proc c).qlev r ∧ p.state = (k.proc c).state ∧ p.qlev = r ∧
      p.seq = getLevCnt k r ∧ demote k c = incLevCnt (k.setProc c p) r) ∨
      Quiet k (demote k c) := by
  unfold demote
  dsimp only
  split_ifs with h₀ hodd h₁₂ h₃ hpr
  · refine Or.inl ⟨_, L1, Or.inl ⟨h₀, Or.inl rfl⟩, ?_, ?_, ?_, rfl⟩ <;> rfl
  · refine Or.inl ⟨_, L2, Or.inl ⟨h₀, Or.inr rfl⟩, ?_, ?_, ?_, rfl⟩ <;> rfl
  · refine Or.inl ⟨_, L3, Or.inr ⟨h₁₂, rfl⟩, ?_, ?_, ?_, rfl⟩ <;> rfl
  · exact Or.inr (Quiet.setProc Iff.rfl rfl rfl)
  · exact Or.inr (Quiet.setProc Iff.rfl rfl rfl)
  · exact Or.inr (Quiet.refl k)

/-- A live process moves from one queue to another. -/
lemma liveAt_move {c : Slot} {p : Proc} {q : ℕ} (hp : k'.proc = Function.update k.proc c p)
    (hl : (k.proc c).Live) (hs : p.state = (k.proc c).state) (hq : p.qlev = q) (r : ℕ) :
    liveAt k' r + (if (k.proc c).qlev = r then 1 else 0) =
      liveAt k r + (if q = r then 1 else 0) := by
  have hoff := liveAt_off (k := k) c (fun j hj => by rw [hp, Function.update_of_ne hj]) r
  have hl' : p.Live := by rwa [Proc.Live, hs]
  rw [hp, Function.update_self] at hoff
  simpa [Proc.here, hl, hl', hq] using hoff

lemma Slack.demote (h : Slack k) {c : Slot} (hl : (k.proc c).Live) : Slack (demote k c) := by
  rcases demote_cases k c with ⟨p, r, hto, hs, hq, -, heq⟩ | hquiet
  · have hproc : (incLevCnt (k.setProc c p) r).proc = Function.update k.proc c p :=
      incLevCnt_proc _ _
    have hmove := liveAt_move hproc hl hs hq
    -- the level it leaves counts it, which keeps the two sums below their bounds
    have hpos : ∀ q, (k.proc c).qlev = q → 1 ≤ liveAt k q := fun q hq =>
      (Proc.here_eq_one hl hq) ▸ here_le_liveAt k c q
    rw [heq]
    obtain ⟨h1, h2, h3, hm, hlt, hmlt, hf, hs⟩ := h
    have hn0 := liveAt_nonneg k L0
    have hn1 := liveAt_nonneg k L1
    have hn2 := liveAt_nonneg k L2
    have hm0 := hmove L0
    have hm1 := hmove L1
    have hm2 := hmove L2
    rcases hto with ⟨hq0, rfl | rfl⟩ | ⟨hq12, rfl⟩
    · -- from `L0` to `L1`
      have hposq := hpos L0 hq0
      have hcnt : (incLevCnt (k.setProc c p) L1).l1Cnt = k.l1Cnt + 1 := by
        show int32 (k.l1Cnt + 1) = k.l1Cnt + 1
        exact int32_of_bounds (by omega) (by omega)
      rw [hq0, if_pos rfl, if_neg (by decide)] at hm0
      rw [hq0, if_neg (by decide), if_pos rfl] at hm1
      rw [hq0, if_neg (by decide), if_neg (by decide)] at hm2
      refine ⟨by omega, h2, h3, hm, hlt, hmlt, ?_, ?_⟩
      · rw [hcnt]
        show _ + k.l2Cnt + _ ≤ k.l0Cnt
        omega
      · rw [hcnt]
        show k.l3Cnt + _ + _ ≤ _ + k.l2Cnt
        omega
    · -- from `L0` to `L2`
      have hposq := hpos L0 hq0
      have hcnt : (incLevCnt (k.setProc c p) L2).l2Cnt = k.l2Cnt + 1 := by
        show int32 (k.l2Cnt + 1) = k.l2Cnt + 1
        exact int32_of_bounds (by omega) (by omega)
      rw [hq0, if_pos rfl, if_neg (by decide)] at hm0
      rw [hq0, if_neg (by decide), if_neg (by decide)] at hm1
      rw [hq0, if_neg (by decide), if_pos rfl] at hm2
      refine ⟨h1, by omega, h3, hm, hlt, hmlt, ?_, ?_⟩
      · rw [hcnt]
        show k.l1Cnt + _ + _ ≤ k.l0Cnt
        omega
      · rw [hcnt]
        show k.l3Cnt + _ + _ ≤ k.l1Cnt + _
        omega
    · -- from `L1` or `L2` to `L3`
      have hsum : 1 ≤ liveAt k L1 + liveAt k L2 := by
        rcases hq12 with hq1 | hq2
        · have hposq := hpos L1 hq1
          omega
        · have hposq := hpos L2 hq2
          omega
      have hcnt : (incLevCnt (k.setProc c p) L3).l3Cnt = k.l3Cnt + 1 := by
        show int32 (k.l3Cnt + 1) = k.l3Cnt + 1
        exact int32_of_bounds (by omega) (by omega)
      have hne0 : (k.proc c).qlev ≠ L0 := by
        rcases hq12 with hq | hq <;> rw [hq] <;> decide
      have hleave : liveAt (incLevCnt (k.setProc c p) L3) L1 +
          liveAt (incLevCnt (k.setProc c p) L3) L2 + 1 = liveAt k L1 + liveAt k L2 := by
        rw [if_neg (by decide : L3 ≠ L1)] at hm1
        rw [if_neg (by decide : L3 ≠ L2)] at hm2
        rcases hq12 with hq | hq
        · rw [hq, if_pos rfl] at hm1
          rw [hq, if_neg (by decide)] at hm2
          omega
        · rw [hq, if_neg (by decide)] at hm1
          rw [hq, if_pos rfl] at hm2
          omega
      rw [if_neg hne0, if_neg (by decide)] at hm0
      refine ⟨h1, h2, by omega, hm, hlt, hmlt, ?_, ?_⟩
      · show k.l1Cnt + k.l2Cnt + _ ≤ k.l0Cnt
        omega
      · rw [hcnt]
        show _ + _ + _ ≤ k.l1Cnt + k.l2Cnt
        omega
  · exact h.quiet hquiet

/-! ### The boost -/

/-- The slots that a boost gives a ticket of `L0`'s counter. -/
def boosted (k : Kernel) : Finset Slot := Finset.univ.filter fun i => (k.proc i).qlev ≠ MoQ

/-- Counting with an `int` that does not overflow. -/
lemma foldl_int32 (P : Slot → Prop) [DecidablePred P] (l : List Slot) :
    ∀ n : ℤ, 0 ≤ n → n + (l.filter fun i => ¬P i).length < 2147483648 →
      l.foldl (fun n i => if P i then n else int32 (n + 1)) n =
        n + (l.filter fun i => ¬P i).length := by
  induction l with
  | nil => simp
  | cons i l ih =>
    intro n hn hlt
    by_cases hi : P i
    · simp only [hi, not_true_eq_false, decide_false, Bool.false_eq_true, not_false_eq_true,
        List.filter_cons_of_neg] at hlt
      simp [hi, ih n hn hlt]
    · simp only [hi, not_false_eq_true, decide_true, List.filter_cons_of_pos, List.length_cons,
        Nat.cast_add, Nat.cast_one] at hlt
      have h1 : int32 (n + 1) = n + 1 := int32_of_bounds (by omega) (by omega)
      simp only [List.foldl_cons, hi, if_false, h1, ih (n + 1) (by omega) (by omega)]
      simp [hi]
      omega

lemma boost_l0Cnt (h : 0 ≤ k.l0Cnt) (hfit : k.l0Cnt + (boosted k).card < 2147483648) :
    (boost k).l0Cnt = k.l0Cnt + (boosted k).card := by
  have hcard : (boosted k).card = (slots.filter fun i => ¬(k.proc i).qlev = MoQ).length := by
    rfl
  rw [hcard] at hfit ⊢
  exact foldl_int32 (fun i => (k.proc i).qlev = MoQ) slots k.l0Cnt h hfit

lemma liveAt_le_boosted (k : Kernel) : liveAt (boost k) L0 ≤ (boosted k).card := by
  rw [boosted, Finset.card_filter, Nat.cast_sum]
  refine Finset.sum_le_sum fun i _ => ?_
  rw [boost_proc]
  by_cases h : (k.proc i).qlev = MoQ
  · have hzero : (k.proc i).here L0 = 0 := Proc.here_eq_zero fun _ => by rw [h]; decide
    simp [h, hzero]
  · have hle := Proc.here_le_one { k.proc i with qlev := L0, tick := 0 } L0
    simpa [h] using hle

lemma liveAt_boost {q : ℕ} (hq : q ≠ L0) (hq' : q ≠ MoQ) : liveAt (boost k) q = 0 := by
  refine Finset.sum_eq_zero fun i _ => Proc.here_eq_zero fun _ => ?_
  rw [boost_proc]
  split_ifs with h
  · rw [h]; exact hq'.symm
  · exact hq.symm

lemma Slack.boost (h : Slack k) (hfit : k.l0Cnt + (boosted k).card < 2147483648) :
    Slack (Kernel.boost k) := by
  have hcnt := boost_l0Cnt h.l0_nonneg hfit
  have hle := liveAt_le_boosted k
  have hn0 := liveAt_nonneg k L0
  obtain ⟨h1, h2, h3, hm, hlt, hmlt, hf, hs⟩ := h
  have hn1 := liveAt_nonneg k L1
  have hn2 := liveAt_nonneg k L2
  refine ⟨h1, h2, h3, hm, by omega, hmlt, ?_, ?_⟩
  · rw [hcnt]
    show k.l1Cnt + k.l2Cnt + _ ≤ _
    omega
  · rw [liveAt_boost (by decide) (by decide), liveAt_boost (by decide) (by decide)]
    show k.l3Cnt + 0 + 0 ≤ k.l1Cnt + k.l2Cnt
    omega

/-! ### Arrivals -/

/-- The live processes of every queue have different tickets below the queue's counter, and
the tickets follow the arrivals, none of which is later than `now`. -/
structure InLine (k : Kernel) (arrival : Slot → ℕ) (now : ℕ) : Prop where
  level : ∀ i, (k.proc i).Live → (k.proc i).qlev ≤ MoQ
  ticket : ∀ i, (k.proc i).Live → (k.proc i).seq < getLevCnt k (k.proc i).qlev
  past : ∀ i, (k.proc i).Live → arrival i ≤ now
  order : ∀ i j, i ≠ j → (k.proc i).Live → (k.proc j).Live → (k.proc i).qlev = (k.proc j).qlev →
    (k.proc i).seq ≠ (k.proc j).seq ∧ (arrival i < arrival j → (k.proc i).seq < (k.proc j).seq)

variable {arrival arrival' : Slot → ℕ} {now now' : ℕ}

lemma InLine.later (h : InLine k arrival now) (hle : now ≤ now') : InLine k arrival now' :=
  ⟨h.level, h.ticket, fun i hi => (h.past i hi).trans hle, h.order⟩

/-- Only the arrivals of live processes matter. -/
lemma InLine.congr (h : InLine k arrival now)
    (heq : ∀ i, (k.proc i).Live → arrival' i = arrival i) : InLine k arrival' now where
  level := h.level
  ticket := h.ticket
  past i hi := by rw [heq i hi]; exact h.past i hi
  order i j hij hi hj hq := by rw [heq i hi, heq j hj]; exact h.order i j hij hi hj hq

lemma Quiet.getLevCnt (hq : Quiet k k') (q : ℤ) :
    Kernel.getLevCnt k' q = Kernel.getLevCnt k q := by
  simp only [Kernel.getLevCnt, hq.l0Cnt, hq.l1Cnt, hq.l2Cnt, hq.l3Cnt, hq.moqCnt]

lemma InLine.quiet (h : InLine k arrival now) (hq : Quiet k k') : InLine k' arrival now where
  level i hi := by rw [hq.qlev]; exact h.level i ((hq.live i).mp hi)
  ticket i hi := by
    rw [hq.qlev, hq.seq, hq.getLevCnt]
    exact h.ticket i ((hq.live i).mp hi)
  past i hi := h.past i ((hq.live i).mp hi)
  order i j hij hi hj := by
    rw [hq.qlev, hq.qlev, hq.seq, hq.seq]
    exact h.order i j hij ((hq.live i).mp hi) ((hq.live j).mp hj)

/-- One process enters a queue now, with a ticket that the queue's counter hands out, or
leaves its queue. -/
lemma InLine.enter (h : InLine k arrival now) (i : Slot)
    (hother : ∀ j, j ≠ i → k'.proc j = k.proc j)
    (hcnt : ∀ q : ℕ, q ≤ MoQ → getLevCnt k q ≤ getLevCnt k' q)
    (hi : (k'.proc i).Live → (k'.proc i).qlev ≤ MoQ ∧
      getLevCnt k (k'.proc i).qlev ≤ (k'.proc i).seq ∧
      (k'.proc i).seq < getLevCnt k' (k'.proc i).qlev) :
    InLine k' (Function.update arrival i now) now where
  level j hj := by
    by_cases hji : j = i
    · subst hji
      exact (hi hj).1
    · rw [hother j hji] at hj ⊢
      exact h.level j hj
  ticket j hj := by
    by_cases hji : j = i
    · subst hji
      exact (hi hj).2.2
    · rw [hother j hji] at hj ⊢
      exact (h.ticket j hj).trans_le (hcnt _ (h.level j hj))
  past j hj := by
    by_cases hji : j = i
    · subst hji
      simp
    · rw [hother j hji] at hj
      rw [Function.update_of_ne hji]
      exact h.past j hj
  order j m hjm hj hm hq := by
    by_cases hji : j = i
    · -- the newcomer has the larger ticket, and nobody arrives after it
      subst hji
      rw [hother m (Ne.symm hjm)] at hm hq ⊢
      have hlt := (h.ticket m hm).trans_le (hq ▸ (hi hj).2.1)
      rw [Function.update_self, Function.update_of_ne (Ne.symm hjm)]
      exact ⟨hlt.ne', fun hlate => absurd (h.past m hm) (not_le.mpr hlate)⟩
    · rw [hother j hji] at hj hq ⊢
      by_cases hmi : m = i
      · subst hmi
        have hlt := (h.ticket j hj).trans_le (hq ▸ (hi hm).2.1)
        exact ⟨hlt.ne, fun _ => hlt⟩
      · rw [hother m hmi] at hm hq ⊢
        rw [Function.update_of_ne hji, Function.update_of_ne hmi]
        exact h.order j m hjm hj hm hq

/-- The arrivals after a change from `k` to `k'` at time `now`: a process that was not live or
was in another queue arrives. -/
def arrivals (k k' : Kernel) (arrival : Slot → ℕ) (now : ℕ) : Slot → ℕ := fun i =>
  if (k.proc i).Live ∧ (k'.proc i).qlev = (k.proc i).qlev then arrival i else now

lemma arrivals_quiet (h : Quiet k k') {i : Slot} (hi : (k'.proc i).Live) :
    arrivals k k' arrival now i = arrival i :=
  if_pos ⟨(h.live i).mp hi, h.qlev i⟩

/-- Quiet changes before and after do not change the arrivals. -/
lemma arrivals_congr {k₂ k₃ : Kernel} (h : Quiet k k₁) (h' : Quiet k₂ k₃) (i : Slot) :
    arrivals k k₃ arrival now i = arrivals k₁ k₂ arrival now i := by
  simp only [arrivals, h.qlev, h'.qlev, h.live]

/-- One process enters or leaves, the others stay. -/
lemma arrivals_enter (i : Slot) (hother : ∀ j, j ≠ i → k'.proc j = k.proc j)
    (hi : (k'.proc i).Live → ¬((k.proc i).Live ∧ (k'.proc i).qlev = (k.proc i).qlev)) :
    ∀ j, (k'.proc j).Live →
      arrivals k k' arrival now j = Function.update arrival i now j := by
  intro j hj
  by_cases hji : j = i
  · subst hji
    rw [Function.update_self]
    exact if_neg (hi hj)
  · rw [hother j hji] at hj
    rw [Function.update_of_ne hji]
    exact if_pos ⟨hj, by rw [hother j hji]⟩

lemma InLine.alloc (h : InLine k arrival now) {i : Slot} (hi : (k.proc i).state = .unused)
    (hpos : 0 ≤ k.l0Cnt) (hfit : k.l0Cnt + 1 < 2147483648) :
    InLine (allocSlot k i) (arrivals k (allocSlot k i) arrival now) now := by
  have hother : ∀ j, j ≠ i → (allocSlot k i).proc j = k.proc j := fun j hj => by
    simp [Function.update_of_ne hj]
  have hcnt : (allocSlot k i).l0Cnt = k.l0Cnt + 1 := int32_of_bounds (by omega) (by omega)
  refine InLine.congr (h.enter i hother (fun q hq => ?_) fun _ => ?_) (arrivals_enter i hother ?_)
  · by_cases hq0 : q = 0
    · subst hq0
      show k.l0Cnt ≤ (allocSlot k i).l0Cnt
      omega
    · simp only [getLevCnt, Nat.cast_eq_zero, hq0, if_false]
      exact le_rfl
  · rw [allocSlot_proc, Function.update_self]
    refine ⟨(by decide : L0 ≤ MoQ), le_rfl, ?_⟩
    show k.l0Cnt < (allocSlot k i).l0Cnt
    omega
  · rintro - ⟨hl, -⟩
    simp [Proc.Live, hi] at hl

lemma InLine.leave (h : InLine k arrival now) (i : Slot)
    (hother : ∀ j, j ≠ i → k'.proc j = k.proc j) (hcnt : ∀ q, getLevCnt k' q = getLevCnt k q)
    (hi : ¬(k'.proc i).Live) : InLine k' (arrivals k k' arrival now) now :=
  InLine.congr (h.enter i hother (fun q _ => (hcnt q).ge) fun hl => absurd hl hi)
    (arrivals_enter i hother fun hl => absurd hl hi)

lemma InLine.fail (h : InLine k arrival now) (i : Slot) :
    InLine (allocFail k i) (arrivals k (allocFail k i) arrival now) now := by
  refine h.leave i (fun j hj => ?_) (fun q => rfl) ?_
  · simp [allocFail, Function.update_of_ne hj]
  · simp [allocFail, Proc.Live]

lemma InLine.exit (h : InLine k arrival now) (c : Slot) :
    InLine (exitSlot k c) (arrivals k (exitSlot k c) arrival now) now := by
  refine h.leave c (fun j hj => ?_) (fun q => rfl) ?_
  · simp [exitSlot_proc, Function.update_of_ne hj]
  · simp [exitSlot_proc, Proc.Live]

/-- Drawing a ticket of a level moves that counter up by one. -/
lemma getLevCnt_incLevCnt {q : ℕ} (r : ℕ) (hq : q < MoQ)
    (hlo : 0 ≤ getLevCnt k q) (hhi : getLevCnt k q + 1 < 2147483648) :
    getLevCnt (incLevCnt k q) r = if r = q then getLevCnt k q + 1 else getLevCnt k r := by
  have hint : int32 (getLevCnt k q + 1) = getLevCnt k q + 1 :=
    int32_of_bounds (by omega) (by omega)
  have hcases : q = 0 ∨ q = 1 ∨ q = 2 ∨ q = 3 := by
    have : q < 4 := hq
    omega
  by_cases hr : r = q
  · subst hr
    rw [if_pos rfl, ← hint]
    rcases hcases with rfl | rfl | rfl | rfl <;> rfl
  · have hr' : (r : ℤ) ≠ q := by exact_mod_cast hr
    rw [if_neg hr]
    rcases hcases with rfl | rfl | rfl | rfl <;> push_cast at hr' <;>
      simp [getLevCnt, incLevCnt, hr, hr']

lemma Slack.getLevCnt_bounds (h : Slack k) {c : Slot} {r : ℕ} (hl : (k.proc c).Live)
    (hto : DemotesTo (k.proc c).qlev r) : 0 ≤ getLevCnt k r ∧ getLevCnt k r + 1 < 2147483648 := by
  have hpos : ∀ q, (k.proc c).qlev = q → 1 ≤ liveAt k q := fun q hq =>
    (Proc.here_eq_one hl hq) ▸ here_le_liveAt k c q
  obtain ⟨h1, h2, h3, -, hlt, -, hf, hs⟩ := h
  have hn0 := liveAt_nonneg k L0
  have hn1 := liveAt_nonneg k L1
  have hn2 := liveAt_nonneg k L2
  rcases hto with ⟨hq0, rfl | rfl⟩ | ⟨hq12, rfl⟩
  · have hposq := hpos L0 hq0
    show 0 ≤ k.l1Cnt ∧ k.l1Cnt + 1 < 2147483648
    omega
  · have hposq := hpos L0 hq0
    show 0 ≤ k.l2Cnt ∧ k.l2Cnt + 1 < 2147483648
    omega
  · have hsum : 1 ≤ liveAt k L1 + liveAt k L2 := by
      rcases hq12 with hq1 | hq2
      · have hposq := hpos L1 hq1
        omega
      · have hposq := hpos L2 hq2
        omega
    show 0 ≤ k.l3Cnt ∧ k.l3Cnt + 1 < 2147483648
    omega

lemma InLine.demote (h : InLine k arrival now) (hs : Slack k) {c : Slot} (hl : (k.proc c).Live) :
    InLine (Kernel.demote k c) (arrivals k (Kernel.demote k c) arrival now) now := by
  rcases demote_cases k c with ⟨p, r, hto, hst, hq, hseq, heq⟩ | hquiet
  · rw [heq]
    have hproc : (incLevCnt (k.setProc c p) r).proc = Function.update k.proc c p :=
      incLevCnt_proc _ _
    have hother : ∀ j, j ≠ c → (incLevCnt (k.setProc c p) r).proc j = k.proc j := fun j hj => by
      rw [hproc, Function.update_of_ne hj]
    obtain ⟨hlo, hhi⟩ := hs.getLevCnt_bounds hl hto
    have hr : r < MoQ := by
      rcases hto with ⟨-, rfl | rfl⟩ | ⟨-, rfl⟩ <;> decide
    have hne : r ≠ (k.proc c).qlev := by
      rcases hto with ⟨hq0, rfl | rfl⟩ | ⟨hq1 | hq2, rfl⟩ <;> rw [‹(k.proc c).qlev = _›] <;> decide
    have hcnt : ∀ q : ℕ, getLevCnt (incLevCnt (k.setProc c p) r) q =
        if q = r then getLevCnt k r + 1 else getLevCnt k q := fun q =>
      getLevCnt_incLevCnt (k := k.setProc c p) q hr hlo hhi
    refine InLine.congr (h.enter c hother (fun q _ => ?_) fun _ => ?_)
      (arrivals_enter c hother ?_)
    · rw [hcnt]
      split_ifs with hqr
      · rw [hqr]
        omega
      · exact le_rfl
    · rw [hproc, Function.update_self, hq, hseq, hcnt, if_pos rfl]
      exact ⟨hr.le, le_rfl, by omega⟩
    · rintro - ⟨-, hsame⟩
      rw [hproc, Function.update_self, hq] at hsame
      exact hne hsame
  · exact (h.quiet hquiet).congr fun i hi => arrivals_quiet hquiet hi

/-- The tickets of the processes outside the MoQ fit into one queue: they are different,
and those of `L0` are smaller than the others. -/
def BoostApart (k : Kernel) : Prop :=
  ∀ i j, i ≠ j → (k.proc i).Live → (k.proc j).Live → (k.proc i).qlev ≠ MoQ →
    (k.proc j).qlev ≠ MoQ → (k.proc i).seq ≠ (k.proc j).seq ∧
      ((k.proc i).qlev = L0 → (k.proc j).qlev ≠ L0 → (k.proc i).seq < (k.proc j).seq)

instance (k : Kernel) : Decidable (BoostApart k) :=
  inferInstanceAs (Decidable (∀ _ _ : Slot, _ → _))

/-- Every ticket outside the MoQ is below the counter of `L0`. -/
lemma Slack.seq_lt_l0Cnt (hs : Slack k) (h : InLine k arrival now) {i : Slot}
    (hi : (k.proc i).Live) (hq : (k.proc i).qlev ≠ MoQ) : (k.proc i).seq < k.l0Cnt := by
  have hticket := h.ticket i hi
  have hlevel : (k.proc i).qlev ≤ 4 := h.level i hi
  have hne : (k.proc i).qlev ≠ 4 := hq
  have hcases : (k.proc i).qlev = 0 ∨ (k.proc i).qlev = 1 ∨ (k.proc i).qlev = 2 ∨
      (k.proc i).qlev = 3 := by omega
  obtain ⟨h1, h2, h3, -, -, -, hf, hsec⟩ := hs
  have hn0 := liveAt_nonneg k L0
  have hn1 := liveAt_nonneg k L1
  have hn2 := liveAt_nonneg k L2
  rcases hcases with hc | hc | hc | hc <;> rw [hc] at hticket
  · exact hticket
  · have hlt : (k.proc i).seq < k.l1Cnt := hticket
    omega
  · have hlt : (k.proc i).seq < k.l2Cnt := hticket
    omega
  · have hlt : (k.proc i).seq < k.l3Cnt := hticket
    omega

lemma InLine.boost (h : InLine k arrival now) (hs : Slack k)
    (hfit : k.l0Cnt + (boosted k).card < 2147483648) (hapart : BoostApart k) (hlt : now < now') :
    InLine (Kernel.boost k) (arrivals k (Kernel.boost k) arrival now') now' := by
  have hcnt := boost_l0Cnt hs.l0_nonneg hfit
  have hlive : ∀ i, ((Kernel.boost k).proc i).Live ↔ (k.proc i).Live := by
    intro i
    rw [boost_proc]
    split_ifs <;> rfl
  have hseq : ∀ i, ((Kernel.boost k).proc i).seq = (k.proc i).seq := by
    intro i
    rw [boost_proc]
    split_ifs <;> rfl
  have hqlev : ∀ i, ((Kernel.boost k).proc i).qlev =
      if (k.proc i).qlev = MoQ then MoQ else L0 := by
    intro i
    rw [boost_proc]
    split_ifs with hq
    · exact hq
    · rfl
  -- only those below `L0` join the line anew; monopoly and `L0` keep their arrival
  have harr : ∀ i, (k.proc i).Live → arrivals k (Kernel.boost k) arrival now' i =
      if (k.proc i).qlev = MoQ ∨ (k.proc i).qlev = L0 then arrival i else now' := by
    intro i hi
    simp only [arrivals, hqlev, hi, true_and]
    by_cases hm : (k.proc i).qlev = MoQ
    · simp [hm]
    · simp [hm, eq_comm]
  have hpast : ∀ i, (k.proc i).Live → arrivals k (Kernel.boost k) arrival now' i ≤ now' := by
    intro i hi
    rw [harr i hi]
    split_ifs
    · exact (h.past i hi).trans hlt.le
    · exact le_rfl
  constructor
  · intro i _
    rw [hqlev]
    split_ifs <;> decide
  · intro i hi
    rw [hlive] at hi
    rw [hseq, hqlev]
    split_ifs with hm
    · have ht := h.ticket i hi
      rwa [hm] at ht
    · show (k.proc i).seq < (Kernel.boost k).l0Cnt
      have hbelow := hs.seq_lt_l0Cnt h hi hm
      omega
  · intro i hi
    exact hpast i ((hlive i).mp hi)
  · intro i j hij hi hj hq
    rw [hlive] at hi hj
    rw [hqlev, hqlev] at hq
    rw [hseq, hseq]
    by_cases hmi : (k.proc i).qlev = MoQ
    · -- the MoQ is left alone
      have hmj : (k.proc j).qlev = MoQ := by
        by_contra hmj
        rw [if_pos hmi, if_neg hmj] at hq
        exact absurd hq (by decide)
      rw [harr i hi, harr j hj, if_pos (Or.inl hmi), if_pos (Or.inl hmj)]
      exact h.order i j hij hi hj (hmi.trans hmj.symm)
    · have hmj : (k.proc j).qlev ≠ MoQ := by
        intro hmj
        rw [if_neg hmi, if_pos hmj] at hq
        exact absurd hq (by decide)
      obtain ⟨hne, hsmall⟩ := hapart i j hij hi hj hmi hmj
      refine ⟨hne, fun hlate => ?_⟩
      have hli : (k.proc i).qlev = L0 := by
        by_contra hli
        rw [harr i hi, if_neg (by tauto)] at hlate
        exact absurd (hpast j hj) (not_le.mpr hlate)
      by_cases hlj : (k.proc j).qlev = L0
      · rw [harr i hi, harr j hj, if_pos (Or.inr hli), if_pos (Or.inr hlj)] at hlate
        exact (h.order i j hij hi hj (hli.trans hlj.symm)).2 hlate
      · exact hsmall hli hlj

/-! ### The loop of `setmonopoly` -/

lemma monopolySlot_proc (k : Kernel) (i : Slot) : (monopolySlot k i).proc =
    Function.update k.proc i { k.proc i with qlev := MoQ, seq := k.moqCnt } := rfl

/-- A process that moves to the MoQ stays there. -/
lemma setmonopolyLoop_qlev {c : Slot} {pid : ℤ} (l : List Slot) :
    ∀ (found : Bool) (k k' : Kernel) (r : ℤ ⊕ Bool), setmonopolyLoop c pid l found k = (r, k') →
      ∀ j, (k.proc j).qlev = MoQ → (k'.proc j).qlev = MoQ := by
  induction l with
  | nil =>
    intro found k k' r h j hj
    obtain ⟨-, rfl⟩ := Prod.mk.inj h
    exact hj
  | cons i l ih =>
    intro found k k' r h j hj
    rw [Kernel.setmonopolyLoop] at h
    split_ifs at h with hpid hq hself
    · obtain ⟨-, rfl⟩ := Prod.mk.inj h
      exact hj
    · obtain ⟨-, rfl⟩ := Prod.mk.inj h
      exact hj
    · refine ih _ _ _ _ h j ?_
      have hji : j ≠ i := by
        rintro rfl
        exact hq hj
      rw [monopolySlot_proc, Function.update_of_ne hji]
      exact hj
    · exact ih _ _ _ _ h j hj

lemma InLine.monopolySlot (h : InLine k arrival now) {i : Slot} (hq : (k.proc i).qlev ≠ MoQ)
    (hpos : 0 ≤ k.moqCnt) (hfit : k.moqCnt + 1 < 2147483648) :
    InLine (Kernel.monopolySlot k i) (arrivals k (Kernel.monopolySlot k i) arrival now) now := by
  have hother : ∀ j, j ≠ i → (Kernel.monopolySlot k i).proc j = k.proc j := fun j hj => by
    rw [monopolySlot_proc, Function.update_of_ne hj]
  have hcnt : (Kernel.monopolySlot k i).moqCnt = k.moqCnt + 1 :=
    int32_of_bounds (by omega) (by omega)
  refine InLine.congr (h.enter i hother (fun q hle => ?_) fun _ => ?_) (arrivals_enter i hother ?_)
  · rcases Nat.lt_or_eq_of_le hle with hlt | rfl
    · have hne : (q : ℤ) ≠ 4 := by
        have hlt' : q < 4 := hlt
        omega
      simp only [getLevCnt, hne, if_false]
      exact le_rfl
    · show k.moqCnt ≤ (Kernel.monopolySlot k i).moqCnt
      omega
  · rw [monopolySlot_proc, Function.update_self]
    refine ⟨le_rfl, le_rfl, ?_⟩
    show k.moqCnt < (Kernel.monopolySlot k i).moqCnt
    omega
  · rintro - ⟨-, hsame⟩
    rw [monopolySlot_proc, Function.update_self] at hsame
    exact hq hsame.symm

lemma setmonopolyLoop_inLine {c : Slot} {pid : ℤ} (l : List Slot) :
    ∀ (found : Bool) (k k' : Kernel) (r : ℤ ⊕ Bool) (arrival : Slot → ℕ), Slack k →
      InLine k arrival now →
      k.moqCnt + (l.filter fun i => (k.proc i).pid = pid).length < 2147483648 →
      setmonopolyLoop c pid l found k = (r, k') →
      Slack k' ∧ InLine k' (arrivals k k' arrival now) now := by
  induction l with
  | nil =>
    intro found k k' r arrival hs hk hfit h
    obtain ⟨-, rfl⟩ := Prod.mk.inj h
    exact ⟨hs, hk.congr fun i hi => arrivals_quiet (Quiet.refl k) hi⟩
  | cons i l ih =>
    intro found k k' r arrival hs hk hfit h
    rw [Kernel.setmonopolyLoop] at h
    split_ifs at h with hpid hq hself
    · obtain ⟨-, rfl⟩ := Prod.mk.inj h
      exact ⟨hs, hk.congr fun i hi => arrivals_quiet (Quiet.refl k) hi⟩
    · obtain ⟨-, rfl⟩ := Prod.mk.inj h
      exact ⟨hs, hk.congr fun i hi => arrivals_quiet (Quiet.refl k) hi⟩
    · -- slot `i` draws a ticket of the MoQ
      simp only [hpid, decide_true, List.filter_cons_of_pos, List.length_cons, Nat.cast_add,
        Nat.cast_one] at hfit
      have hpos := hs.moq
      have hcnt : (monopolySlot k i).moqCnt = k.moqCnt + 1 :=
        int32_of_bounds (by omega) (by omega)
      have hpids : ∀ j, ((monopolySlot k i).proc j).pid = (k.proc j).pid := by
        intro j
        by_cases hji : j = i
        · subst hji
          rw [monopolySlot_proc, Function.update_self]
        · rw [monopolySlot_proc, Function.update_of_ne hji]
      obtain ⟨hs', hk'⟩ := ih _ _ _ _ _ (hs.monopolySlot i (by omega))
        (hk.monopolySlot hq hpos (by omega)) (by simp only [hpids, hcnt]; omega) h
      refine ⟨hs', hk'.congr fun j hj => ?_⟩
      by_cases hji : j = i
      · subst hji
        have hmoq : ((monopolySlot k j).proc j).qlev = MoQ := by
          rw [monopolySlot_proc, Function.update_self]
        have hmoq' := setmonopolyLoop_qlev l _ _ _ _ h j hmoq
        simp [arrivals, hmoq, hmoq', Ne.symm hq]
      · by_cases hlive : (k.proc j).Live
        · simp [arrivals, monopolySlot_proc, Function.update_of_ne hji, hlive]
        · simp [arrivals, monopolySlot_proc, Function.update_of_ne hji, hlive]
    · have hfit' : k.moqCnt + (l.filter fun i => (k.proc i).pid = pid).length < 2147483648 := by
        simpa [hpid] using hfit
      exact ih _ _ _ _ _ hs hk hfit' h

/-! ### Histories -/

/-- A kernel, the number of operations so far, and the operation at which each live process
entered its queue. -/
structure History where
  kernel : Kernel
  now : ℕ
  arrival : Slot → ℕ

/-- The history that starts with `pinit`. -/
def History.start : History := ⟨pinit, 0, fun _ => 0⟩

/-- One operation. -/
def History.next (h : History) (op : Op) : Option History :=
  (step h.kernel op).map fun k => ⟨k, h.now + 1, arrivals h.kernel k h.arrival (h.now + 1)⟩

/-- The operation leads from one history to the other. -/
def HistoryStep (h : History) (op : Op) (h' : History) : Prop := h.next op = some h'

/-- The counter of the MoQ does not overflow in the operation. -/
def MoqFits (k : Kernel) : Op → Prop
  | .setmonopoly _ pid pw => pw = password →
      k.moqCnt + (slots.filter fun i => (k.proc i).pid = pid).length < 2147483648
  | _ => True

/-- No ticket counter overflows in the operation. -/
def Fits (k : Kernel) (op : Op) : Prop :=
  (Allocates op → k.l0Cnt + 1 < 2147483648) ∧
    (Boosts k op → k.l0Cnt + (boosted k).card < 2147483648) ∧ MoqFits k op

/-- The condition on a step: no counter overflows, and at a boost the tickets fit. -/
def OrderSafe (h : History) (op : Op) : Prop :=
  Fits h.kernel op ∧ (Boosts h.kernel op → BoostApart h.kernel)

instance (op : Op) : Decidable (Allocates op) :=
  match op with
  | .userinit | .forkAlloc _ => inferInstanceAs (Decidable True)
  | .scheduler | .forkFail _ | .forkDone _ | .exit _ | .wait _ | .kill _ _ | .sleep _ _
  | .wakeup _ | .yield _ | .tick _ _ | .priorityBoost | .setpriority _ _ _ | .setmonopoly _ _ _
  | .monopolize _ | .unmonopolize _ => inferInstanceAs (Decidable False)

instance (k : Kernel) (op : Op) : Decidable (Boosts k op) :=
  match op with
  | .priorityBoost => inferInstanceAs (Decidable True)
  | .tick _ _ => inferInstanceAs (Decidable (¬_ ∧ _ ∧ _))
  | .userinit | .scheduler | .forkAlloc _ | .forkFail _ | .forkDone _ | .exit _ | .wait _
  | .kill _ _ | .sleep _ _ | .wakeup _ | .yield _ | .setpriority _ _ _ | .setmonopoly _ _ _
  | .monopolize _ | .unmonopolize _ => inferInstanceAs (Decidable False)

instance (k : Kernel) (op : Op) : Decidable (MoqFits k op) :=
  match op with
  | .setmonopoly _ _ _ => inferInstanceAs (Decidable (_ → _))
  | .userinit | .scheduler | .forkAlloc _ | .forkFail _ | .forkDone _ | .exit _ | .wait _
  | .kill _ _ | .sleep _ _ | .wakeup _ | .yield _ | .tick _ _ | .priorityBoost
  | .setpriority _ _ _ | .monopolize _ | .unmonopolize _ => inferInstanceAs (Decidable True)

instance (h : History) (op : Op) : Decidable (OrderSafe h op) :=
  inferInstanceAs (Decidable ((_ ∧ _ ∧ _) ∧ _))

lemma BoostApart.quiet (h : BoostApart k) (hq : Quiet k k') : BoostApart k' := by
  intro i j hij hi hj
  rw [hq.live] at hi hj
  rw [hq.qlev, hq.qlev, hq.seq, hq.seq]
  exact h i j hij hi hj

lemma boosted_quiet (hq : Quiet k k') : boosted k' = boosted k := by
  ext i
  simp [boosted, hq.qlev]

lemma effect_inLine {op : Op} (he : Effect k op k') (hs : Slack k) (h : InLine k arrival now)
    (hlt : now < now') (hfit : Fits k op) (hapart : Boosts k op → BoostApart k) :
    Slack k' ∧ InLine k' (arrivals k k' arrival now') now' := by
  have h' := h.later hlt.le
  cases he with
  | quiet hq =>
    exact ⟨hs.quiet hq, (h'.quiet hq).congr fun i hi => arrivals_quiet hq hi⟩
  | alloc hal hq hi hq' =>
    have hfit' := hfit.1 hal
    rw [← hq.l0Cnt] at hfit'
    have hs₁ := hs.quiet hq
    refine ⟨(hs₁.alloc hi hfit').quiet hq', ?_⟩
    refine InLine.congr (((h'.quiet hq).alloc hi hs₁.l0_nonneg hfit').quiet hq') fun i _ => ?_
    exact arrivals_congr hq hq' i
  | fail hc hi hq =>
    refine ⟨(hs.fail _).quiet hq, InLine.congr ((h'.fail _).quiet hq) fun i _ => ?_⟩
    exact arrivals_congr (Quiet.refl k) hq i
  | exit hq hc hq' =>
    refine ⟨((hs.quiet hq).exit _).quiet hq', ?_⟩
    refine InLine.congr (((h'.quiet hq).exit _).quiet hq') fun i _ => ?_
    exact arrivals_congr hq hq' i
  | boost hb hq hq' =>
    have hfit' := hfit.2.1 hb
    rw [← hq.l0Cnt, ← boosted_quiet hq] at hfit'
    have hs₁ := hs.quiet hq
    refine ⟨(hs₁.boost hfit').quiet hq', InLine.congr
      (((h.quiet hq).boost hs₁ hfit' ((hapart hb).quiet hq) hlt).quiet hq') fun i _ => ?_⟩
    exact arrivals_congr hq hq' i
  | demote hq hl _ hq' =>
    have hs₁ := hs.quiet hq
    refine ⟨(hs₁.demote hl).quiet hq', ?_⟩
    refine InLine.congr (((h'.quiet hq).demote hs₁ hl).quiet hq') fun i _ => ?_
    exact arrivals_congr hq hq' i
  | monopoly hq hpid hloop hq' =>
    have hfit' := hfit.2.2 rfl
    simp only [← hpid, ← hq.moqCnt] at hfit'
    obtain ⟨hs₁, h₁⟩ := setmonopolyLoop_inLine slots _ _ _ _ _ (hs.quiet hq)
      (h'.quiet hq) hfit' hloop
    refine ⟨hs₁.quiet hq', InLine.congr (h₁.quiet hq') fun i _ => ?_⟩
    exact arrivals_congr hq hq' i

/-- The histories reached by steps that meet the condition. -/
def OrderReach : History → Prop := Reachable (· = History.start) (Guarded HistoryStep OrderSafe)

lemma slack_pinit : Slack pinit := by
  have hzero : ∀ q, liveAt pinit q = 0 := by
    intro q
    refine Finset.sum_eq_zero fun i _ => Proc.here_eq_zero fun hl => ?_
    simp [Kernel.pinit, Proc.zero, Proc.Live] at hl
  refine ⟨le_rfl, le_rfl, le_rfl, le_rfl, by decide, by decide, ?_, ?_⟩
  · rw [hzero]
    decide
  · rw [hzero, hzero]
    decide

lemma OrderReach.inLine {h : History} (hr : OrderReach h) :
    Forks h.kernel ∧ Slack h.kernel ∧ InLine h.kernel h.arrival h.now := by
  refine hr.invariant
    (I := fun h => Forks h.kernel ∧ Slack h.kernel ∧ InLine h.kernel h.arrival h.now) ?_ ?_
  · rintro h rfl
    have hdead : ∀ i, ¬(pinit.proc i).Live := by simp [Kernel.pinit, Proc.zero, Proc.Live]
    exact ⟨forks_pinit, slack_pinit, fun i hi => absurd hi (hdead i),
      fun i hi => absurd hi (hdead i), fun i hi => absurd hi (hdead i),
      fun i j _ hi => absurd hi (hdead i)⟩
  · rintro h op h' ⟨hf, hs, hin⟩ ⟨hstep, hfit, hapart⟩
    obtain ⟨k', hk', rfl⟩ := Option.map_eq_some_iff.mp hstep
    obtain ⟨hf', he⟩ := step_effect hf hk'
    exact ⟨hf', effect_inLine he hs hin (Nat.lt_succ_self _) hfit hapart⟩

/-- The process that a pass dispatches has the smallest ticket of the runnable processes in
its queue, unless that queue is `L3`. -/
lemma scheduler_seq_le {i : Slot} (h : scheduler k = some (some i, k')) {j : Slot}
    (hj : (k.proc j).state = .runnable) (hq : (k.proc j).qlev = (k.proc i).qlev)
    (h3 : (k.proc i).qlev ≠ L3) :
    (k.proc i).state = .runnable ∧ (k.proc i).seq ≤ (k.proc j).seq := by
  have hk : k.locked = false := by
    by_contra hne
    simp [scheduler, acquire, hne] at h
  rw [scheduler_eq hk] at h
  obtain ⟨hd, -⟩ := Prod.mk.inj (Option.some.inj h)
  by_cases hoff : k.moqActive = 0
  · obtain ⟨d, hb, hsome, -⟩ := schedulerBody_off (k := k.setLocked true) hoff
    rw [hb] at hd
    obtain ⟨hrun, hle⟩ := hsome i hd
    refine ⟨hrun, ?_⟩
    rcases hle j hj with hlt | ⟨-, ⟨hl3, -⟩ | ⟨-, hlt | ⟨heq, -⟩⟩⟩
    · exact absurd hq hlt.ne'
    · exact absurd hl3 h3
    · exact hlt.le
    · exact heq.le
  · by_cases hsz : k.moqSz = 0
    · rw [schedulerBody_ends (k := k.setLocked true) hoff hsz] at hd
      exact absurd hd (by simp)
    · obtain ⟨d, hb, hsome, -⟩ := schedulerBody_on (k := k.setLocked true) hoff hsz
      rw [hb] at hd
      obtain ⟨⟨hrun, hmoq⟩, hle⟩ := hsome i hd
      refine ⟨hrun, ?_⟩
      rcases hle j hj (hq.trans hmoq) with hlt | ⟨heq, -⟩
      · exact hlt.le
      · exact heq.le

/-- **Tickets follow arrivals**, in every run that meets the condition: two live processes of
one queue have different tickets, the one that entered first the smaller one, and outside
`L3` the scheduler serves a queue in the order of arrival. -/
theorem seq_follows_arrival {h : History} (hr : OrderReach h) :
    (∀ i j, i ≠ j → (h.kernel.proc i).Live → (h.kernel.proc j).Live →
      (h.kernel.proc i).qlev = (h.kernel.proc j).qlev →
      (h.kernel.proc i).seq ≠ (h.kernel.proc j).seq ∧
        (h.arrival i < h.arrival j → (h.kernel.proc i).seq < (h.kernel.proc j).seq)) ∧
    (∀ i k', scheduler h.kernel = some (some i, k') → (h.kernel.proc i).qlev ≠ L3 →
      ∀ j, (h.kernel.proc j).state = .runnable →
        (h.kernel.proc j).qlev = (h.kernel.proc i).qlev → h.arrival i ≤ h.arrival j) := by
  obtain ⟨-, -, hin⟩ := hr.inLine
  refine ⟨hin.order, fun i k' hs h3 j hj hq => ?_⟩
  obtain ⟨hrun, hle⟩ := scheduler_seq_le hs hj hq h3
  have hlive : ∀ i, (h.kernel.proc i).state = .runnable → (h.kernel.proc i).Live := by
    intro i hi
    simp [Proc.Live, hi]
  by_contra hlate
  have hji : j ≠ i := by
    rintro rfl
    exact hlate le_rfl
  have hlt := (hin.order j i hji (hlive j hj) (hlive i hrun) hq).2 (not_le.mp hlate)
  exact absurd hlt (not_lt.mpr hle)

/-- The first process waits for its child and forks again; it and the new child use up their slices
in `L0` and are boosted, with the tickets that they have in `L1`; and then there is a third process
in `L0`. -/
theorem seq_follows_arrival_child : ∃ h, OrderReach h ∧
    (h.kernel.proc 0).seq ≠ (h.kernel.proc 1).seq ∧
    (h.kernel.proc 0).seq < (h.kernel.proc 2).seq ∧
    (h.kernel.proc 1).seq < (h.kernel.proc 2).seq := by
  have hrun : ((run (guardedNext History.next OrderSafe) History.start
      [.userinit, .scheduler, .forkAlloc 0, .forkDone 0, .sleep 0 (.addr 1), .scheduler, .exit 1,
        .wakeup (.addr 1), .scheduler, .wait 0, .forkAlloc 0, .forkDone 0, .tick 0 true,
        .tick 0 true, .scheduler, .tick 1 true, .tick 1 true, .scheduler, .priorityBoost,
        .forkAlloc 0, .forkDone 0]).any fun h =>
        decide ((∀ i : Fin 3, (h.kernel.proc (i.castLE (by decide))).Live ∧
          (h.kernel.proc (i.castLE (by decide))).qlev = L0) ∧
          h.arrival 0 < h.arrival 2 ∧ h.arrival 1 < h.arrival 2)) = true := by
    decide +kernel
  obtain ⟨h, hh, hall⟩ := (Option.any_eq_true _ _).mp hrun
  obtain ⟨hin, hlt₀, hlt₁⟩ := of_decide_eq_true hall
  have hnext : ∀ s i s', guardedNext History.next OrderSafe s i = some s' →
      Guarded HistoryStep OrderSafe s i s' := fun _ _ _ hs => guardedNext_eq_some.mp hs
  have hreach : OrderReach h := Reachable.run hnext (.start rfl) hh
  obtain ⟨h0, hq0⟩ := hin 0
  obtain ⟨h1, hq1⟩ := hin 1
  obtain ⟨h2, hq2⟩ := hin 2
  have horder := (seq_follows_arrival hreach).1
  exact ⟨h, hreach, (horder 0 1 (by decide) h0 h1 (hq0.trans hq1.symm)).1,
    (horder 0 2 (by decide) h0 h2 (hq0.trans hq2.symm)).2 hlt₀,
    (horder 1 2 (by decide) h1 h2 (hq1.trans hq2.symm)).2 hlt₁⟩

/-- The first process, its child, and a second child that is moved to the MoQ; the first two
use up their slices in `L0` and sleep, and the third runs until the boost. -/
def boostOps : List Op :=
  [.userinit, .scheduler, .forkAlloc 0, .forkDone 0, .forkAlloc 0, .forkDone 0,
    .setmonopoly 0 3 password, .tick 0 true, .tick 0 true, .scheduler, .tick 1 true,
    .tick 1 true, .scheduler, .sleep 0 (.addr 1), .scheduler, .sleep 1 (.addr 1), .scheduler] ++
  List.replicate 96 (.tick 2 true)

/-- After the boost two live processes of `L0` have the same ticket. -/
theorem seq_not_follows_arrival : ∃ h, Reachable (· = History.start) HistoryStep h ∧
    (h.kernel.proc 0).Live ∧ (h.kernel.proc 1).Live ∧
    (h.kernel.proc 0).qlev = (h.kernel.proc 1).qlev ∧
    (h.kernel.proc 0).seq = (h.kernel.proc 1).seq := by
  have hrun : ((run History.next History.start boostOps).any fun h =>
        decide ((h.kernel.proc 0).Live ∧ (h.kernel.proc 1).Live ∧
          (h.kernel.proc 0).qlev = (h.kernel.proc 1).qlev ∧
            (h.kernel.proc 0).seq = (h.kernel.proc 1).seq)) = true := by
    decide +kernel
  obtain ⟨h, hh, hall⟩ := (Option.any_eq_true _ _).mp hrun
  exact ⟨h, Reachable.run (fun _ _ _ hs => hs) (.start rfl) hh, of_decide_eq_true hall⟩

end Xv6Projects.Mlfq
