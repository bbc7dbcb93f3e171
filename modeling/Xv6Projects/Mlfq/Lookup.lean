import Xv6Projects.Mlfq.Tickets

/-!
# Looking a process up by its pid

`setpriority` stops at the first slot with the pid, and `setmonopoly` goes on to the next one;
neither looks at the state of the slot.  What the two calls do is first said exactly, in terms of
the slots that have the pid, and the results are read off.
-/

namespace Xv6Projects.Mlfq

open Library Kernel

variable {k k' : Kernel} {c i j : Slot} {pid : ℤ}

/-- The slots with a pid, in the order of the loops over the table. -/
def hits (k : Kernel) (pid : ℤ) : List Slot := slots.filter fun i => (k.proc i).pid = pid

@[simp] lemma mem_hits : i ∈ hits k pid ↔ (k.proc i).pid = pid := by
  simp [hits]

lemma hits_eq_nil : hits k pid = [] ↔ ∀ i, (k.proc i).pid ≠ pid := by
  rw [List.eq_nil_iff_forall_not_mem]
  exact forall_congr' fun i => not_congr mem_hits

lemma nodup_hits (k : Kernel) (pid : ℤ) : (hits k pid).Nodup :=
  (slots_pairwise.imp ne_of_lt).filter _

/-! ### The loop of `setmonopoly` -/

/-- The loop of `setmonopoly` returns early at slot `i`. -/
def Refuses (k : Kernel) (c : Slot) (pid : ℤ) (i : Slot) : Prop :=
  (k.proc i).pid = pid ∧ ((k.proc i).qlev = MoQ ∨ (k.proc c).pid = pid)

lemma monopolySlot_pid (k : Kernel) (i j : Slot) :
    ((monopolySlot k i).proc j).pid = (k.proc j).pid := by
  rw [monopolySlot_proc, Function.update_apply]
  split_ifs with h
  · rw [h]
  · rfl

lemma monopolySlot_proc_ne (h : j ≠ i) : (monopolySlot k i).proc j = k.proc j := by
  rw [monopolySlot_proc, Function.update_of_ne h]

/-- An early return leaves the lock as it was. -/
lemma setmonopolyLoop_refused (l : List Slot) (hl : l.Nodup) :
    ∀ (found : Bool) (k : Kernel), (∃ i ∈ l, Refuses k c pid i) →
      ∃ r k', setmonopolyLoop c pid l found k = (.inl r, k') ∧ r < 0 ∧ k'.locked = k.locked := by
  induction l with
  | nil => simp
  | cons i l ih =>
    intro found k h
    obtain ⟨hil, hl⟩ := List.nodup_cons.mp hl
    rw [setmonopolyLoop]
    by_cases hpid : (k.proc i).pid = pid
    · rw [if_pos hpid]
      by_cases hq : (k.proc i).qlev = MoQ
      · rw [if_pos hq]
        exact ⟨-3, k, rfl, by norm_num, rfl⟩
      · rw [if_neg hq]
        by_cases hself : (k.proc c).pid = (k.proc i).pid
        · rw [if_pos hself]
          exact ⟨-4, k, rfl, by norm_num, rfl⟩
        · rw [if_neg hself]
          -- the loop returns at a later slot, which is as it was
          obtain ⟨j, hj, hjpid, href⟩ := h
          have hmoq : (k.proc j).qlev = MoQ :=
            href.resolve_right fun hc => hself (hc.trans hpid.symm)
          have hji : j ≠ i := by
            rintro rfl
            exact hq hmoq
          have hjl : j ∈ l := (List.mem_cons.mp hj).resolve_left hji
          refine ih hl true (monopolySlot k i) ⟨j, hjl, ?_, .inl ?_⟩
          · rw [monopolySlot_pid, hjpid]
          · rw [monopolySlot_proc_ne hji, hmoq]
    · rw [if_neg hpid]
      obtain ⟨j, hj, href⟩ := h
      have hji : j ≠ i := by
        rintro rfl
        exact hpid href.1
      exact ih hl found k ⟨j, (List.mem_cons.mp hj).resolve_left hji, href⟩

/-- Without an early return every slot with the pid moves to the MoQ. -/
lemma setmonopolyLoop_done (l : List Slot) (hl : l.Nodup) :
    ∀ (found : Bool) (k : Kernel), (∀ i ∈ l, ¬Refuses k c pid i) →
      setmonopolyLoop c pid l found k =
        (.inr (found || l.any fun i => (k.proc i).pid = pid),
          (l.filter fun i => (k.proc i).pid = pid).foldl monopolySlot k) := by
  induction l with
  | nil => simp [setmonopolyLoop]
  | cons i l ih =>
    intro found k h
    obtain ⟨hil, hl⟩ := List.nodup_cons.mp hl
    rw [setmonopolyLoop]
    by_cases hpid : (k.proc i).pid = pid
    · have hi : ¬Refuses k c pid i := h i List.mem_cons_self
      have hq : (k.proc i).qlev ≠ MoQ := fun hq => hi ⟨hpid, .inl hq⟩
      have hself : (k.proc c).pid ≠ (k.proc i).pid := fun hs => hi ⟨hpid, .inr (hs.trans hpid)⟩
      have hrest : ∀ j ∈ l, ¬Refuses (monopolySlot k i) c pid j := by
        rintro j hj ⟨hjpid, href⟩
        have hji : j ≠ i := by
          rintro rfl
          exact hil hj
        refine h j (List.mem_cons_of_mem i hj) ⟨?_, ?_⟩
        · rwa [monopolySlot_pid] at hjpid
        · rwa [monopolySlot_proc_ne hji, monopolySlot_pid] at href
      rw [if_pos hpid, if_neg hq, if_neg hself, ih hl true _ hrest]
      simp [hpid, monopolySlot_pid]
    · rw [if_neg hpid, ih hl found k fun j hj => h j (List.mem_cons_of_mem i hj)]
      simp [hpid]

lemma int32_int32_add (x n : ℤ) : int32 (int32 x + n) = int32 (x + n) := by
  unfold int32
  omega

lemma foldl_monopolySlot_moqSz (l : List Slot) :
    ∀ k : Kernel, (l.foldl monopolySlot k).moqSz =
      if l = [] then k.moqSz else int32 (k.moqSz + l.length) := by
  induction l with
  | nil => simp
  | cons i l ih =>
    intro k
    have hsz : (monopolySlot k i).moqSz = int32 (k.moqSz + 1) := rfl
    rw [List.foldl_cons, ih, hsz, int32_int32_add, if_neg (List.cons_ne_nil i l), List.length_cons]
    split_ifs with hl
    · simp [hl]
    · congr 1
      push_cast
      ring

/-- The loop moves what it visits to the MoQ, and nothing else. -/
lemma foldl_monopolySlot_qlev (l : List Slot) :
    ∀ (k : Kernel) (j : Slot), ((l.foldl monopolySlot k).proc j).qlev =
      if j ∈ l then MoQ else (k.proc j).qlev := by
  induction l with
  | nil => simp
  | cons i l ih =>
    intro k j
    rw [List.foldl_cons, ih, monopolySlot_proc, Function.update_apply]
    by_cases hj : j ∈ l
    · rw [if_pos hj, if_pos (List.mem_cons_of_mem i hj)]
    · by_cases hji : j = i
      · simp [hji]
      · simp [hj, hji]

/-! ### What `setmonopoly` returns -/

lemma setmonopoly_wrong {pw : ℤ} (h : pw ≠ password) :
    setmonopoly k c pid pw = some (-2, k) := by
  rw [setmonopoly, if_pos h]

/-- With the lock held the call panics in `acquire`. -/
lemma setmonopoly_locked (h : k.locked = true) : setmonopoly k c pid password = none := by
  simp [setmonopoly, acquire, h]

/-- An early return keeps the lock. -/
lemma setmonopoly_refused (hk : k.locked = false) (h : Refuses k c pid i) :
    ∃ r k', setmonopoly k c pid password = some (r, k') ∧ r < 0 ∧ k'.locked = true := by
  have hi : ∃ i ∈ slots, Refuses (k.setLocked true) c pid i := ⟨i, mem_slots i, h⟩
  obtain ⟨r, k', hloop, hr, hl⟩ :=
    setmonopolyLoop_refused slots (slots_pairwise.imp ne_of_lt) false (k.setLocked true) hi
  refine ⟨r, k', ?_, hr, hl⟩
  simp [setmonopoly, acquire, hk, hloop]

lemma setmonopoly_done (hk : k.locked = false) (h : ∀ i, ¬Refuses k c pid i) :
    setmonopoly k c pid password =
      some (if hits k pid = [] then -1 else int32 (k.moqSz + (hits k pid).length),
        ((hits k pid).foldl monopolySlot (k.setLocked true)).setLocked false) := by
  have hany : (slots.any fun i => ((k.setLocked true).proc i).pid = pid) =
      !(hits k pid).isEmpty := by
    rw [Bool.eq_iff_iff]
    simp only [List.any_eq_true, mem_slots, true_and, Bool.not_eq_true', List.isEmpty_eq_false_iff,
      ne_eq, hits_eq_nil, not_forall, not_not]
    exact exists_congr fun i => decide_eq_true_iff
  have hfilter : (slots.filter fun i => ((k.setLocked true).proc i).pid = pid) = hits k pid := by
    unfold hits
    rfl
  have hloop : setmonopolyLoop c pid slots false (k.setLocked true) =
      (.inr (!(hits k pid).isEmpty), (hits k pid).foldl monopolySlot (k.setLocked true)) := by
    have hall : ∀ i ∈ slots, ¬Refuses (k.setLocked true) c pid i := fun i _ => h i
    rw [setmonopolyLoop_done slots (slots_pairwise.imp ne_of_lt) false _ hall, Bool.false_or, hany,
      hfilter]
  have hsz := foldl_monopolySlot_moqSz (hits k pid) (k.setLocked true)
  rw [setLocked_moqSz] at hsz
  rw [setmonopoly, if_neg (by simp), acquire_eq_some.mpr ⟨hk, rfl⟩, Option.map_some, hloop]
  dsimp only [release]
  rw [hsz]
  by_cases hnil : hits k pid = []
  · simp [hnil]
  · simp [hnil]

/-! ### Refusals -/

/-- `setmonopoly` returns with `ptable.lock` released, so that the next `acquire` succeeds, and a
negative return value means that nothing has changed. -/
def RefusalKept (k : Kernel) (c : Slot) (pid pw : ℤ) : Prop :=
  ∃ r k', setmonopoly k c pid pw = some (r, k') ∧ k'.locked = false ∧ (acquire k').isSome ∧
    (r < 0 → k' = k)

/-- The lock is free.  With the right password, the pid is not the caller's own, no slot with the
pid is in the MoQ, and `MoQ_sz` does not overflow. -/
def RefusalSafe (k : Kernel) (c : Slot) (pid pw : ℤ) : Prop :=
  k.locked = false ∧ (pw = password → (∀ i, ¬Refuses k c pid i) ∧
    (hits k pid ≠ [] → 0 ≤ int32 (k.moqSz + (hits k pid).length)))

/-- A table in which a slot has moved to the MoQ is not the old one. -/
lemma foldl_monopolySlot_ne (h : ∀ i, ¬Refuses k c pid i) (hnil : hits k pid ≠ []) :
    ((hits k pid).foldl monopolySlot (k.setLocked true)).setLocked false ≠ k := by
  intro heq
  obtain ⟨i, hi⟩ := List.exists_mem_of_ne_nil _ hnil
  have hq := foldl_monopolySlot_qlev (hits k pid) (k.setLocked true) i
  rw [if_pos hi, ← setLocked_proc _ false, heq] at hq
  exact h i ⟨mem_hits.mp hi, .inl hq⟩

lemma RefusalKept.safe {pw : ℤ} (h : RefusalKept k c pid pw) : RefusalSafe k c pid pw := by
  obtain ⟨r, k', hset, hfree, -, hkeep⟩ := h
  by_cases hpw : pw = password
  · subst hpw
    have hk : k.locked = false := by
      by_contra hne
      rw [setmonopoly_locked (by simpa using hne)] at hset
      exact absurd hset (by simp)
    have hnone : ∀ i, ¬Refuses k c pid i := by
      intro i hi
      obtain ⟨r', k'', hset', -, hl⟩ := setmonopoly_refused hk hi
      obtain ⟨-, rfl⟩ := Prod.mk.inj (Option.some.inj (hset.symm.trans hset'))
      rw [hfree] at hl
      exact absurd hl (by simp)
    refine ⟨hk, fun _ => ⟨hnone, fun hnil => ?_⟩⟩
    rw [setmonopoly_done hk hnone, if_neg hnil] at hset
    obtain ⟨rfl, rfl⟩ := Prod.mk.inj (Option.some.inj hset)
    by_contra hneg
    exact foldl_monopolySlot_ne hnone hnil (hkeep (not_le.mp hneg))
  · rw [setmonopoly_wrong hpw] at hset
    obtain ⟨-, rfl⟩ := Prod.mk.inj (Option.some.inj hset)
    exact ⟨hfree, fun h => absurd h hpw⟩

lemma RefusalSafe.kept {pw : ℤ} (h : RefusalSafe k c pid pw) : RefusalKept k c pid pw := by
  obtain ⟨hk, hsafe⟩ := h
  have hacq : ∀ k' : Kernel, k'.locked = false → (acquire k').isSome := fun k' hk' => by
    simp [acquire, hk']
  by_cases hpw : pw = password
  · obtain ⟨hnone, hfits⟩ := hsafe hpw
    subst hpw
    refine ⟨_, _, setmonopoly_done hk hnone, rfl, hacq _ rfl, fun hneg => ?_⟩
    by_cases hnil : hits k pid = []
    · rw [hnil]
      have hlock : (k.setLocked true).setLocked false = k.setLocked false := rfl
      rw [List.foldl_nil, hlock, ← hk]
      rfl
    · rw [if_neg hnil] at hneg
      exact absurd (hfits hnil) (not_le.mpr hneg)
  · exact ⟨-2, k, setmonopoly_wrong hpw, hk, hacq k hk, fun _ => rfl⟩

/-- **When a refused `setmonopoly` has no effect.**  The early returns of the loop keep the lock,
and an overflow of `MoQ_sz` makes a success look like a refusal; there is no other exception. -/
theorem refusalKept_iff (k : Kernel) (c : Slot) (pid pw : ℤ) :
    RefusalKept k c pid pw ↔ RefusalSafe k c pid pw :=
  ⟨RefusalKept.safe, RefusalSafe.kept⟩

/-- The first process names itself: the call returns with the lock held. -/
theorem not_refusalKept : ∃ k, Reach k ∧ Ready k 0 ∧ k.locked = false ∧
    ¬RefusalKept k 0 (k.proc 0).pid password := by
  have hrun : ((run step pinit [.userinit, .scheduler]).any fun k =>
      decide (Ready k 0 ∧ k.locked = false)) = true := by
    decide +kernel
  obtain ⟨k, hk, hall⟩ := (Option.any_eq_true _ _).mp hrun
  obtain ⟨hready, hfree⟩ := of_decide_eq_true hall
  refine ⟨k, Reachable.run (fun _ _ _ h => h) (.start rfl) hk, hready, hfree, fun h => ?_⟩
  exact (h.safe.2 rfl).1 0 ⟨rfl, .inr rfl⟩

/-! ### Which slot is found -/

/-- Slot `i` is in use and has the pid. -/
def InUse (k : Kernel) (pid : ℤ) (i : Slot) : Prop :=
  (k.proc i).state ≠ .unused ∧ (k.proc i).pid = pid

instance (k : Kernel) (pid : ℤ) (i : Slot) : Decidable (InUse k pid i) :=
  inferInstanceAs (Decidable (_ ∧ _))

/-- `setpriority` succeeds just when a slot in use has the pid, and then changes the priority of
such a slot, and nothing else. -/
def PriorityLookup (k : Kernel) (pid priority : ℤ) : Prop :=
  ∃ r k', setpriority k pid priority = some (r, k') ∧ (r = 0 ↔ ∃ i, InUse k pid i) ∧
    (r = 0 → ∃ i, InUse k pid i ∧ k' = k.setProc i { k.proc i with priority := priority })

/-- `setmonopoly` succeeds just when a slot in use has the pid, and then moves such a slot to the
MoQ, whose counters grow by one. -/
def MonopolyLookup (k : Kernel) (c : Slot) (pid : ℤ) : Prop :=
  ∃ r k', setmonopoly k c pid password = some (r, k') ∧ (0 ≤ r ↔ ∃ i, InUse k pid i) ∧
    (0 ≤ r → ∃ i, InUse k pid i ∧
      k' = { k.setProc i { k.proc i with qlev := MoQ, seq := k.moqCnt } with
        moqCnt := k.moqCnt + 1
        moqSz := k.moqSz + 1 })

/-- The lock is free, and the first slot with the pid, if there is one, is in use. -/
def PrioritySafe (k : Kernel) (pid : ℤ) : Prop :=
  k.locked = false ∧ ∀ i, (hits k pid).head? = some i → (k.proc i).state ≠ .unused

/-- The lock is free.  Either no slot has the pid; or one slot has it, which is in use, and the
counters of the MoQ do not overflow; or no slot in use has it, and a free slot with the pid is in
the MoQ or `MoQ_sz` overflows to a negative number. -/
def MonopolySafe (k : Kernel) (pid : ℤ) : Prop :=
  k.locked = false ∧ (hits k pid = [] ∨
    (∃ i, hits k pid = [i] ∧ (k.proc i).state ≠ .unused ∧ 0 ≤ k.moqSz + 1 ∧
      int32 (k.moqSz + 1) = k.moqSz + 1 ∧ int32 (k.moqCnt + 1) = k.moqCnt + 1) ∨
    (∀ i, ¬InUse k pid i) ∧ ((∃ i, (k.proc i).pid = pid ∧ (k.proc i).qlev = MoQ) ∨
      int32 (k.moqSz + (hits k pid).length) < 0))

/-! ### `setpriority` -/

lemma find_pid (k : Kernel) (pid : ℤ) :
    slots.find? (fun i => (k.proc i).pid = pid) = (hits k pid).head? := by
  rw [hits, List.head?_filter]

/-- What `setpriority` does, by the first slot with the pid. -/
lemma setpriority_eq {priority : ℤ} (hk : k.locked = false) (h₀ : 0 ≤ priority)
    (h₁ : priority ≤ 10) : setpriority k pid priority =
      some (match (hits k pid).head? with
        | none => (-1, k)
        | some i => (0, k.setProc i { k.proc i with priority := priority })) := by
  rewrite [setpriority, if_neg (by omega), setpriorityFind, acquire_eq_some.mpr ⟨hk, rfl⟩,
    Option.map_some, Option.map_some, setLocked_proc, find_pid]
  cases (hits k pid).head? <;> rfl

lemma PrioritySafe.lookup {priority : ℤ} (h : PrioritySafe k pid) (h₀ : 0 ≤ priority)
    (h₁ : priority ≤ 10) : PriorityLookup k pid priority := by
  obtain ⟨hk, hfirst⟩ := h
  rw [PriorityLookup, setpriority_eq hk h₀ h₁]
  cases hhead : (hits k pid).head? with
  | none =>
    have hnone := hits_eq_nil.mp (List.head?_eq_none_iff.mp hhead)
    refine ⟨-1, k, rfl, iff_of_false (by norm_num) ?_, fun h => absurd h (by norm_num)⟩
    rintro ⟨i, -, hi⟩
    exact hnone i hi
  | some i =>
    have hi : InUse k pid i := ⟨hfirst i hhead, mem_hits.mp (List.mem_of_mem_head? hhead)⟩
    exact ⟨0, _, rfl, iff_of_true rfl ⟨i, hi⟩, fun _ => ⟨i, hi, rfl⟩⟩

lemma prioritySafe_of_lookup
    (h : ∀ priority, 0 ≤ priority → priority ≤ 10 → PriorityLookup k pid priority) :
    PrioritySafe k pid := by
  have hk : k.locked = false := by
    obtain ⟨r, k', hset, -⟩ := h 0 le_rfl (by norm_num)
    by_contra hne
    simp [setpriority, setpriorityFind, acquire, hne] at hset
  refine ⟨hk, fun i hhead => ?_⟩
  -- a priority that slot `i` does not have yet
  obtain ⟨x, h₀, h₁, hx⟩ : ∃ x : ℤ, 0 ≤ x ∧ x ≤ 10 ∧ x ≠ (k.proc i).priority := by
    by_cases h : (k.proc i).priority = 0
    · exact ⟨1, by norm_num, by norm_num, by rw [h]; norm_num⟩
    · exact ⟨0, le_rfl, by norm_num, Ne.symm h⟩
  obtain ⟨r, k', hset, -, hone⟩ := h x h₀ h₁
  rw [setpriority_eq hk h₀ h₁, hhead] at hset
  obtain ⟨rfl, rfl⟩ := Prod.mk.inj (Option.some.inj hset)
  obtain ⟨j, hj, heq⟩ := hone rfl
  have hij : i = j := by
    by_contra hne
    have hp := congrArg (fun k : Kernel => (k.proc i).priority) heq
    simp only [setProc_proc, Function.update_self, Function.update_of_ne hne] at hp
    exact hx hp
  rw [hij]
  exact hj.1

/-! ### `setmonopoly` -/

lemma eq_singleton_of_nodup {l : List Slot} (hl : l.Nodup) (hi : i ∈ l) (h : ∀ j ∈ l, j = i) :
    l = [i] := by
  cases l with
  | nil => exact absurd hi List.not_mem_nil
  | cons a l =>
    obtain rfl : a = i := h a List.mem_cons_self
    cases l with
    | nil => rfl
    | cons b l =>
      have hb : b = a := h b (List.mem_cons_of_mem a List.mem_cons_self)
      exact absurd List.mem_cons_self (hb ▸ (List.nodup_cons.mp hl).1)

/-- The caller is another process, and no process with the pid is in the MoQ: the call returns
early only at a free slot. -/
lemma Refuses.free (hself : pid ≠ (k.proc c).pid)
    (hmoq : ∀ i, InUse k pid i → (k.proc i).qlev ≠ MoQ) (h : Refuses k c pid i) :
    (k.proc i).qlev = MoQ ∧ (k.proc i).state = .unused := by
  have hq : (k.proc i).qlev = MoQ := h.2.resolve_right fun hc => hself hc.symm
  refine ⟨hq, ?_⟩
  by_contra hne
  exact hmoq i ⟨hne, h.1⟩ hq

lemma monopolySlot_eq (hk : k.locked = false) (hsz : int32 (k.moqSz + 1) = k.moqSz + 1)
    (hcnt : int32 (k.moqCnt + 1) = k.moqCnt + 1) :
    (monopolySlot (k.setLocked true) i).setLocked false =
      { k.setProc i { k.proc i with qlev := MoQ, seq := k.moqCnt } with
        moqCnt := k.moqCnt + 1
        moqSz := k.moqSz + 1 } := by
  cases k
  simp only at hk hsz hcnt
  subst hk
  simp [monopolySlot, setLocked, setProc, hsz, hcnt]

lemma MonopolySafe.lookup (hself : pid ≠ (k.proc c).pid)
    (hmoq : ∀ i, InUse k pid i → (k.proc i).qlev ≠ MoQ) (h : MonopolySafe k pid) :
    MonopolyLookup k c pid := by
  obtain ⟨hk, hcases⟩ := h
  rcases hcases with hnil | ⟨i, hone, huse, hpos, hsz, hcnt⟩ | ⟨hnone, hcall⟩
  · have hall := hits_eq_nil.mp hnil
    have hdone := setmonopoly_done (c := c) hk fun i (hi : Refuses k c pid i) => hall i hi.1
    rw [if_pos hnil] at hdone
    refine ⟨_, _, hdone, iff_of_false (by norm_num) ?_, fun h => absurd h (by norm_num)⟩
    rintro ⟨i, hi⟩
    exact hall i hi.2
  · have hi : InUse k pid i := ⟨huse, mem_hits.mp (by rw [hone]; exact List.mem_cons_self)⟩
    have hdone := setmonopoly_done (c := c) hk fun j (hj : Refuses k c pid j) => by
      have hji : j = i := by simpa [hone] using mem_hits.mpr hj.1
      exact huse (hji ▸ (hj.free hself hmoq).2)
    rw [hone, if_neg (List.cons_ne_nil i []), List.length_singleton, Nat.cast_one, hsz,
      List.foldl_cons, List.foldl_nil, monopolySlot_eq hk hsz hcnt] at hdone
    exact ⟨_, _, hdone, iff_of_true hpos ⟨i, hi⟩, fun _ => ⟨i, hi, rfl⟩⟩
  · -- no process has the pid, and the call does not succeed
    obtain ⟨r, k', hset, hr⟩ : ∃ r k', setmonopoly k c pid password = some (r, k') ∧ r < 0 := by
      by_cases href : ∃ i, Refuses k c pid i
      · obtain ⟨i, hi⟩ := href
        obtain ⟨r, k', hset, hr, -⟩ := setmonopoly_refused hk hi
        exact ⟨r, k', hset, hr⟩
      · have hdone := setmonopoly_done hk (not_exists.mp href)
        refine ⟨_, _, hdone, ?_⟩
        have hneg : int32 (k.moqSz + (hits k pid).length) < 0 :=
          hcall.resolve_left fun ⟨i, hi, hq⟩ => href ⟨i, hi, .inl hq⟩
        split_ifs
        · norm_num
        · exact hneg
    exact ⟨r, k', hset, iff_of_false (not_le.mpr hr) (not_exists.mpr hnone),
      fun h => absurd h (not_le.mpr hr)⟩

lemma MonopolyLookup.safe (h : MonopolyLookup k c pid) (hself : pid ≠ (k.proc c).pid) :
    MonopolySafe k pid := by
  obtain ⟨r, k', hset, hiff, heff⟩ := h
  have hk : k.locked = false := by
    by_contra hne
    rw [setmonopoly_locked (by simpa using hne)] at hset
    exact absurd hset (by simp)
  refine ⟨hk, ?_⟩
  by_cases href : ∃ i, Refuses k c pid i
  · obtain ⟨i, hi⟩ := href
    obtain ⟨r', k'', hset', hr, -⟩ := setmonopoly_refused hk hi
    obtain ⟨rfl, -⟩ := Prod.mk.inj (Option.some.inj (hset.symm.trans hset'))
    have hnone : ∀ i, ¬InUse k pid i := fun i hi => not_le.mpr hr (hiff.mpr ⟨i, hi⟩)
    have hq : (k.proc i).qlev = MoQ := hi.2.resolve_right fun hc => hself hc.symm
    exact .inr (.inr ⟨hnone, .inl ⟨i, hi.1, hq⟩⟩)
  · have hfree : ∀ i, ¬Refuses k c pid i := not_exists.mp href
    rw [setmonopoly_done hk hfree] at hset
    obtain ⟨rfl, rfl⟩ := Prod.mk.inj (Option.some.inj hset)
    by_cases hnil : hits k pid = []
    · exact .inl hnil
    · rw [if_neg hnil] at hiff heff
      by_cases hr : 0 ≤ int32 (k.moqSz + (hits k pid).length)
      · obtain ⟨i, hi, heq⟩ := heff hr
        -- every slot with the pid has moved, and only slot `i` has changed
        have hone : hits k pid = [i] := by
          refine eq_singleton_of_nodup (nodup_hits k pid) (mem_hits.mpr hi.2) fun j hj => ?_
          by_contra hne
          have hq := foldl_monopolySlot_qlev (hits k pid) (k.setLocked true) j
          rw [if_pos hj, ← setLocked_proc _ false, heq] at hq
          simp only [setProc_proc, Function.update_of_ne hne] at hq
          exact hfree j ⟨mem_hits.mp hj, .inl hq⟩
        rw [hone] at heq hr
        have hsz : int32 (k.moqSz + 1) = k.moqSz + 1 := congrArg Kernel.moqSz heq
        have hcnt : int32 (k.moqCnt + 1) = k.moqCnt + 1 := congrArg Kernel.moqCnt heq
        rw [List.length_singleton, Nat.cast_one, hsz] at hr
        exact .inr (.inl ⟨i, hone, hi.1, hr, hsz, hcnt⟩)
      · exact .inr (.inr ⟨not_exists.mp fun h => hr (hiff.mpr h), .inr (not_le.mp hr)⟩)

/-- **When a look-up by pid finds the process.**  `setpriority` needs the first slot with the pid
to be in use, and `setmonopoly` needs the only one to be. -/
theorem lookup_iff (k : Kernel) (c : Slot) (pid : ℤ) :
    ((∀ priority, 0 ≤ priority → priority ≤ 10 → PriorityLookup k pid priority) ↔
      PrioritySafe k pid) ∧
    (pid ≠ (k.proc c).pid → (∀ i, InUse k pid i → (k.proc i).qlev ≠ MoQ) →
      (MonopolyLookup k c pid ↔ MonopolySafe k pid)) :=
  ⟨⟨prioritySafe_of_lookup, fun h _ h₀ h₁ => h.lookup h₀ h₁⟩,
    fun hself hmoq => ⟨fun h => h.safe hself, fun h => h.lookup hself hmoq⟩⟩

/-- The first process looks its child up. -/
theorem lookup_iff_child : ∃ k, Reach k ∧ Ready k 0 ∧ (k.proc 1).pid = 2 ∧
    PriorityLookup k 2 7 ∧ MonopolyLookup k 0 2 := by
  have hrun : ((run step pinit [.userinit, .scheduler, .forkAlloc 0, .forkDone 0]).any fun k =>
      decide (Ready k 0 ∧ (k.proc 0).pid = 1 ∧ (k.proc 1).pid = 2 ∧ k.locked = false ∧
        hits k 2 = [1] ∧ (k.proc 1).state ≠ .unused ∧ k.moqSz = 0 ∧ k.moqCnt = 0 ∧
        ∀ i, (k.proc i).qlev ≠ MoQ)) = true := by
    decide +kernel
  obtain ⟨k, hk, hall⟩ := (Option.any_eq_true _ _).mp hrun
  obtain ⟨hready, hpid, hchild, hfree, hone, huse, hsz, hcnt, hmoq⟩ := of_decide_eq_true hall
  obtain ⟨hprio, hmono⟩ := lookup_iff k 0 2
  refine ⟨k, Reachable.run (fun _ _ _ h => h) (.start rfl) hk, hready, hchild,
    hprio.mpr ⟨hfree, fun i hi => ?_⟩ 7 (by norm_num) (by norm_num),
    (hmono (by rw [hpid]; norm_num) fun i _ => hmoq i).mpr ⟨hfree, .inr (.inl ⟨1, hone, huse, ?_⟩)⟩⟩
  · rw [hone] at hi
    obtain rfl := Option.some.inj hi
    exact huse
  · rw [hsz, hcnt]
    decide

/-- Pid `0` is found in a free slot. -/
theorem not_lookup : ∃ k, Reach k ∧ Ready k 0 ∧ ¬PriorityLookup k 0 5 ∧ ¬MonopolyLookup k 0 0 := by
  have hrun : ((run step pinit [.userinit, .scheduler]).any fun k =>
      decide (Ready k 0 ∧ (k.proc 0).pid = 1 ∧ k.locked = false ∧ (hits k 0).head? = some 1 ∧
        (hits k 0).length = 63 ∧ k.moqSz = 0 ∧ (∀ i, ¬InUse k 0 i) ∧
        ∀ i, (k.proc i).qlev ≠ MoQ)) = true := by
    decide +kernel
  obtain ⟨k, hk, hall⟩ := (Option.any_eq_true _ _).mp hrun
  obtain ⟨hready, hpid, hfree, hhead, hlen, hsz, hnone, hmoq⟩ := of_decide_eq_true hall
  refine ⟨k, Reachable.run (fun _ _ _ h => h) (.start rfl) hk, hready, ?_, fun h => ?_⟩
  · rintro ⟨r, k', hset, hiff, -⟩
    rw [setpriority_eq hfree (by norm_num) (by norm_num), hhead] at hset
    obtain ⟨rfl, -⟩ := Prod.mk.inj (Option.some.inj hset)
    obtain ⟨i, hi⟩ := hiff.mp rfl
    exact hnone i hi
  · have hsafe := h.safe (by rw [hpid]; norm_num)
    rcases hsafe.2 with hnil | ⟨i, hone, -⟩ | ⟨-, ⟨i, -, hq⟩ | hneg⟩
    · rw [hnil] at hlen
      exact absurd hlen (by norm_num)
    · rw [hone] at hlen
      exact absurd hlen (by norm_num)
    · exact hmoq i hq
    · rw [hlen, hsz] at hneg
      exact absurd hneg (by decide)

end Xv6Projects.Mlfq
