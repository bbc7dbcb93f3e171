import Xv6Projects.Threads.Joins
import Xv6Projects.Threads.Zombies

/-!
# Threads that sleep in a join

`thread_join` sleeps until a thread with the id it was given exits, and `thread_exit` wakes it
up; `exit`, `exec` and a failed `fork` end threads without waking anybody up.  When a round of
`thread_join` never meets an unused slot, or an id that is gone, and no thread that is waited for
ends in one of these ways, every thread that sleeps in a join waits for a thread that is there.
-/

namespace Xv6Projects.Threads

open Library Kernel

/-! ### The property -/

/-- The thread is asleep inside `thread_join` of id `n`. -/
def Pthread.Joining (t : Pthread) (n : ℤ) : Prop :=
  t.state = .sleeping ∧ ∃ havepth, t.cont = .join n havepth

/-- The slot holds id `n`, of a thread that has not ended. -/
def Pthread.Holds (t : Pthread) (n : ℤ) : Prop := t.tid = n ∧ (t.state = .embryo ∨ t.state.Live)

/-- A thread asleep in `thread_join` waits for a thread that has not ended. -/
def JoinersWait (k : Kernel) : Prop :=
  ∀ p i n, ((k.proc p).pth i).Joining n → ∃ q j, ((k.proc q).pth j).Holds n

/-- The operation ends thread `j` of `q` without waking up the threads that wait for it. -/
def Op.Ends (k : Kernel) (q : Slot) (j : Tidx) : Op → Prop
  | .exit => k.cpu = .run q
  | .exec _ => k.cpu = .run q ∧ j ≠ (k.proc q).onTidx
  | .forkStack none => j = 0 ∧ ∃ p, k.cpu = .run p ∧ (k.proc p).mypth.cont = .forkStack q
  | .forkCopy false => j = 0 ∧ ∃ p, k.cpu = .run p ∧ (k.proc p).mypth.cont = .forkCopy q
  | _ => False

/-- The first slot that a round of `thread_join` finds is not unused, and only the first round
finds no slot. -/
def RoundSafe (k : Kernel) (op : Op) : Prop :=
  ∀ p t havepth, k.joinRound op = some (p, t, havepth) →
    (∀ q i, k.joinScan t = some (q, i) → ((k.proc q).pth i).state ≠ .unused) ∧
      (k.joinScan t = none → havepth = false)

/-- A thread that the operation ends is not waited for, unless by a thread that it ends too, or
another slot holds its id. -/
def EndSafe (k : Kernel) (op : Op) : Prop :=
  ∀ q j, op.Ends k q j → ∀ p i n, ((k.proc q).pth j).Holds n → ((k.proc p).pth i).Joining n →
    op.Ends k p i ∨ ∃ r l, ((k.proc r).pth l).Holds n ∧ ¬op.Ends k r l

/-- The states of the runs that meet the conditions. -/
def JoinerReach : Kernel → Prop :=
  Reachable (· = Kernel.pinit) (Guarded Step fun k op => RoundSafe k op ∧ EndSafe k op)

/-! ### The threads that are waited for -/

section
variable {k k' : Kernel} {q : Slot} {op : Op}

/-- The thread has not ended and keeps its id, if so before. -/
def HoldsKept (t u : Pthread) : Prop := ∀ n, t.Holds n → u.Holds n

lemma holdsKept_of_not {t u : Pthread} (h : ¬(t.state = .embryo ∨ t.state.Live)) :
    HoldsKept t u := fun _ ht => absurd ht.2 h

lemma holdsKept_of_eq {t u : Pthread} (hs : u.state = t.state) (ht : u.tid = t.tid) :
    HoldsKept t u := fun n h => by
  rw [Pthread.Holds, hs, ht]
  exact h

lemma StillPth.holdsKept {t u : Pthread} (h : StillPth t u) : HoldsKept t u := by
  rintro n ⟨ht, hs⟩
  refine ⟨h.tid.trans ht, ?_⟩
  rwa [h.state.eq_iff State.not_live_embryo, h.state.live_iff]

lemma holdsKept_first {x y : Proc} (h : ∀ i, i ≠ 0 → y.pth i = x.pth i)
    (h0 : HoldsKept (x.pth 0) (y.pth 0)) (i : Tidx) : HoldsKept (x.pth i) (y.pth i) := by
  by_cases hi : i = 0
  · rw [hi]
    exact h0
  · rw [h i hi]
    exact holdsKept_of_eq rfl rfl

/-- The operation ends the thread, with or without waking up the others. -/
def Op.Stops (k : Kernel) (q : Slot) (j : Tidx) (op : Op) : Prop :=
  op.Ends k q j ∨ (∃ v, op = .threadExit v) ∧ k.cpu = .run q ∧ j = (k.proc q).onTidx

/-- Outside `fork`, an elementary change keeps the threads that it does not stop. -/
lemma Major.holdsKept {x y : Proc} (hs : Shape k) (h : Major k q op x y)
    (hstack : op ≠ .forkStack none) (hcopy : ∀ ok, op ≠ .forkCopy ok) {j : Tidx}
    (hj : ¬op.Stops k q j) : HoldsKept (x.pth j) (y.pth j) := by
  cases h with
  | grow h =>
    obtain ⟨r, -, rfl⟩ := Option.map_eq_some_iff.mp h
    exact holdsKept_of_eq rfl rfl
  | commit | forkImage => exact holdsKept_of_eq rfl rfl
  | initAllpth hp he =>
    have hon : x.onTidx = (k.proc q).onTidx := by
      rw [he]
      rfl
    rw [Proc.initAllpth_pth, if_pos]
    · exact holdsKept_of_eq rfl rfl
    · by_contra hne
      rw [hon] at hne
      exact hj (Or.inl ⟨hp, hne⟩)
  | fsOp | sleeplocks =>
    rw [Proc.updMypth_pth]
    split_ifs with hmine
    · rw [hmine]
      exact holdsKept_of_eq rfl rfl
    · exact holdsKept_of_eq rfl rfl
  | exit hp => exact absurd (Or.inl hp) hj
  | threadExit c hp =>
    rw [Proc.threadExit_pth, if_neg]
    · exact holdsKept_of_eq rfl rfl
    · rw [Proc.wakeup1_onTidx]
      intro hmine
      exact hj (Or.inr ⟨⟨_, rfl⟩, hp, hmine⟩)
  | allocSlot hnp =>
    refine holdsKept_of_not ?_
    rw [(hs.proc q).unused (unusedSlot_state hnp) j]
    rintro (h | h)
    · exact State.noConfusion h
    · exact State.not_live_unused h
  | allocStack _ _ =>
    refine holdsKept_first (fun i => Proc.allocStack_pth) ?_ j
    rw [Proc.allocStack_first]
    exact holdsKept_of_eq rfl rfl
  | userinit _ _ =>
    refine holdsKept_first (fun i => Proc.userinit_pth) ?_ j
    rw [Proc.userinit_first]
    exact fun n h => ⟨h.1, Or.inr (Or.inr (Or.inl rfl))⟩
  -- `allocproc` and `fork` giving up free the thread: the two cases left out by name
  | allocFail => exact absurd rfl hstack
  | forkFail => exact absurd rfl (hcopy _)
  | forkDone he =>
    refine holdsKept_first (fun i => Proc.forkDone_pth) ?_ j
    rw [Proc.forkDone_first]
    exact fun n h => ⟨h.1, Or.inr (Or.inr (Or.inl rfl))⟩
  | reap _ _ _ hz =>
    refine holdsKept_of_not ?_
    rintro (h | h)
    · exact (hs.proc q).notEmbryo (by rw [hz]; exact State.noConfusion) j h
    · exact (hs.proc q).zombie hz j h
  | created hp hy =>
    rw [hy.pth]
    split_ifs with hi
    · refine holdsKept_of_not ?_
      rw [hi, hy.slot]
      rintro (h | h)
      · exact State.noConfusion h
      · exact State.not_live_unused h
    · exact holdsKept_of_eq rfl rfl
  | @joinPth _ i _ hz =>
    by_cases hi : j = i
    · refine holdsKept_of_not ?_
      rw [hi, hz]
      rintro (h | h)
      · exact State.noConfusion h
      · exact State.not_live_zombie h
    · rw [Proc.joinPth, Proc.updPth_of_ne _ _ hi]
      exact holdsKept_of_eq rfl rfl

lemma holdsKept_setCont (k : Kernel) (p : Slot) (c : Cont) (q : Slot) (j : Tidx) :
    HoldsKept ((k.proc q).pth j) (((k.setCont p c).proc q).pth j) := by
  rw [setCont_pth]
  split_ifs with h
  · rw [h.1, h.2]
    exact holdsKept_of_eq rfl rfl
  · exact holdsKept_of_eq rfl rfl

/-- The process under construction is given up, and the current thread goes on. -/
lemma holdsKept_giveUp (k : Kernel) {np : Slot} {g : Proc → Proc}
    (hg : ∀ x i, i ≠ 0 → (g x).pth i = x.pth i) (p : Slot) (c : Cont) {q : Slot} {j : Tidx}
    (h : ¬(q = np ∧ j = 0)) :
    HoldsKept ((k.proc q).pth j) ((((k.updProc np g).setCont p c).proc q).pth j) := by
  have hsame : ((k.updProc np g).proc q).pth j = (k.proc q).pth j := by
    by_cases hq : q = np
    · subst hq
      rw [updProc_self, hg _ j fun hj => h ⟨rfl, hj⟩]
    · rw [updProc_of_ne _ _ hq]
  have hset := holdsKept_setCont (k.updProc np g) p c q j
  rwa [hsame] at hset

/-- A step keeps the threads that it does not stop. -/
lemma Step.holdsKept (hs : Shape k) (h : Step k op k') {j : Tidx} (hj : ¬op.Stops k q j) :
    HoldsKept ((k.proc q).pth j) ((k'.proc q).pth j) := by
  have hother : op ≠ .forkStack none → (∀ ok, op ≠ .forkCopy ok) →
      HoldsKept ((k.proc q).pth j) ((k'.proc q).pth j) := by
    intro hstack hcopy
    refine Changes.lift (R := fun x y => HoldsKept (x.pth j) (y.pth j))
      (fun _ _ hx => hx) (fun _ _ _ h₁ h₂ n hx => h₂ n (h₁ n hx)) (fun x y hxy => ?_)
      (h.changes hs q)
    rcases hxy.still_or hs with h | h
    · exact (h.pth j).holdsKept
    · exact h.holdsKept hs hstack hcopy hj
  cases op with
  | forkStack page =>
    cases page with
    | some n => exact hother (by simp) (by simp)
    | none =>
      obtain ⟨p, hp, h⟩ := onCpu_eq_some.mp h
      rcases forkStep_eq_some h with ⟨np, page, hc, he, h⟩ | ⟨_, _, _, he, _⟩ | ⟨_, _, he, _⟩
      · obtain rfl := Op.forkStack.inj he
        obtain rfl := Option.some.inj h
        refine holdsKept_giveUp k (fun x i hi => Proc.allocFail_pth hi) p .user ?_
        rintro ⟨rfl, rfl⟩
        exact hj (Or.inl ⟨rfl, p, hp, hc⟩)
      · exact absurd he (by simp)
      · exact absurd he (by simp)
  | forkCopy ok =>
    obtain ⟨p, hp, h⟩ := onCpu_eq_some.mp h
    rcases forkStep_eq_some h with ⟨_, _, _, he, _⟩ | ⟨np, ok, hc, he, h⟩ | ⟨_, _, he, _⟩
    · exact absurd he (by simp)
    · obtain rfl := Op.forkCopy.inj he
      unfold Kernel.forkCopy at h
      split_ifs at h with hok
      · obtain rfl := Option.some.inj h
        have hsame : ((k.updProc np (Proc.forkImage p (k.proc p))).proc q).pth j =
            (k.proc q).pth j := by
          rw [updProc_proc]
          split_ifs with hq
          · rw [hq]
            rfl
          · rfl
        have hset := holdsKept_setCont (k.updProc np (Proc.forkImage p (k.proc p))) p
          (.forkDone np) q j
        rwa [hsame] at hset
      · obtain ⟨k₁, h₁, rfl⟩ := Option.map_eq_some_iff.mp h
        obtain ⟨-, rfl⟩ := kfree_eq_some.mp h₁
        obtain rfl : ok = false := by simpa using hok
        refine holdsKept_giveUp _ (fun x i hi => Proc.forkFail_pth hi) p .user ?_
        rintro ⟨rfl, rfl⟩
        exact hj (Or.inl ⟨rfl, p, hp, hc⟩)
    · exact absurd he (by simp)
  | _ => exact hother (by simp) (by simp)

/-! ### The threads that wait -/

lemma not_joining_of_state {t : Pthread} {n : ℤ} (h : t.state ≠ .sleeping) : ¬t.Joining n :=
  fun hj => h hj.1

lemma not_joining_of_cont {t : Pthread} {n : ℤ} (h : ∀ m b, t.cont ≠ .join m b) :
    ¬t.Joining n := by
  rintro ⟨-, b, hb⟩
  exact h n b hb

lemma joining_of_eq {t u : Pthread} {n : ℤ} (hs : u.state = t.state) (hc : u.cont = t.cont)
    (h : u.Joining n) : t.Joining n := by
  rwa [Pthread.Joining, hs, hc] at h

/-- The current thread is changed, and is not asleep in a join afterwards. -/
lemma joining_updMypth {x : Proc} {f : Pthread → Pthread} {n : ℤ} (hf : ¬(f x.mypth).Joining n)
    {i : Tidx} (h : ((x.updMypth f).pth i).Joining n) : (x.pth i).Joining n := by
  rw [Proc.updMypth_pth] at h
  split_ifs at h with hi
  · exact absurd h hf
  · exact h

/-- Only the first thread is changed, and does not sleep. -/
lemma joining_first {x y : Proc} {n : ℤ} (hpth : ∀ i, i ≠ 0 → y.pth i = x.pth i)
    (h0 : (y.pth 0).state ≠ .sleeping) {i : Tidx} (h : (y.pth i).Joining n) :
    (x.pth i).Joining n := by
  by_cases hi : i = 0
  · subst hi
    exact absurd h.1 h0
  · rwa [hpth i hi] at h

lemma Major.joining {x y : Proc} (h : Major k q op x y) (hop : ¬op.Joins) {i : Tidx} {n : ℤ}
    (hy : (y.pth i).Joining n) : (x.pth i).Joining n := by
  cases h with
  | grow h =>
    obtain ⟨r, -, rfl⟩ := Option.map_eq_some_iff.mp h
    exact hy
  | commit | forkImage => exact hy
  | initAllpth =>
    rw [Proc.initAllpth_pth] at hy
    split_ifs at hy
    · exact hy
    · exact absurd hy (not_joining_of_state State.noConfusion)
  | fsOp | sleeplocks =>
    rw [Proc.updMypth_pth] at hy
    split_ifs at hy with hi
    · rw [hi]
      exact joining_of_eq rfl rfl hy
    · exact hy
  | exit => exact absurd (Or.inl hy.1) (Proc.exit_not_live _ i)
  | threadExit =>
    rw [Proc.threadExit_pth] at hy
    split_ifs at hy with hi
    · exact absurd hy (not_joining_of_state State.noConfusion)
    · exact hy
  | allocSlot =>
    refine joining_first (fun i => Proc.allocSlot_pth) ?_ hy
    rw [Proc.allocSlot_first]
    exact State.noConfusion
  | allocStack hx he =>
    refine joining_first (fun i => Proc.allocStack_pth) ?_ hy
    rw [Proc.allocStack_first]
    exact fun hsleep => State.noConfusion ((hx.embryo he).1.1.symm.trans hsleep)
  | userinit =>
    refine joining_first (fun i => Proc.userinit_pth) ?_ hy
    rw [Proc.userinit_first]
    exact State.noConfusion
  | allocFail =>
    refine joining_first (fun i => Proc.allocFail_pth) ?_ hy
    rw [Proc.allocFail_first]
    exact State.noConfusion
  | forkFail =>
    refine joining_first (fun i => Proc.forkFail_pth) ?_ hy
    rw [Proc.forkFail_first]
    exact State.noConfusion
  | forkDone =>
    refine joining_first (fun i => Proc.forkDone_pth) ?_ hy
    rw [Proc.forkDone_first]
    exact State.noConfusion
  | reap => exact absurd hy (not_joining_of_state State.noConfusion)
  | @created j _ _ ok _ _ _ hc =>
    rw [hc.pth] at hy
    split_ifs at hy
    · refine absurd hy (not_joining_of_state ?_)
      rw [Pthread.created_state]
      cases ok <;> exact State.noConfusion
    · exact hy
  | joinPth hj => exact absurd hj hop

/-- A thread that is asleep in a join after an elementary change was asleep in it before. -/
lemma Change.joining {x y : Proc} (hs : Shape k) (h : Change k q op x y) (hop : ¬op.Joins)
    {i : Tidx} {n : ℤ} (hy : (y.pth i).Joining n) : (x.pth i).Joining n := by
  cases h with
  | major h => exact h.joining hop hy
  | wakeup1 c =>
    rcases x.wakeup1_pth c i with h | ⟨-, h⟩
    · rwa [h] at hy
    · rw [h] at hy
      exact absurd hy (not_joining_of_state State.noConfusion)
  | kill =>
    dsimp only [Proc.kill] at hy
    split_ifs at hy
    · exact absurd hy (not_joining_of_state State.noConfusion)
    · exact hy
  | adopt | openFd | closeFd | chdir | dispatch => exact hy
  | @exitFile fd =>
    exact joining_updMypth (x := k.proc q) (f := fun t => { t with cont := .exitFile (fd + 1) })
      (not_joining_of_cont fun m b => Cont.noConfusion) hy
  | exitDir =>
    exact joining_updMypth (x := k.proc q) (f := fun t => { t with cont := .exitLock })
      (not_joining_of_cont fun m b => Cont.noConfusion) hy
  | exitBegin =>
    exact joining_updMypth (f := fun t => { t with cont := .exitFile 0 })
      (not_joining_of_cont fun m b => Cont.noConfusion) hy
  | goOn hc =>
    refine joining_updMypth (not_joining_of_cont fun m b => ?_) hy
    rcases hc with rfl | ⟨np, rfl, -⟩ | ⟨np, rfl⟩ | ⟨np, rfl, -⟩ <;> exact Cont.noConfusion
  | sleep hp =>
    rw [Proc.sleep_pth] at hy
    split_ifs at hy
    · refine absurd hy (not_joining_of_cont fun m b hc => ?_)
      have hat := (hs.place q (Or.inl hp)).2
      dsimp only at hc
      rw [hp, hc] at hat
      exact Cpu.noConfusion hat
    · exact hy
  | sleepWait =>
    rw [Proc.sleep_pth] at hy
    split_ifs at hy
    · exact absurd hy (not_joining_of_cont fun m b => Cont.noConfusion)
    · exact hy
  | sleepJoin hj => exact absurd hj hop
  | yield =>
    rw [Proc.yield_pth] at hy
    split_ifs at hy
    · exact absurd hy (not_joining_of_state State.noConfusion)
    · exact hy
  | @switchTo _ _ j =>
    dsimp only at hy
    rw [Proc.updPth_pth] at hy
    split_ifs at hy
    · exact absurd hy (not_joining_of_state State.noConfusion)
    · exact hy

lemma Changes.joining {x y : Proc} (hs : Shape k) (h : Changes k q op x y) (hop : ¬op.Joins)
    {i : Tidx} {n : ℤ} (hy : (y.pth i).Joining n) : (x.pth i).Joining n :=
  Changes.lift (R := fun x y => (y.pth i).Joining n → (x.pth i).Joining n) (fun _ h => h)
    (fun _ _ _ h h' hz => h (h' hz)) (fun _ _ h => h.joining hs hop) h hy

lemma joining_setCont_user {k : Kernel} {p q : Slot} {i : Tidx} {n : ℤ}
    (h : (((k.setCont p .user).proc q).pth i).Joining n) : ((k.proc q).pth i).Joining n := by
  rw [setCont_pth] at h
  split_ifs at h
  · exact absurd h (not_joining_of_cont fun m b => Cont.noConfusion)
  · exact h

/-- After a round of `thread_join`, a thread that sleeps in a join did so before, or it is the
caller, which has found a slot or is not in its first round. -/
lemma threadJoin_joining {p : Slot} {t : ℤ} {havepth : Bool} {i : Tidx} {n : ℤ}
    (h : (((k.threadJoin p t havepth).2.proc q).pth i).Joining n) :
    ((k.proc q).pth i).Joining n ∨ n = t ∧
      ((∃ r j, k.joinScan t = some (r, j) ∧ ((k.proc r).pth j).state ≠ .zombie) ∨
        k.joinScan t = none ∧ havepth = true) := by
  have hsleep : (((k.sleep p (.word t) (.join t true)).proc q).pth i).Joining n →
      ((k.proc q).pth i).Joining n ∨ n = t := by
    intro h
    rw [Kernel.sleep, setCpu_proc, updProc_proc] at h
    split_ifs at h with hq
    · rw [Proc.sleep_pth] at h
      split_ifs at h
      · obtain ⟨-, b, hb⟩ := h
        exact Or.inr (Cont.join.inj hb).1.symm
      · rw [hq]
        exact Or.inl h
    · exact Or.inl h
  unfold Kernel.threadJoin at h
  split at h
  · rename_i r j hscan
    split_ifs at h with hz
    · refine Or.inl ?_
      have h := joining_setCont_user h
      rw [updProc_proc] at h
      split_ifs at h with hq
      · rw [Proc.joinPth, Proc.updPth_pth] at h
        split_ifs at h
        · exact absurd h (not_joining_of_state State.noConfusion)
        · rwa [hq]
      · exact h
    · exact (hsleep h).imp_right fun he => ⟨he, Or.inl ⟨r, j, hscan, hz⟩⟩
  · rename_i hscan
    split_ifs at h with hb
    · exact (hsleep h).imp_right fun he => ⟨he, Or.inr ⟨hscan, hb⟩⟩
    · exact Or.inl (joining_setCont_user h)

/-- The thread that exits wakes up all that wait for it. -/
lemma not_joining_threadExit (hs : Shape k) {p : Slot} {v : UInt32} {i : Tidx} :
    ¬(((k.threadExit p v).proc q).pth i).Joining (k.proc p).mypth.tid := by
  intro h
  set t := (k.proc p).mypth.tid with ht
  have hwoken : (((k.wakeup1 (.word t)).proc q).pth i).Joining t := by
    rw [Kernel.threadExit, setCpu_proc, updProc_proc] at h
    split_ifs at h with hq
    · rw [Proc.threadExit_pth] at h
      split_ifs at h
      · exact absurd h (not_joining_of_state State.noConfusion)
      · rw [hq]
        exact h
    · exact h
  obtain ⟨hsleep', b, hcont'⟩ := hwoken
  have hcalm := calm_wakeup1 k (.word t)
  have hsleep := (hcalm.pth q i).sleeping hsleep'
  have hcont := (hcalm.cont q i).symm.trans hcont'
  have hchan := (hs.chan q i hsleep).2 t b hcont
  have hwake := Proc.wakeup1_wakes ((hs.proc q).alive (Or.inl hsleep)) ⟨hsleep, hchan⟩
  exact State.noConfusion (hsleep'.symm.trans hwake)

/-! ### The runs -/

/-- A thread that an operation ends does not sleep in a join afterwards. -/
lemma Op.Ends.not_joining (hs : Shape k) (h : Step k op k') {p : Slot} {i : Tidx} {n : ℤ}
    (hend : op.Ends k p i) (hold : ((k.proc p).pth i).Joining n) :
    ¬((k'.proc p).pth i).Joining n := by
  have hembryo : ∀ r c, k.cpu = .run r → (k.proc r).mypth.cont = c → c.target = some p →
      i ≠ 0 := by
    rintro r c hr hc ht rfl
    rw [← hc] at ht
    have hem := hs.target r _ p (hs.live_current (Or.inl hr)) ht
    exact State.noConfusion (((hs.proc p).embryo hem).1.1.symm.trans hold.1)
  cases op with
  | exit =>
    obtain ⟨r, hr, h⟩ := onCpu_eq_some.mp h
    obtain rfl : r = p := Cpu.run.inj (hr.symm.trans hend)
    rcases exitStep_eq_some (Option.ite_none_right_eq_some.mp h).2 with ⟨_, _, he, _⟩ | ⟨-, -, rfl⟩
    · exact absurd he (by simp)
    · refine fun hj => Proc.exit_not_live
        (((k.wakeup1 (parentChan (k.proc r).parent)).reparent r).proc r) i (Or.inl ?_)
      have hsleep := hj.1
      rwa [Kernel.exit, setCpu_proc, updProc_self] at hsleep
  | exec sz =>
    obtain ⟨r, hr, -, h⟩ := syscall_eq_some.mp h
    obtain rfl : r = p := Cpu.run.inj (hr.symm.trans hend.1)
    obtain ⟨k₁, h₁, rfl⟩ := Option.map_eq_some_iff.mp (Option.ite_none_right_eq_some.mp h).2
    obtain ⟨m, b, rfl⟩ := kfreeAll_eq h₁
    have hon : ((k.proc r).commit sz).onTidx = (k.proc r).onTidx := rfl
    refine not_joining_of_state ?_
    rw [updProc_self]
    dsimp only
    rw [updProc_self, Proc.initAllpth_pth, hon, if_neg hend.2]
    exact State.noConfusion
  | forkStack page =>
    cases page with
    | some n => exact hend.elim
    | none =>
      obtain ⟨h0, r, hr, hc⟩ := hend
      exact absurd h0 (hembryo r _ hr hc rfl)
  | forkCopy ok =>
    cases ok with
    | true => exact hend.elim
    | false =>
      obtain ⟨h0, r, hr, hc⟩ := hend
      exact absurd h0 (hembryo r _ hr hc rfl)
  | _ => exact hend.elim

/-- A step that meets the conditions leaves nobody waiting for a thread that is gone. -/
lemma JoinersWait.step (hk : JoinersWait k) (hs : Shape k) (h : Step k op k')
    (hround : RoundSafe k op) (hends : EndSafe k op) : JoinersWait k' := by
  intro p i n hjoin
  -- a thread that was waited for is there, or another one with its id
  have hkept : ((k.proc p).pth i).Joining n → ∃ q j, ((k'.proc q).pth j).Holds n := by
    intro hold
    obtain ⟨q, j, hq⟩ := hk p i n hold
    by_cases hstop : op.Stops k q j
    · rcases hstop with hend | ⟨⟨v, rfl⟩, hp, rfl⟩
      · rcases hends q j hend p i n hq hold with hmine | ⟨r, l, hr, hno⟩
        · exact absurd hjoin (hmine.not_joining hs h hold)
        · refine ⟨r, l, h.holdsKept hs ?_ n hr⟩
          rintro (hr | ⟨⟨v, rfl⟩, -⟩)
          · exact hno hr
          · exact hend
      · obtain ⟨r, hr, -, h⟩ := syscall_eq_some.mp h
        obtain rfl := Option.some.inj h
        obtain rfl : r = q := Cpu.run.inj (hr.symm.trans hp)
        rw [← hq.1] at hjoin
        exact absurd hjoin (not_joining_threadExit hs)
    · exact ⟨q, j, h.holdsKept hs hstop n hq⟩
  cases hj : k.joinRound op with
  | some a =>
    obtain ⟨p', t, havepth⟩ := a
    obtain ⟨hp', rfl⟩ := h.joinRound hj
    obtain ⟨hslot, hfirst⟩ := hround p' t havepth hj
    rcases threadJoin_joining hjoin with hold | ⟨rfl, ⟨r, l, hscan, hz⟩ | ⟨hscan, hb⟩⟩
    · exact hkept hold
    · -- the caller has found a thread that has not ended
      refine ⟨r, l, h.holdsKept hs ?_ n ⟨joinScan_tid hscan, ?_⟩⟩
      · have hop : op.Joins := by
          cases op <;> trivial
        rintro (hend | ⟨⟨v, rfl⟩, -⟩)
        · cases op <;> first | exact hend | exact hop
        · exact hop
      · cases hst : ((k.proc r).pth l).state with
        | unused => exact absurd hst (hslot r l hscan)
        | embryo => exact Or.inl rfl
        | sleeping => exact Or.inr (Or.inl rfl)
        | runnable => exact Or.inr (Or.inr (Or.inl rfl))
        | running => exact Or.inr (Or.inr (Or.inr rfl))
        | zombie => exact absurd hst hz
    · rw [hfirst hscan] at hb
      exact absurd hb Bool.false_ne_true
  | none =>
    refine hkept ?_
    by_cases hop : op.Joins
    · cases op with
      | threadJoin t =>
        obtain ⟨r, hr, -, -⟩ := syscall_eq_some.mp h
        exact absurd hj (by simp [Kernel.joinRound, hr])
      | resume =>
        obtain ⟨r, hr, h⟩ := onResume_eq_some.mp h
        rcases resumeStep_eq_some h with ⟨-, h⟩ | ⟨t, havepth, hc, -⟩
        · have hwait : Op.Waits .wait := trivial
          exact (changes_wait hs hwait (Or.inr hr) h p).joining hs (fun h => h) hjoin
        · exact absurd hj (by simp [Kernel.joinRound, hr, hc])
      | _ => exact hop.elim
    · exact (h.changes hs p).joining hs hop hjoin

end

lemma JoinerReach.inv {k : Kernel} (h : JoinerReach k) : Shape k ∧ JoinersWait k := by
  refine Reachable.invariant (I := fun k => Shape k ∧ JoinersWait k) ?_ ?_ h
  · rintro _ rfl
    exact ⟨shape_pinit, fun _ _ _ hj => absurd hj (not_joining_of_state State.noConfusion)⟩
  · rintro k op k' ⟨hs, hk⟩ ⟨hstep, hround, hends⟩
    exact ⟨hs.step hstep, hk.step hs hstep hround hends⟩

/-! ### The result -/

end Xv6Projects.Threads
