import Mathlib.Algebra.BigOperators.Ring.Finset
import Mathlib.Data.Fintype.Prod
import Xv6Projects.Library.Count
import Xv6Projects.Threads.Globals
import Xv6Projects.Threads.Undo

/-!
# The log and the threads that use it

`begin_op` counts a file-system call in, and `end_op` counts it out.  `exit` and `exec` end the
other threads of their process wherever they stand: a thread that is asleep between the two
calls never reaches `end_op`.  When no thread that is ended is in a call on files,
`log.outstanding` is the number of the threads that are inside.
-/

namespace Xv6Projects.Threads

open Finset Library Kernel

/-! ### What is kept -/

/-- A thread that can still be run, now or after the end of its creation. -/
def State.Schedulable (s : State) : Prop := s ≠ .unused ∧ s ≠ .zombie

instance (s : State) : Decidable s.Schedulable := inferInstanceAs (Decidable (_ ∧ _))

/-- No thread is ended while it holds something of the file system, and `log.outstanding` counts
the threads between `begin_op` and `end_op`. -/
structure LogKept (k : Kernel) : Prop where
  held : ∀ p i, ¬((k.proc p).pth i).Outside → ((k.proc p).pth i).state.Schedulable
  outstanding : k.outstanding = ((univ.filter fun s : Slot × Tidx =>
    ((k.proc s.1).pth s.2).state.Schedulable ∧ ((k.proc s.1).pth s.2).fsOp = .inside).card : ℤ)

/-- The other threads of a process that `exit` or `exec` ends are in no call on files. -/
def CallSafe (s : CallState) : CallOp → Prop
  | .op .exit | .op (.exec _) => ∀ p, s.kernel.cpu = .run p →
      ∀ i, i ≠ (s.kernel.proc p).onTidx → s.call p i ≠ .file
  | _ => True

/-- The threads that `exit` and `exec` end hold nothing of the file system. -/
def LogSafe (k : Kernel) : Op → Prop
  | .exit | .exec _ => ∀ p, k.cpu = .run p → ∀ i, i ≠ (k.proc p).onTidx →
      ((k.proc p).pth i).state.Live → ((k.proc p).pth i).Outside
  | _ => True

/-! ### One thread -/

/-- The thread holds something of the file system, and cannot be run. -/
def Pthread.Stranded (t : Pthread) : Prop := ¬t.state.Live ∧ ¬t.Outside

/-- The thread can be run, and is between `begin_op` and `end_op`. -/
def Pthread.Inside (t : Pthread) : Prop := t.state.Live ∧ t.fsOp = .inside

instance (t : Pthread) : Decidable t.Inside := inferInstanceAs (Decidable (_ ∧ _))

/-- Unless the thread was stranded before, it is not stranded, and is inside if it was. -/
def FsKept (t u : Pthread) : Prop := ¬t.Stranded → ¬u.Stranded ∧ (u.Inside ↔ t.Inside)

lemma FsKept.refl (t : Pthread) : FsKept t t := fun h => ⟨h, Iff.rfl⟩

lemma FsKept.trans {t u v : Pthread} (h : FsKept t u) (h' : FsKept u v) : FsKept t v := by
  intro ht
  obtain ⟨hu, hin⟩ := h ht
  obtain ⟨hv, hin'⟩ := h' hu
  exact ⟨hv, hin'.trans hin⟩

lemma Pthread.Outside.not_inside {t : Pthread} (h : t.Outside) : ¬t.Inside := by
  rintro ⟨-, hin⟩
  rw [h.1] at hin
  exact absurd hin (by simp)

/-- The thread can be run as before, and keeps what it holds. -/
lemma fsKept_of_eq {t u : Pthread} (hs : u.state.Live ↔ t.state.Live) (hf : u.fsOp = t.fsOp)
    (hl : u.sleeplocks = t.sleeplocks) : FsKept t u := by
  intro ht
  have hout : u.Outside ↔ t.Outside := by rw [Pthread.Outside, Pthread.Outside, hf, hl]
  constructor
  · rwa [Pthread.Stranded, hs, hout]
  · rw [Pthread.Inside, Pthread.Inside, hs, hf]

/-- The thread is outside, and stays so. -/
lemma fsKept_of_outside {t u : Pthread} (ht : t.state.Live → t.Outside)
    (hu : t.Outside → u.Outside) : FsKept t u := by
  intro hns
  have hout : t.Outside := by
    by_contra h
    exact hns ⟨fun hl => h (ht hl), h⟩
  exact ⟨fun h => h.2 (hu hout), iff_of_false (hu hout).not_inside hout.not_inside⟩

/-- The thread ends or starts. -/
lemma fsKept_of_not_live {t u : Pthread} (ht : ¬t.state.Live) (hu : t.Outside → u.Outside) :
    FsKept t u :=
  fsKept_of_outside (fun h => absurd h ht) hu

lemma StillPth.outside_iff {t u : Pthread} (h : StillPth t u) : u.Outside ↔ t.Outside := by
  rw [Pthread.Outside, Pthread.Outside, h.fsOp, h.sleeplocks]

lemma StillPth.fsKept {t u : Pthread} (h : StillPth t u) : FsKept t u :=
  fsKept_of_eq h.state.live_iff h.fsOp h.sleeplocks

/-- Only the first thread is changed, in a process whose first thread cannot be run. -/
lemma fsKept_first {x y : Proc} (h : ∀ i, i ≠ 0 → y.pth i = x.pth i)
    (h0 : ¬(x.pth 0).state.Live) (hout : (x.pth 0).Outside → (y.pth 0).Outside) (i : Tidx) :
    FsKept (x.pth i) (y.pth i) := by
  by_cases hi : i = 0
  · subst hi
    exact fsKept_of_not_live h0 hout
  · rw [h i hi]
    exact .refl _

/-! ### The steps outside the log -/

section
variable {k k' : Kernel} {op : Op} {q : Slot} {x y : Proc}

/-- The operations that move a thread into the log or out of it. -/
def Op.Enters : Op → Prop
  | .beginOp | .endOp | .commitDone => True
  | _ => False

lemma ProcShape.first_not_live (hx : ProcShape x) (he : x.state = .embryo) :
    ¬(x.pth 0).state.Live := by
  rw [(hx.embryo he).1.1]
  exact State.not_live_embryo

lemma Pthread.created_outside (t : Pthread) (tid : ℤ) (n : ℕ) (ok : Bool) :
    (t.created tid n ok).Outside := by
  cases ok <;> exact ⟨rfl, rfl⟩

lemma Major.fsKept (hk : Shape k) (h : Major k q op x y) (hop : ¬op.Enters) (hsafe : LogSafe k op)
    (i : Tidx) : FsKept (x.pth i) (y.pth i) := by
  cases h with
  | grow h =>
    obtain ⟨r, -, rfl⟩ := Option.map_eq_some_iff.mp h
    exact .refl _
  | commit | forkImage => exact .refl _
  | @initAllpth sz _ hp hx =>
    subst hx
    rw [Proc.initAllpth_pth]
    split_ifs with hi
    · exact .refl _
    · exact fsKept_of_outside (hsafe q hp i hi) (fun h => h)
  | fsOp _ ho =>
    rcases ho with rfl | rfl | rfl <;> exact absurd trivial hop
  | sleeplocks hr =>
    rw [Proc.updMypth_pth]
    split_ifs with hi
    · subst hi
      have hlive : (k.proc q).mypth.state.Live := Or.inr (Or.inr hr.1)
      exact fun _ => ⟨fun h => h.1 hlive, Iff.rfl⟩
    · exact .refl _
  -- `exit` ends all threads, which are outside by the condition
  | exit hp _ hout hcalm hstill =>
    refine fsKept_of_outside (fun hl => ?_) (fun h => ?_)
    · rw [(hstill.pth i).outside_iff]
      by_cases hi : i = (k.proc q).onTidx
      · rw [hi]
        exact hout
      · exact hsafe q hp i hi ((hstill.pth i).state.live_iff.mp hl)
    · dsimp only [Proc.exit]
      split_ifs
      · exact h
      · exact h
  | threadExit c hp hr =>
    have hmine : ((k.proc q).wakeup1 c).mypth.Outside := by
      rw [Proc.mypth, Proc.wakeup1_onTidx, ((still_wakeup1 (k.proc q) c).pth _).outside_iff]
      exact hr.2
    rw [Proc.threadExit_pth]
    split_ifs with hi
    · subst hi
      exact fsKept_of_outside (fun _ => hmine) (fun h => h)
    · exact .refl _
  | allocSlot hnp =>
    have hq := unusedSlot_state hnp
    refine fsKept_first (fun i => Proc.allocSlot_pth) ?_ (fun _ => ?_) i
    · exact (hk.proc q).not_live_of_unused hq 0
    · rw [Proc.allocSlot_first]
      exact ⟨rfl, rfl⟩
  | allocStack hx he =>
    refine fsKept_first (fun i => Proc.allocStack_pth) (hx.first_not_live he) (fun h => ?_) i
    rw [Proc.allocStack_first]
    exact h
  | userinit hx he =>
    refine fsKept_first (fun i => Proc.userinit_pth) (hx.first_not_live he) (fun h => ?_) i
    rw [Proc.userinit_first]
    exact h
  | allocFail he =>
    refine fsKept_first (fun i => Proc.allocFail_pth) ((hk.proc q).first_not_live he)
      (fun h => ?_) i
    rw [Proc.allocFail_first]
    exact h
  | forkFail he =>
    refine fsKept_first (fun i => Proc.forkFail_pth) ((hk.proc q).first_not_live he)
      (fun h => ?_) i
    rw [Proc.forkFail_first]
    exact h
  | forkDone he =>
    refine fsKept_first (fun i => Proc.forkDone_pth) ((hk.proc q).first_not_live he)
      (fun h => ?_) i
    rw [Proc.forkDone_first]
    exact h
  | reap _ _ _ hz => exact fsKept_of_not_live ((hk.proc q).zombie hz i) (fun h => h)
  | created hp hy =>
    rw [hy.pth]
    split_ifs with hi
    · subst hi
      refine fsKept_of_not_live ?_ (fun _ => Pthread.created_outside _ _ _ _)
      rw [hy.slot]
      exact State.not_live_unused
    · exact .refl _
  | @joinPth _ j hj hz =>
    by_cases hi : i = j
    · subst hi
      rw [Proc.joinPth, Proc.updPth_self]
      refine fsKept_of_not_live ?_ (fun h => h)
      rw [hz]
      exact State.not_live_zombie
    · rw [Proc.joinPth, Proc.updPth_of_ne _ _ hi]
      exact .refl _

/-- A step outside the log keeps every thread outside or inside. -/
lemma Step.fsKept (hk : Shape k) (h : Step k op k') (hop : ¬op.Enters) (hsafe : LogSafe k op)
    (q : Slot) (i : Tidx) : FsKept ((k.proc q).pth i) ((k'.proc q).pth i) := by
  refine Changes.lift (R := fun x y => FsKept (x.pth i) (y.pth i)) (fun _ => .refl _)
    (fun _ _ _ => FsKept.trans) (fun x y hxy => ?_) (h.changes hk q)
  rcases hxy.still_or hk with hstill | hmajor
  · exact (hstill.pth i).fsKept
  · exact hmajor.fsKept hk hop hsafe i

/-- A step outside the log does not change `log.outstanding`. -/
lemma Step.outstanding (h : Step k op k') (hop : ¬op.Enters) : k'.outstanding = k.outstanding := by
  by_cases hlog : op.Log
  · unfold Step at h
    cases op with
    | logWrite =>
      obtain ⟨p, -, h⟩ := onCpu_eq_some.mp h
      obtain ⟨-, h⟩ := Option.ite_none_right_eq_some.mp h
      obtain ⟨-, h⟩ := Option.ite_none_left_eq_some.mp h
      obtain rfl := Option.some.inj h
      rfl
    | acquiresleep l =>
      obtain ⟨p, -, h⟩ := onCpu_eq_some.mp h
      obtain rfl := Option.some.inj h
      unfold Kernel.acquiresleep
      split_ifs
      · rfl
      · rfl
    | releasesleep l =>
      obtain ⟨p, -, h⟩ := onCpu_eq_some.mp h
      obtain ⟨-, h⟩ := Option.ite_none_right_eq_some.mp h
      obtain rfl := Option.some.inj h
      rfl
    | beginOp | endOp | commitDone => exact absurd trivial hop
    | _ => exact hlog.elim
  · exact (h.sameLog hlog).outstanding

/-! ### The steps of the log -/

/-- The number of threads between `begin_op` and `end_op` that can be run. -/
def Kernel.insiders (k : Kernel) : ℕ :=
  ∑ s : Slot × Tidx, if ((k.proc s.1).pth s.2).Inside then 1 else 0

/-- The invariant: no thread is stranded, and `log.outstanding` counts those inside. -/
structure LogInv (k : Kernel) : Prop where
  stranded : ∀ p i, ¬((k.proc p).pth i).Stranded
  outstanding : k.outstanding = k.insiders

lemma insiders_congr (h : ∀ q i, ((k'.proc q).pth i).Inside ↔ ((k.proc q).pth i).Inside) :
    k'.insiders = k.insiders := by
  rw [Kernel.insiders, Kernel.insiders]
  refine sum_congr rfl fun s _ => ?_
  simp only [h]

/-- Every thread is outside or inside as before. -/
lemma LogInv.congr (hi : LogInv k) (h : ∀ q i, FsKept ((k.proc q).pth i) ((k'.proc q).pth i))
    (hout : k'.outstanding = k.outstanding) : LogInv k' := by
  refine ⟨fun q i => (h q i (hi.stranded q i)).1, ?_⟩
  rw [hout, hi.outstanding, insiders_congr fun q i => (h q i (hi.stranded q i)).2]

/-- The current thread, which runs, moves in the log. -/
lemma LogInv.setFsOp (hk : Shape k) (hi : LogInv k) {p : Slot} (hp : k.cpu = .run p) (o : FsOp)
    {n : ℤ} (hn : n + (if (k.proc p).mypth.fsOp = .inside then 1 else 0) =
      k.outstanding + (if o = .inside then 1 else 0)) :
    LogInv { k.setFsOp p o with outstanding := n } := by
  set i₀ := (k.proc p).onTidx with hi₀
  have hlive : (k.proc p).mypth.state.Live := hk.live_current (Or.inl hp)
  have hmine : ((k.setFsOp p o).proc p).pth i₀ = { (k.proc p).mypth with fsOp := o } := by
    rw [Kernel.setFsOp, updProc_self, Proc.updMypth_pth, if_pos rfl]
  have hother : ∀ s : Slot × Tidx, s ≠ (p, i₀) →
      ((k.setFsOp p o).proc s.1).pth s.2 = (k.proc s.1).pth s.2 := by
    rintro ⟨q, i⟩ hne
    by_cases hq : q = p
    · subst hq
      have hi : i ≠ i₀ := fun h => hne (by rw [h])
      rw [Kernel.setFsOp, updProc_self, Proc.updMypth_pth, if_neg hi]
    · rw [Kernel.setFsOp, updProc_of_ne _ _ hq]
  constructor
  · intro q i
    by_cases hs : (q, i) = (p, i₀)
    · obtain ⟨rfl, rfl⟩ := Prod.mk.inj hs
      intro h
      refine h.1 ?_
      dsimp only
      rw [hmine]
      exact hlive
    · have hpth := hother (q, i) hs
      dsimp only at hpth ⊢
      rw [hpth]
      exact hi.stranded q i
  · have hsum := sum_univ_add_of_eq_off (p, i₀)
      (f := fun s : Slot × Tidx => if (((k.setFsOp p o).proc s.1).pth s.2).Inside then 1 else 0)
      (g := fun s : Slot × Tidx => if ((k.proc s.1).pth s.2).Inside then 1 else 0)
      (fun s hs => by rw [hother s hs])
    have hnew : (((k.setFsOp p o).proc p).pth i₀).Inside ↔ o = .inside := by
      rw [hmine, Pthread.Inside]
      exact and_iff_right hlive
    have hold : ((k.proc p).pth i₀).Inside ↔ (k.proc p).mypth.fsOp = .inside :=
      and_iff_right hlive
    simp only [hnew, hold] at hsum
    have hout := hi.outstanding
    rw [Kernel.insiders] at hout
    show n = ((∑ s : Slot × Tidx, if (((k.setFsOp p o).proc s.1).pth s.2).Inside then 1 else 0 :
      ℕ) : ℤ)
    split_ifs at hsum hn <;> omega

lemma LogInv.wakeup1 (hi : LogInv k) (c : Chan) : LogInv (k.wakeup1 c) :=
  hi.congr (fun q i => ((still_wakeup1 (k.proc q) c).pth i).fsKept) rfl

lemma LogInv.sleepAddr (hk : Shape k) (hi : LogInv k) {p : Slot} (hp : k.cpu = .run p) (a : ℕ) :
    LogInv (k.sleepAddr p a) := by
  refine hi.congr (fun q i => ?_) rfl
  by_cases hq : q = p
  · subst hq
    have hsleep : (k.sleepAddr q a).proc q =
        (k.proc q).sleep (.addr a) (k.proc q).mypth.cont :=
      updProc_self k q fun x => x.sleep (.addr a) (k.proc q).mypth.cont
    rw [hsleep]
    exact ((still_sleep hk (Or.inl hp) _ _).pth i).fsKept
  · have hsame : (k.sleepAddr p a).proc q = k.proc q :=
      updProc_of_ne k (fun x => x.sleep (.addr a) (k.proc p).mypth.cont) hq
    rw [hsame]
    exact .refl _

/-- The invariant is kept by a step that ends no thread inside the file system. -/
lemma LogInv.step (hk : Shape k) (hi : LogInv k) (h : Step k op k') (hsafe : LogSafe k op) :
    LogInv k' := by
  by_cases hop : op.Enters
  · unfold Step at h
    cases op with
    | beginOp =>
      obtain ⟨p, hp, h⟩ := onCpu_eq_some.mp h
      obtain ⟨hout, h⟩ := Option.ite_none_right_eq_some.mp h
      obtain rfl := Option.some.inj h
      unfold Kernel.beginOp
      split_ifs
      · exact hi.sleepAddr hk hp _
      · exact hi.sleepAddr hk hp _
      · exact hi.setFsOp hk hp .inside (by rw [hout, if_neg (by simp), if_pos rfl, add_zero])
    | endOp =>
      obtain ⟨p, hp, h⟩ := onCpu_eq_some.mp h
      obtain ⟨hin, h⟩ := Option.ite_none_right_eq_some.mp h
      obtain ⟨-, h⟩ := Option.ite_none_left_eq_some.mp h
      have hcount : ∀ o : FsOp, o ≠ .inside → LogInv { k.setFsOp p o with
          outstanding := k.outstanding - 1 } := fun o ho =>
        hi.setFsOp hk hp o (by rw [hin, if_pos rfl, if_neg ho]; omega)
      split_ifs at h
      · obtain rfl := Option.some.inj h
        exact (hcount .commit (by simp)).congr (fun _ _ => .refl _) rfl
      · obtain rfl := Option.some.inj h
        exact (hcount .out (by simp)).wakeup1 _
    | commitDone =>
      obtain ⟨p, hp, h⟩ := onCpu_eq_some.mp h
      obtain ⟨hc, h⟩ := Option.ite_none_right_eq_some.mp h
      obtain rfl := Option.some.inj h
      have hout : LogInv { k.setFsOp p .out with outstanding := k.outstanding } :=
        hi.setFsOp hk hp .out (by rw [hc]; rfl)
      have hdone : LogInv { k.setFsOp p .out with committing := false, lhN := 0 } :=
        hout.congr (fun _ _ => .refl _) rfl
      exact hdone.wakeup1 _
    | _ => exact hop.elim
  · exact hi.congr (h.fsKept hk hop hsafe) (h.outstanding hop)

lemma LogInv.logKept (hi : LogInv k) : LogKept k := by
  have hlive : ∀ s : Slot × Tidx, ¬((k.proc s.1).pth s.2).Outside →
      ((k.proc s.1).pth s.2).state.Live := fun s hs => by
    by_contra h
    exact hi.stranded s.1 s.2 ⟨h, hs⟩
  have hinside : ∀ s : Slot × Tidx, ((k.proc s.1).pth s.2).Inside ↔
      ((k.proc s.1).pth s.2).state.Schedulable ∧ ((k.proc s.1).pth s.2).fsOp = .inside := by
    intro s
    constructor
    · rintro ⟨hl, hin⟩
      exact ⟨⟨hl.ne_unused, hl.ne_zombie⟩, hin⟩
    · rintro ⟨-, hin⟩
      refine ⟨hlive s fun h => ?_, hin⟩
      rw [h.1] at hin
      exact absurd hin (by simp)
  constructor
  · intro p i h
    have hl := hlive (p, i) h
    exact ⟨hl.ne_unused, hl.ne_zombie⟩
  · rw [hi.outstanding, Kernel.insiders, card_filter]
    simp only [hinside]

end

lemma logInv_pinit : LogInv Kernel.pinit := by
  constructor
  · intro p i h
    exact h.2 ⟨rfl, rfl⟩
  · rw [Kernel.insiders]
    have hnone : ∀ s : Slot × Tidx, ¬((Kernel.pinit.proc s.1).pth s.2).Inside := by
      rintro s ⟨h, -⟩
      exact State.not_live_unused h
    simp only [hnone, if_false, sum_const_zero]
    rfl

/-! ### The calls -/

section
variable {a a' k : Kernel} {op : Op} {q : Slot} {i : Tidx}

/-- A thread that holds nothing of the file system holds nothing after a step, unless it is the
one that performs an operation of the log or of a sleeplock. -/
lemma Step.outside (hk : Shape a) (h : Step a op a')
    (hmine : op.Holds = true → ¬(a.Current q ∧ i = (a.proc q).onTidx))
    (hout : ((a.proc q).pth i).Outside) : ((a'.proc q).pth i).Outside := by
  refine Changes.lift (R := fun x y => (x.pth i).Outside → (y.pth i).Outside) (fun _ h => h)
    (fun _ _ _ h h' hx => h' (h hx)) (fun x y hxy hx => ?_) (h.changes hk q) hout
  have hfirst : ∀ {x y : Proc}, (x.pth i).Outside → (∀ j, j ≠ 0 → y.pth j = x.pth j) →
      ((x.pth 0).Outside → (y.pth 0).Outside) → (y.pth i).Outside := by
    intro x y hx hne h0
    by_cases hi : i = 0
    · subst hi
      exact h0 hx
    · rwa [hne i hi]
  rcases hxy.still_or hk with hstill | hmajor
  · exact (hstill.pth i).outside_iff.mpr hx
  cases hmajor with
  | grow h =>
    obtain ⟨r, -, rfl⟩ := Option.map_eq_some_iff.mp h
    exact hx
  | commit | forkImage => exact hx
  | initAllpth =>
    rw [Proc.initAllpth_pth]
    split_ifs
    · exact hx
    · exact hx
  | fsOp hr ho =>
    rw [Proc.updMypth_pth]
    split_ifs with hi
    · refine absurd ⟨(hk.running q _ hr.1).1, hi⟩ (hmine ?_)
      rcases ho with rfl | rfl | rfl <;> rfl
    · exact hx
  | sleeplocks hr ho =>
    rw [Proc.updMypth_pth]
    split_ifs with hi
    · refine absurd ⟨(hk.running q _ hr.1).1, hi⟩ (hmine ?_)
      obtain ⟨l, rfl | rfl⟩ := ho <;> rfl
    · exact hx
  | exit =>
    dsimp only [Proc.exit]
    split_ifs
    · exact hx
    · exact hx
  | threadExit =>
    rw [Proc.threadExit_pth]
    split_ifs with hi
    · subst hi
      exact hx
    · exact hx
  | allocSlot =>
    refine hfirst hx (fun i => Proc.allocSlot_pth) fun _ => ?_
    rw [Proc.allocSlot_first]
    exact ⟨rfl, rfl⟩
  | allocStack =>
    refine hfirst hx (fun i => Proc.allocStack_pth) fun h => ?_
    rw [Proc.allocStack_first]
    exact h
  | userinit =>
    refine hfirst hx (fun i => Proc.userinit_pth) fun h => ?_
    rw [Proc.userinit_first]
    exact h
  | allocFail =>
    refine hfirst hx (fun i => Proc.allocFail_pth) fun h => ?_
    rw [Proc.allocFail_first]
    exact h
  | forkFail =>
    refine hfirst hx (fun i => Proc.forkFail_pth) fun h => ?_
    rw [Proc.forkFail_first]
    exact h
  | forkDone =>
    refine hfirst hx (fun i => Proc.forkDone_pth) fun h => ?_
    rw [Proc.forkDone_first]
    exact h
  | reap => exact hx
  | created hp hy =>
    rw [hy.pth]
    split_ifs
    · exact Pthread.created_outside _ _ _ _
    · exact hx
  | @joinPth _ j =>
    by_cases hi : i = j
    · subst hi
      rw [Proc.joinPth, Proc.updPth_self]
      exact hx
    · rw [Proc.joinPth, Proc.updPth_of_ne _ _ hi]
      exact hx

/-- `exit` leaves its loop outside the log. -/
lemma Step.exitFile_outside (hk : Shape a) (h : Step a .exitFile a') (hq : a'.cpu = .run q)
    (hi : i = (a'.proc q).onTidx) : ((a'.proc q).pth i).Outside := by
  have hcopy := h
  obtain ⟨p, hp, h⟩ := onCpu_eq_some.mp h
  obtain ⟨hout, h⟩ := Option.ite_none_right_eq_some.mp h
  rcases exitStep_eq_some h with ⟨fd, -, -, rfl⟩ | ⟨_, he, _⟩
  · have hcpu : (a.exitFile p fd).cpu = a.cpu := by
      unfold Kernel.exitFile
      split_ifs <;> rfl
    obtain rfl : p = q := Cpu.run.inj (hp.symm.trans (hcpu.symm.trans hq))
    have hmine : ((a.exitFile p fd).proc p).onTidx = (a.proc p).onTidx := by
      unfold Kernel.exitFile
      split_ifs
      · rw [setCont_onTidx, updProc_self]
      · rw [setCont_onTidx, updProc_self]
    rw [hmine] at hi
    subst hi
    exact hcopy.outside hk (by simp [Op.Holds]) hout
  · exact absurd he (by simp)

/-- A thread in no call on files holds nothing of the file system. -/
def OutsideKept (s : CallState) (a : Kernel) : Prop :=
  ∀ q i, s.call q i ≠ .file → ((a.proc q).pth i).Outside

/-- The siblings that `exit` and `exec` end hold nothing. -/
lemma CallSafe.logSafe {s : CallState} (hset : Settles a s.kernel) (hs : OutsideKept s a)
    (h : CallSafe s (.op op)) : LogSafe a op := by
  have hall : (∀ p, s.kernel.cpu = .run p → ∀ i, i ≠ (s.kernel.proc p).onTidx →
      s.call p i ≠ .file) → ∀ p, a.cpu = .run p → ∀ i, i ≠ (a.proc p).onTidx →
        ((a.proc p).pth i).state.Live → ((a.proc p).pth i).Outside := by
    intro hsafe p hp i hi _
    rw [(hset.proc p).onTidx] at hi
    exact hs p i (hsafe p (hset.cpu ▸ hp) i hi)
  cases op with
  | exit => exact hall h
  | exec sz => exact hall h
  | _ => trivial

/-- Two kernels that differ in a store of a failed `fork` have the same threads inside. -/
lemma Settles.logInv (h : Settles a k) (hi : LogInv a) : LogInv k := by
  constructor
  · intro p i hs
    refine hi.stranded p i ⟨fun hl => hs.1 ?_, fun ho => hs.2 ?_⟩
    · exact ((h.proc p).live_iff i).mp hl
    · exact ((h.proc p).outside_iff i).mp ho
  · rw [← h.log.1, hi.outstanding]
    refine congrArg _ (insiders_congr fun q i => ?_)
    rw [Pthread.Inside, Pthread.Inside, (h.proc q).live_iff, (h.proc q).fsOp]

/-- A thread that cannot run holds nothing. -/
lemma LogInv.outside (hi : LogInv a) (h : Settles a k) (hl : ¬k.Live q i) :
    ((a.proc q).pth i).Outside := by
  by_contra hout
  exact hi.stranded q i ⟨fun h' => hl (((h.proc q).live_iff i).mp h'), hout⟩

/-- A step of the finer system keeps the threads that are in no call on files outside. -/
lemma OutsideKept.step {s s' : CallState} {o : CallOp} (hs : OutsideKept s a)
    (hset : Settles a s.kernel) (ha : Shape a) (hstep : CallStep s o s')
    (hanswer : Answer a a' o) (hset' : Settles a' s'.kernel) (hi' : LogInv a') :
    OutsideKept s' a' := by
  have hdoes := hstep.does
  intro q i hc
  cases o with
  | op op =>
    obtain ⟨hallow, k, hk, rfl⟩ := hdoes
    rw [CallState.after_kernel] at hset'
    have hstep' : Step a op a' := hanswer
    rcases s.after_call op k q i with h | h | ⟨-, hl | ⟨rfl, hq, hi⟩⟩
    · rw [h] at hc
      refine hstep'.outside ha (fun hholds => ?_) (hs q i hc)
      rintro ⟨hcur, rfl⟩
      -- an operation of the log is performed in a call on files
      obtain ⟨p, hp, hfile⟩ :=
        CallState.mycall_run (Call.eq_file hallow (Op.onFiles_of_holds hholds))
          Call.noConfusion
      obtain rfl := Kernel.Current.eq (hset.current.mp hcur) (Or.inl hp)
      rw [(hset.proc q).onTidx] at hc
      exact hc hfile
    · exact absurd h hc
    · exact hi'.outside hset' hl
    · refine hstep'.exitFile_outside ha (hset'.cpu.trans hq) ?_
      rw [(hset'.proc q).onTidx]
      exact hi
  | giveUp =>
    obtain ⟨p, np, k, hp, hnone, -, rfl⟩ := hdoes
    obtain ⟨op, hop, hstep'⟩ := hanswer
    have hholds : op.Holds = false := by
      cases op with
      | forkStack page => rfl
      | forkCopy ok => rfl
      | _ => exact absurd hop (by simp [Op.GivesBack])
    by_cases hl : k.Live q i
    · refine hstep'.outside ha (fun h => absurd (h.symm.trans hholds) (by simp)) (hs q i ?_)
      have hcall : ((s.setCall p (.undo np)).next k).call q i = (s.setCall p (.undo np)).call q i :=
        if_pos hl
      rw [hcall, CallState.setCall_call] at hc
      split_ifs at hc with hmine
      · obtain ⟨rfl, rfl⟩ := hmine
        rw [← CallState.mycall_eq hp, hnone]
        exact Call.noConfusion
      · exact hc
    · exact hi'.outside hset' hl
  | undo =>
    obtain ⟨p, np, hp, hundo, rfl⟩ := hdoes
    obtain rfl : a' = a := hanswer
    by_cases hl : (s.kernel.updProc np Proc.undo).Live q i
    · have hcall : ((s.setCall p .none).next (s.kernel.updProc np Proc.undo)).call q i =
          (s.setCall p .none).call q i := if_pos hl
      refine hs q i ?_
      rw [hcall, CallState.setCall_call] at hc
      split_ifs at hc with hmine
      · obtain ⟨rfl, rfl⟩ := hmine
        rw [← CallState.mycall_eq hp, hundo]
        exact Call.noConfusion
      · exact hc
    · exact hi'.outside hset' hl
  | enter =>
    obtain ⟨p, -, -, -, rfl⟩ := hdoes
    obtain rfl : a' = a := hanswer
    refine hs q i ?_
    rw [CallState.setCall_call] at hc
    split_ifs at hc with hmine
    · exact absurd rfl hc
    · exact hc
  | leave =>
    obtain ⟨p, hp, -, hr, rfl⟩ := hdoes
    obtain rfl : a' = a := hanswer
    rw [CallState.setCall_call] at hc
    split_ifs at hc with hmine
    · obtain ⟨rfl, rfl⟩ := hmine
      rw [hset.sameCurrent ha (Or.inl hp)]
      exact hr.2
    · exact hs q i hc

end

/-! ### The result -/

/-- When every sibling of a thread that performs the locked part of `exit`, or a successful
`exec`, is in no call on files, no thread is ended while it holds something of the file system,
and `log.outstanding` counts the threads that are inside. -/
theorem logKept_of_callSafe {s : CallState} (h : Reachable (· = CallState.pinit)
    (Guarded CallStep fun s o => NoReuse s o ∧ CallSafe s o) s) : LogKept s.kernel := by
  suffices hsim : ∃ a, Reachable (· = Kernel.pinit) (Guarded Step LogSafe) a ∧
      (Settles a s.kernel ∧ UndoKept s) ∧ LogInv a ∧ OutsideKept s a by
    obtain ⟨a, -, ⟨hset, -⟩, hi, -⟩ := hsim
    exact (hset.logInv hi).logKept
  refine h.simulation (R := fun s a => (Settles a s.kernel ∧ UndoKept s) ∧ LogInv a ∧
    OutsideKept s a) ?_ ?_
  · rintro _ rfl
    exact ⟨Kernel.pinit, rfl, ⟨.refl _, undoKept_pinit⟩, logInv_pinit, fun _ _ _ => ⟨rfl, rfl⟩⟩
  · rintro s a o s' hreach ⟨⟨hset, hundo⟩, hi, hs⟩ ⟨hstep, hno, hsafe⟩
    have ha := shape_of_guarded hreach
    obtain ⟨a', hanswer, hset'⟩ := hset.callStep ha hundo hstep
    have hanswers : LogInv a' ∧ (a' = a ∨ ∃ op, Guarded Step LogSafe a op a') := by
      cases o with
      | op op =>
        have hlog := hsafe.logSafe hset hs
        exact ⟨hi.step ha hanswer hlog, Or.inr ⟨op, hanswer, hlog⟩⟩
      | giveUp =>
        obtain ⟨op, hop, hstep'⟩ := hanswer
        have hlog : LogSafe a op := by
          cases op with
          | forkStack page => trivial
          | forkCopy ok => trivial
          | _ => exact absurd hop (by simp [Op.GivesBack])
        exact ⟨hi.step ha hstep' hlog, Or.inr ⟨op, hstep', hlog⟩⟩
      | undo | enter | leave =>
        obtain rfl : a' = a := hanswer
        exact ⟨hi, Or.inl rfl⟩
    exact ⟨a', hanswers.2, ⟨hset', hundo.step hset ha hstep hno⟩, hanswers.1,
      hs.step hset ha hstep hanswer hset' hanswers.1⟩

/-- `CallSafe`, as a test. -/
def callsSafe (s : CallState) (o : CallOp) : Bool :=
  match o, s.kernel.cpu with
  | .op .exit, .run p | .op (.exec _), .run p => tidxs.all fun i =>
      i = (s.kernel.proc p).onTidx ∨ s.call p i ≠ .file
  | _, _ => true

lemma callSafe_of_callsSafe {s : CallState} {o : CallOp} (h : callsSafe s o = true) :
    CallSafe s o := by
  have hall : ∀ p, (tidxs.all fun i => i = (s.kernel.proc p).onTidx ∨ s.call p i ≠ .file) = true →
      ∀ i, i ≠ (s.kernel.proc p).onTidx → s.call p i ≠ .file := by
    intro p h i hi
    exact (of_decide_eq_true (List.all_eq_true.mp h i (List.mem_finRange i))).resolve_left hi
  unfold callsSafe at h
  unfold CallSafe
  split
  · intro p hp
    rw [hp] at h
    exact hall p h
  · intro p hp
    rw [hp] at h
    exact hall p h
  · trivial

/-- The first process forks a child and calls `begin_op`.  The child has two threads; the second
one makes a system call on files and goes to sleep, and the first one calls `exit`. -/
def logOps : List CallOp :=
  callOps [.userinit 1, .pass, .forkAlloc, .forkStack (some 2), .forkCopy true, .forkDone] ++
  [.enter] ++ callOps [.beginOp, .timer, .schedule, .threadCreate (some 3) 1, .timer, .schedule] ++
  [.enter] ++ callOps [.beginOp, .endOp] ++ [.leave] ++
  callOps ([.sleep 5, .schedule, .pass, .timer, .schedule, .exitBegin] ++
    List.replicate (NOFILE + 1) .exitFile)

/-- The second thread of the child can run when `exit` ends it. -/
theorem logKept_of_callSafe_sibling : ∃ s s',
    Reachable (· = CallState.pinit) (Guarded CallStep fun s o => NoReuse s o ∧ CallSafe s o) s ∧
    s.kernel.cpu = .run 1 ∧ s.kernel.Live 1 1 ∧ CallStep s (.op .exit) s' ∧
    s'.kernel.outstanding = 1 ∧ ((s'.kernel.proc 1).pth 1).state = .zombie ∧
    LogKept s'.kernel := by
  have hrun : ((run (guardedNext callStep fun s o => callsSafe s o = true ∧ o ≠ .giveUp)
      CallState.pinit logOps).any fun s => decide (s.kernel.cpu = .run 1 ∧
        ((s.kernel.proc 1).pth 1).state.Live) && callsSafe s (.op .exit) &&
        (callStep s (.op .exit)).any fun s' => decide (s'.kernel.outstanding = 1 ∧
          ((s'.kernel.proc 1).pth 1).state = .zombie)) = true := by
    decide +kernel
  obtain ⟨s, hs, hall⟩ := (Option.any_eq_true _ _).mp hrun
  obtain ⟨hall, hexit⟩ := Bool.and_eq_true_iff.mp hall
  obtain ⟨hbefore, hsafe⟩ := Bool.and_eq_true_iff.mp hall
  obtain ⟨hcpu, hlive⟩ := of_decide_eq_true hbefore
  obtain ⟨s', hs', hafter⟩ := (Option.any_eq_true _ _).mp hexit
  obtain ⟨hout, hz⟩ := of_decide_eq_true hafter
  have hnext : ∀ s o s', guardedNext callStep (fun s o => callsSafe s o = true ∧ o ≠ .giveUp)
      s o = some s' → Guarded CallStep (fun s o => CallSafe s o ∧ o ≠ .giveUp) s o s' :=
    fun s o s' h => ⟨(guardedNext_eq_some.mp h).1,
      callSafe_of_callsSafe (guardedNext_eq_some.mp h).2.1, (guardedNext_eq_some.mp h).2.2⟩
  have hquiet : Reachable (· = CallState.pinit) (Guarded CallStep fun s o =>
      CallSafe s o ∧ o ≠ .giveUp) s := Reachable.run hnext (.start rfl) hs
  obtain ⟨-, hreach⟩ := meets_of_not_giveUp hquiet
  exact ⟨s, s', hreach, hcpu, hlive, hs', hout, hz,
    logKept_of_callSafe (hreach.next ⟨hs', trivial, callSafe_of_callsSafe hsafe⟩)⟩

/-- A child of the first process has two threads.  The second one sleeps between `begin_op` and
`end_op`, and the first one calls `exit`. -/
def strandOps : List CallOp :=
  callOps [.userinit 1, .pass, .forkAlloc, .forkStack (some 2), .forkCopy true, .forkDone, .timer,
    .schedule, .threadCreate (some 3) 1, .timer, .schedule] ++ [.enter] ++
  callOps ([.beginOp, .sleep 5, .schedule, .pass, .timer, .schedule, .exitBegin] ++
    List.replicate (NOFILE + 1) .exitFile ++ [.exit])

/-- `exit` has ended a thread that is still counted in `log.outstanding`. -/
theorem not_logKept : ∃ s, CallReach s ∧ ((s.kernel.proc 1).pth 1).state = .zombie ∧
    ((s.kernel.proc 1).pth 1).fsOp = .inside ∧ s.kernel.outstanding = 1 ∧
    ¬LogKept s.kernel := by
  have hrun : ((run callStep CallState.pinit strandOps).any fun s =>
      decide (((s.kernel.proc 1).pth 1).state = .zombie ∧
        ((s.kernel.proc 1).pth 1).fsOp = .inside ∧ s.kernel.outstanding = 1)) = true := by
    decide +kernel
  obtain ⟨s, hs, hall⟩ := (Option.any_eq_true _ _).mp hrun
  obtain ⟨hz, hin, hout⟩ := of_decide_eq_true hall
  refine ⟨s, Reachable.run (fun _ _ _ h => h) (.start rfl) hs, hz, hin, hout, fun h => ?_⟩
  have hheld : ¬((s.kernel.proc 1).pth 1).Outside := by
    rintro ⟨ho, -⟩
    rw [hin] at ho
    exact absurd ho (by simp)
  exact (h.held 1 1 hheld).2 hz

/-- The first process is preempted between the two stores of a failed `fork`.  Its child takes the
slot, and the new process sleeps between `begin_op` and `end_op` when the second store is made. -/
def strandForkOps : List CallOp :=
  callOps [.userinit 1, .pass, .forkAlloc, .forkStack (some 2), .forkCopy true, .forkDone,
    .forkAlloc] ++ [.giveUp] ++
  callOps [.timer, .schedule, .forkAlloc, .forkStack (some 3), .forkCopy true, .forkDone, .timer,
    .schedule] ++ [.enter] ++ callOps [.beginOp, .sleep 5, .schedule, .pass] ++ [.undo]

/-- The second store has ended a thread that is still counted in `log.outstanding`. -/
theorem not_logKept_reuse : ∃ s, Reachable (· = CallState.pinit) (Guarded CallStep CallSafe) s ∧
    ((s.kernel.proc 2).pth 0).state = .unused ∧ ((s.kernel.proc 2).pth 0).fsOp = .inside ∧
    s.kernel.outstanding = 1 ∧ ¬LogKept s.kernel := by
  have hrun : ((run (guardedNext callStep fun s o => callsSafe s o = true) CallState.pinit
      strandForkOps).any fun s => decide (((s.kernel.proc 2).pth 0).state = .unused ∧
        ((s.kernel.proc 2).pth 0).fsOp = .inside ∧ s.kernel.outstanding = 1)) = true := by
    decide +kernel
  obtain ⟨s, hs, hall⟩ := (Option.any_eq_true _ _).mp hrun
  obtain ⟨hun, hin, hout⟩ := of_decide_eq_true hall
  have hnext : ∀ s o s', guardedNext callStep (fun s o => callsSafe s o = true) s o = some s' →
      Guarded CallStep CallSafe s o s' := fun s o s' h =>
    ⟨(guardedNext_eq_some.mp h).1, callSafe_of_callsSafe (guardedNext_eq_some.mp h).2⟩
  refine ⟨s, Reachable.run hnext (.start rfl) hs, hun, hin, hout, fun h => ?_⟩
  have hheld : ¬((s.kernel.proc 2).pth 0).Outside := by
    rintro ⟨ho, -⟩
    rw [hin] at ho
    exact absurd ho (by simp)
  exact (h.held 2 0 hheld).1 hun

end Xv6Projects.Threads
