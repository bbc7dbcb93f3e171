import Xv6Projects.Threads.Change
import Xv6Projects.Threads.Globals

/-!
# What a zombie has given back

A process that ends through `exit` gives back its files and its directory, passes its children
to `initproc` and wakes up its parent, all before it becomes a zombie.  `thread_exit` of the
last thread makes the process a zombie as well, through `set_proc_state`, and does none of
this.  Without that step, and without descriptors opened behind the back of a thread that is
in `exit`, every zombie is a complete exit.
-/

namespace Xv6Projects.Threads

open Library Kernel

/-! ### The property -/

/-- The thread sleeps in `wait`. -/
def Pthread.InWait (t : Pthread) : Prop := t.state = .sleeping ∧ t.cont = .wait

instance (t : Pthread) : Decidable t.InWait := inferInstanceAs (Decidable (_ ∧ _))

/-- The process exists and is not a zombie. -/
def Proc.Exists (x : Proc) : Prop := x.state ≠ .unused ∧ x.state ≠ .zombie

instance (x : Proc) : Decidable x.Exists := inferInstanceAs (Decidable (_ ∧ _))

/-- All descriptors are closed, and there is no current directory. -/
def Proc.FilesClosed (x : Proc) : Prop := (∀ fd, x.ofile fd = none) ∧ x.cwd = none

/-- No thread waits for a zombie, and every zombie is a complete exit. -/
structure ZombiesDone (k : Kernel) : Prop where
  waits : ∀ p i q, ((k.proc p).pth i).InWait → (k.proc q).parent = some p →
    (k.proc q).state ≠ .zombie
  files : ∀ q, (k.proc q).state = .zombie → (k.proc q).FilesClosed
  children : ∀ q r, (k.proc q).state = .zombie → (k.proc r).parent = some q →
    ¬(k.proc r).Exists

/-- No thread of the process is past descriptor `fd` in `exit`. -/
def Proc.FdOpen (x : Proc) (fd : Fd) : Prop := ∀ i, (x.pth i).state.Live →
  (∀ n, (x.pth i).cont = .exitFile n → n ≤ fd) ∧ (x.pth i).cont ≠ .exitLock

/-- The steps that leave complete exits: `thread_exit` is not called by the last thread of a
process, and no descriptor or directory is opened that a thread of the process has already
closed in `exit`. -/
def ExitSafe (k : Kernel) : Op → Prop
  | .threadExit _ => ∀ p, k.cpu = .run p →
      ∃ i, i ≠ (k.proc p).onTidx ∧ ((k.proc p).pth i).state.Live
  | .fdalloc _ => ∀ p, k.cpu = .run p → ∀ fd, (k.proc p).freeFd = some fd → (k.proc p).FdOpen fd
  | .chdir _ => ∀ p, k.cpu = .run p →
      ∀ i, ((k.proc p).pth i).state.Live → ((k.proc p).pth i).cont ≠ .exitLock
  | _ => True

/-- The states of the runs that meet the condition. -/
def ExitReach : Kernel → Prop := Reachable (· = Kernel.pinit) (Guarded Step ExitSafe)

/-! ### The invariant -/

/-- What the threads in `exit` have done so far, and where parents point. -/
structure ExitInv (k : Kernel) : Prop extends ZombiesDone k where
  closing : ∀ p i n, k.Live p i → ((k.proc p).pth i).cont = .exitFile n →
    ∀ fd : Fd, fd < n → (k.proc p).ofile fd = none
  closed : ∀ p i, k.Live p i → ((k.proc p).pth i).cont = .exitLock → (k.proc p).FilesClosed
  notInit : ∀ p i, k.Live p i → ((k.proc p).pth i).cont.Exiting → k.initproc ≠ some p
  init : ∀ p, k.initproc = some p → (k.proc p).state.Live ∧ (k.proc p).parent = none
  notSelf : ∀ p, (k.proc p).parent ≠ some p

/-- What a thread in `exit` has closed is closed. -/
structure Proc.Closing (x : Proc) : Prop where
  files : ∀ i n, (x.pth i).state.Live → (x.pth i).cont = .exitFile n →
    ∀ fd : Fd, fd < n → x.ofile fd = none
  all : ∀ i, (x.pth i).state.Live → (x.pth i).cont = .exitLock → x.FilesClosed

/-- No child of the process is a zombie. -/
def Kernel.NoZombie (k : Kernel) (p : Slot) : Prop :=
  ∀ r, (k.proc r).parent = some p → (k.proc r).state ≠ .zombie

/-- The entry of process `q` in a step from `k` that ends no process. -/
structure ExitKept (k : Kernel) (q : Slot) (x y : Proc) : Prop where
  live : x.state.Live → y.state.Live
  zombie : y.state = .zombie → x.state = .zombie
  parent : y.parent = x.parent ∨ y.parent = none ∨
    (k.proc q).state = .embryo ∧ ∃ p, y.parent = some p ∧ p ≠ q ∧ (k.proc p).state.Live
  alive : y.Exists → x.Exists ∨ (k.proc q).Exists ∨ y.parent = none
  waits : ∀ i, (y.pth i).InWait → (x.pth i).InWait ∨ k.NoZombie q
  exits : ∀ i, (y.pth i).state.Live → (y.pth i).cont.Exiting →
    (x.pth i).state.Live ∧ (x.pth i).cont.Exiting ∨ k.initproc ≠ some q
  closing : x.Closing → y.Closing
  files : y.state = .zombie → x.FilesClosed → y.FilesClosed

section
variable {k : Kernel} {q : Slot}

lemma ExitKept.refl (x : Proc) : ExitKept k q x x :=
  ⟨fun h => h, fun h => h, Or.inl rfl, Or.inl, fun _ => Or.inl, fun _ hl hc => Or.inl ⟨hl, hc⟩,
    fun h => h, fun _ h => h⟩

lemma ExitKept.trans {x y z : Proc} (h : ExitKept k q x y) (h' : ExitKept k q y z) :
    ExitKept k q x z where
  live hl := h'.live (h.live hl)
  zombie hz := h.zombie (h'.zombie hz)
  parent := by
    rcases h'.parent with h₁ | h₁
    · rw [h₁]
      exact h.parent
    · exact Or.inr h₁
  alive hz := by
    rcases h'.alive hz with hy | hq | hn
    · rcases h.alive hy with hx | hq | hn
      · exact Or.inl hx
      · exact Or.inr (Or.inl hq)
      · rcases h'.parent with h₁ | h₁ | ⟨hemb, -⟩
        · exact Or.inr (Or.inr (h₁.trans hn))
        · exact Or.inr (Or.inr h₁)
        · refine Or.inr (Or.inl ⟨?_, ?_⟩)
          · rw [hemb]
            exact State.noConfusion
          · rw [hemb]
            exact State.noConfusion
    · exact Or.inr (Or.inl hq)
    · exact Or.inr (Or.inr hn)
  waits i hi := by
    rcases h'.waits i hi with hi | hno
    · exact h.waits i hi
    · exact Or.inr hno
  exits i hl hc := by
    rcases h'.exits i hl hc with ⟨hl, hc⟩ | hne
    · exact h.exits i hl hc
    · exact Or.inr hne
  closing hx := h'.closing (h.closing hx)
  files hz hx := h'.files hz (h.files (h'.zombie hz) hx)

end

/-- The invariant is kept by a step that ends no process, and makes a process `initproc` only
when none of its threads is in `exit`. -/
lemma ExitInv.kept {k k' : Kernel} (hk : ExitInv k)
    (h : ∀ q, ExitKept k q (k.proc q) (k'.proc q))
    (hinit : ∀ p, k'.initproc = some p → k.initproc = some p ∨
      (k'.proc p).state.Live ∧ (k'.proc p).parent = none ∧
        ∀ i, k'.Live p i → ¬((k'.proc p).pth i).cont.Exiting) : ExitInv k' := by
  have hclosing : ∀ p, (k'.proc p).Closing := fun p => (h p).closing ⟨hk.closing p, hk.closed p⟩
  -- a new parent can run, and its child is under construction
  have hparent : ∀ {q p}, (k'.proc q).parent = some p → (k.proc q).parent = some p ∨
      (k.proc q).state = .embryo ∧ p ≠ q ∧ (k.proc p).state.Live := by
    intro q p hq
    rcases (h q).parent with h' | h' | ⟨hemb, p', h', hne, hl⟩
    · exact Or.inl (h'.symm.trans hq)
    · exact absurd (h'.symm.trans hq) (by simp)
    · obtain rfl := Option.some.inj (h'.symm.trans hq)
      exact Or.inr ⟨hemb, hne, hl⟩
  constructor
  · constructor
    · intro p i q hw hq hz
      have hz' := (h q).zombie hz
      rcases hparent hq with hq' | ⟨hemb, -⟩
      · rcases (h p).waits i hw with hw' | hno
        · exact hk.waits p i q hw' hq' hz'
        · exact hno q hq' hz'
      · exact State.noConfusion (hemb.symm.trans hz')
    · exact fun q hz => (h q).files hz (hk.files q ((h q).zombie hz))
    · intro q r hz hr ha
      have hz' := (h q).zombie hz
      rcases hparent hr with hr' | ⟨-, -, hl⟩
      · rcases (h r).alive ha with ha' | ha' | hn
        · exact hk.children q r hz' hr' ha'
        · exact hk.children q r hz' hr' ha'
        · exact absurd (hn.symm.trans hr) (by simp)
      · exact hl.ne_zombie hz'
  · exact fun p i n => (hclosing p).files i n
  · exact fun p i => (hclosing p).all i
  · intro p i hl hc hp
    rcases hinit p hp with hp' | ⟨-, -, hno⟩
    · rcases (h p).exits i hl hc with ⟨hl', hc'⟩ | hne
      · exact hk.notInit p i hl' hc' hp'
      · exact hne hp'
    · exact hno i hl hc
  · intro p hp
    rcases hinit p hp with hp' | ⟨hl, hn, -⟩
    · obtain ⟨hl, hn⟩ := hk.init p hp'
      refine ⟨(h p).live hl, ?_⟩
      rcases (h p).parent with h' | h' | ⟨hemb, -⟩
      · exact h'.trans hn
      · exact h'
      · exact absurd hemb hl.ne_embryo
    · exact ⟨hl, hn⟩
  · intro p hp
    rcases hparent hp with hp' | ⟨-, hne, -⟩
    · exact hk.notSelf p hp'
    · exact hne rfl

/-! ### The changes that end no process -/

@[simp] lemma Proc.wakeup1_ofile (x : Proc) (c : Chan) : (x.wakeup1 c).ofile = x.ofile := by
  unfold Proc.wakeup1
  split_ifs <;> rfl

@[simp] lemma Proc.wakeup1_cwd (x : Proc) (c : Chan) : (x.wakeup1 c).cwd = x.cwd := by
  unfold Proc.wakeup1
  split_ifs <;> rfl

/-- A thread that sleeps in `wait`, or is in `exit`, did so before, or has no zombie to wait
for. -/
structure ExitPth (k : Kernel) (q : Slot) (t u : Pthread) : Prop where
  waits : u.InWait → t.InWait ∨ k.NoZombie q
  exits : u.state.Live → u.cont.Exiting → t.state.Live ∧ u.cont = t.cont

section
variable {k : Kernel} {q : Slot} {x y : Proc} {t u : Pthread} {op : Op}

lemma ExitPth.refl (t : Pthread) : ExitPth k q t t := ⟨Or.inl, fun hl _ => ⟨hl, rfl⟩⟩

lemma exitPth_of_not (h : ¬u.state.Live) : ExitPth k q t u :=
  ⟨fun hw => absurd (Or.inl hw.1) h, fun hl => absurd hl h⟩

/-- The thread does not sleep. -/
lemma exitPth_of_awake (hs : u.state ≠ .sleeping)
    (he : u.state.Live → u.cont.Exiting → t.state.Live ∧ u.cont = t.cont) : ExitPth k q t u :=
  ⟨fun hw => absurd hw.1 hs, he⟩

/-- Nothing is opened. -/
lemma exitKept_of_pth (hlive : x.state.Live → y.state.Live)
    (hzombie : y.state = .zombie → x.state = .zombie)
    (hparent : y.parent = x.parent ∨ y.parent = none)
    (halive : y.Exists → x.Exists ∨ y.parent = none)
    (hofile : ∀ fd, x.ofile fd = none → y.ofile fd = none) (hcwd : x.cwd = none → y.cwd = none)
    (hpth : ∀ i, ExitPth k q (x.pth i) (y.pth i)) : ExitKept k q x y := by
  have hclosed : x.FilesClosed → y.FilesClosed := fun h =>
    ⟨fun fd => hofile fd (h.1 fd), hcwd h.2⟩
  refine ⟨hlive, hzombie, hparent.imp_right Or.inl, fun hy => (halive hy).imp_right Or.inr,
    fun i => (hpth i).waits, fun i hl hc => ?_, fun hx => ⟨fun i n hl hc fd hfd => ?_,
    fun i hl hc => ?_⟩, fun _ => hclosed⟩
  · obtain ⟨hl', hc'⟩ := (hpth i).exits hl hc
    exact Or.inl ⟨hl', hc' ▸ hc⟩
  · obtain ⟨hl', hc'⟩ := (hpth i).exits hl (Or.inl ⟨n, hc⟩)
    exact hofile fd (hx.files i n hl' (hc'.symm.trans hc) fd hfd)
  · obtain ⟨hl', hc'⟩ := (hpth i).exits hl (Or.inr hc)
    exact hclosed (hx.all i hl' (hc'.symm.trans hc))

lemma State.Live.exists {x : Proc} (h : x.state.Live) : x.Exists := ⟨h.ne_unused, h.ne_zombie⟩

/-- A process that could run before and can run afterwards. -/
lemma exitKept_of_live (hx : x.state.Live) (hy : y.state.Live) (hparent : y.parent = x.parent)
    (hofile : y.ofile = x.ofile) (hcwd : y.cwd = x.cwd)
    (hpth : ∀ i, ExitPth k q (x.pth i) (y.pth i)) : ExitKept k q x y :=
  exitKept_of_pth (fun _ => hy) (fun h => absurd h hy.ne_zombie) (Or.inl hparent)
    (fun _ => Or.inl hx.exists) (fun fd h => by rw [hofile, h]) (fun h => by rw [hcwd, h]) hpth

/-- Waking up, and the closing of a file. -/
lemma CalmProc.exitKept (h : CalmProc x y) (hparent : y.parent = x.parent)
    (hofile : ∀ fd, x.ofile fd = none → y.ofile fd = none) (hcwd : y.cwd = x.cwd) :
    ExitKept k q x y := by
  refine exitKept_of_pth h.state.live_iff.mpr (h.state.eq_iff (by decide) (by decide)).mp
    (Or.inl hparent) (fun hy => Or.inl ⟨fun hu => hy.1 ?_, fun hz => hy.2 ?_⟩) hofile
    (fun hc => by rw [hcwd, hc]) fun i => ⟨fun hi => Or.inl ?_, fun hl _ => ?_⟩
  · exact (h.state.eq_iff (by decide) (by decide)).mpr hu
  · exact (h.state.eq_iff (by decide) (by decide)).mpr hz
  · exact ⟨(h.pth i).sleeping hi.1, (h.cont i).symm.trans hi.2⟩
  · exact ⟨(h.pth i).live_iff.mp hl, h.cont i⟩

/-- A process that is created, or given up while it is under construction. -/
lemma exitKept_construct (hx : ¬x.state.Live) (hy : y.state ≠ .zombie)
    (hparent : y.parent = x.parent ∨ y.parent = none ∨
      (k.proc q).state = .embryo ∧ ∃ p, y.parent = some p ∧ p ≠ q ∧ (k.proc p).state.Live)
    (halive : y.Exists → x.Exists ∨ y.parent = none)
    (h0 : (y.pth 0).state.Live → (y.pth 0).state = .runnable ∧ (y.pth 0).cont = .user)
    (hpth : ∀ i, i ≠ 0 → ¬(y.pth i).state.Live) : ExitKept k q x y := by
  have hnew : ∀ i, (y.pth i).state.Live → (y.pth i).state = .runnable ∧ (y.pth i).cont = .user := by
    intro i hl
    by_cases hi : i = 0
    · rw [hi] at hl ⊢
      exact h0 hl
    · exact absurd hl (hpth i hi)
  refine ⟨fun h => absurd h hx, fun h => absurd h hy, hparent,
    fun h => (halive h).imp_right Or.inr, fun i hw => ?_, fun i hl hc => ?_,
    fun _ => ⟨fun i n hl hc => ?_, fun i hl hc => ?_⟩, fun hz => absurd hz hy⟩
  · exact State.noConfusion (hw.1.symm.trans (hnew i (Or.inl hw.1)).1)
  · rw [(hnew i hl).2] at hc
    exact absurd hc not_exiting_user
  · exact Cont.noConfusion ((hnew i hl).2.symm.trans hc)
  · exact Cont.noConfusion ((hnew i hl).2.symm.trans hc)

/-- The current thread goes to sleep. -/
lemma exitKept_sleep (hk : Shape k) (hp : k.Current q) {chan : Chan} {c : Cont}
    (hw : c = .wait → k.NoZombie q) (hc : c.Exiting → c = (k.proc q).mypth.cont) :
    ExitKept k q (k.proc q) ((k.proc q).sleep chan c) := by
  have hpth := (k.proc q).sleep_pth chan c
  refine exitKept_of_live (hk.alive_current hp) ?_ rfl rfl rfl fun i => ?_
  · refine Proc.setProcState_live (i := (k.proc q).onTidx) (Or.inl ?_)
    exact (congrArg Pthread.state (hpth _)).trans (by rw [if_pos rfl])
  · rw [hpth]
    split_ifs with hi
    · subst hi
      exact ⟨fun h => Or.inr (hw h.2), fun _ he => ⟨hk.live_current hp, hc he⟩⟩
    · exact ExitPth.refl _

/-- The current thread goes on at `c`, and the files are changed. -/
lemma exitKept_current (hk : Shape k) (hp : k.cpu = .run q) {c : Cont}
    (hstate : y.state = (k.proc q).state) (hparent : y.parent = (k.proc q).parent)
    (hpth : ∀ i, y.pth i = if i = (k.proc q).onTidx then { (k.proc q).mypth with cont := c }
      else (k.proc q).pth i)
    (hinit : c.Exiting → (k.proc q).mypth.cont.Exiting ∨ k.initproc ≠ some q)
    (hfiles : (k.proc q).Closing → ∀ i n, k.Live q i → (i ≠ (k.proc q).onTidx ∧
      ((k.proc q).pth i).cont = .exitFile n ∨ c = .exitFile n) →
        ∀ fd : Fd, fd < n → y.ofile fd = none)
    (hall : (k.proc q).Closing → ∀ i, k.Live q i → (i ≠ (k.proc q).onTidx ∧
      ((k.proc q).pth i).cont = .exitLock ∨ c = .exitLock) → y.FilesClosed) :
    ExitKept k q (k.proc q) y := by
  have hrun := (hk.place q (Or.inl hp)).1
  have halive := hk.alive_current (Or.inl hp)
  have hlive : ∀ i, (y.pth i).state.Live → k.Live q i := by
    intro i h
    rw [hpth] at h
    split_ifs at h with hi
    · rw [hi]
      exact hk.live_current (Or.inl hp)
    · exact h
  refine ⟨fun _ => by rwa [hstate], fun hz => by rwa [hstate] at hz, Or.inl hparent,
    fun _ => Or.inl halive.exists, fun i hw => ?_, fun i hl hc => ?_,
    fun hx => ⟨fun i n hl hc => hfiles hx i n (hlive i hl) ?_,
      fun i hl hc => hall hx i (hlive i hl) ?_⟩, fun hz => ?_⟩
  · rw [hpth] at hw
    split_ifs at hw
    · exact State.noConfusion (hrun.symm.trans hw.1)
    · exact Or.inl hw
  · have hl' := hlive i hl
    rw [hpth] at hc
    split_ifs at hc with hi
    · rw [hi]
      exact (hinit hc).imp_left fun he => ⟨hk.live_current (Or.inl hp), he⟩
    · exact Or.inl ⟨hl', hc⟩
  · rw [hpth] at hc
    split_ifs at hc with hi
    · exact Or.inr hc
    · exact Or.inl ⟨hi, hc⟩
  · rw [hpth] at hc
    split_ifs at hc with hi
    · exact Or.inr hc
    · exact Or.inl ⟨hi, hc⟩
  · rw [hstate] at hz
    exact absurd hz halive.ne_zombie

lemma Major.exitKept (hk : Shape k) (h : Major k q op x y) (hop : op ≠ .exit)
    (hsafe : ExitSafe k op) : ExitKept k q x y := by
  cases h with
  | grow h =>
    obtain ⟨r, -, rfl⟩ := Option.map_eq_some_iff.mp h
    refine CalmProc.exitKept ?_ rfl (fun _ h => h) rfl
    exact CalmProc.of_eq rfl rfl rfl rfl
  | commit =>
    refine CalmProc.exitKept ?_ rfl (fun _ h => h) rfl
    exact CalmProc.of_eq rfl rfl rfl rfl
  | initAllpth hp hx =>
    have hlive : x.state.Live := by
      rw [hx]
      exact hk.alive_current (Or.inl hp)
    refine exitKept_of_live hlive hlive rfl rfl rfl fun i => ?_
    rw [Proc.initAllpth_pth]
    split_ifs
    · exact ExitPth.refl _
    · exact exitPth_of_not State.not_live_unused
  | fsOp | sleeplocks =>
    refine CalmProc.exitKept ?_ rfl (fun _ h => h) rfl
    exact calmProc_updMypth _ _ fun _ => ⟨rfl, rfl, rfl⟩
  -- the last step of `exit` is not of this kind: `ExitInv.exit` treats it
  | exit => exact absurd rfl hop
  | @threadExit c v hp =>
    -- `ExitSafe` leaves another live thread, so `threadExit` does not end the process
    have hcalm := calmProc_wakeup1 (k.proc q) c
    obtain ⟨i, hi, hl⟩ := hsafe q hp
    have hlive : (((k.proc q).wakeup1 c).threadExit v).state.Live := by
      rcases ((k.proc q).wakeup1 c).threadExit_state v with ⟨h, -⟩ | ⟨-, h⟩
      · exact h
      · refine absurd ?_ (h i)
        rw [Proc.threadExit_pth, if_neg (by rwa [hcalm.onTidx])]
        exact (hcalm.pth i).live_iff.mpr hl
    refine exitKept_of_live (hcalm.state.live_iff.mpr (hk.alive_current (Or.inl hp))) hlive rfl rfl
      rfl fun j => ?_
    rw [Proc.threadExit_pth]
    split_ifs
    · exact exitPth_of_not State.not_live_zombie
    · exact ExitPth.refl _
  | allocSlot hq =>
    have hst := unusedSlot_state hq
    refine exitKept_construct (fun h => h.ne_unused hst) State.noConfusion (Or.inl rfl)
      (fun _ => Or.inr ((hk.proc q).parent hst)) (fun h => ?_) fun i hi => ?_
    · rw [Proc.allocSlot_first] at h
      exact absurd h State.not_live_embryo
    · rw [Proc.allocSlot_pth hi]
      exact (hk.proc q).not_live_of_unused hst i
  | @allocStack _ _ n =>
    refine CalmProc.exitKept (calmProc_allocStack _ n) rfl (fun _ h => h) rfl
  | userinit hx he =>
    refine exitKept_construct (fun h => h.ne_embryo he) State.noConfusion (Or.inl rfl)
      (fun _ => Or.inl ⟨?_, ?_⟩) (fun _ => ?_) fun i hi => ?_
    · rw [he]
      exact State.noConfusion
    · rw [he]
      exact State.noConfusion
    · rw [Proc.userinit_first]
      exact ⟨rfl, (hx.embryo he).1.2⟩
    · rw [Proc.userinit_pth hi]
      exact hx.not_live_of_embryo he i
  | allocFail he =>
    refine exitKept_construct (fun h => h.ne_embryo he) State.noConfusion (Or.inl rfl)
      (fun h => absurd rfl h.1) (fun h => ?_) fun i hi => ?_
    · rw [Proc.allocFail_first] at h
      exact absurd h State.not_live_unused
    · rw [Proc.allocFail_pth hi]
      exact (hk.proc q).not_live_of_embryo he i
  | forkFail he =>
    refine exitKept_construct (fun h => h.ne_embryo he) State.noConfusion (Or.inl rfl)
      (fun h => absurd rfl h.1) (fun h => ?_) fun i hi => ?_
    · rw [Proc.forkFail_first] at h
      exact absurd h State.not_live_unused
    · rw [Proc.forkFail_pth hi]
      exact (hk.proc q).not_live_of_embryo he i
  | @forkImage p _ he hp hne =>
    -- the child gets its parent before it gets a live thread
    have hdead := (hk.proc q).not_live_of_embryo he
    refine exitKept_construct (fun h => h.ne_embryo he) ?_
      (Or.inr (Or.inr ⟨he, p, rfl, hne.symm, hk.alive_current (Or.inl hp)⟩))
      (fun h => Or.inl h) (fun h => absurd h (hdead 0)) fun i _ => hdead i
    exact fun hz => State.noConfusion (he.symm.trans hz)
  | forkDone he =>
    have hx := hk.proc q
    refine exitKept_construct (fun h => h.ne_embryo he) State.noConfusion (Or.inl rfl)
      (fun _ => Or.inl ⟨?_, ?_⟩) (fun _ => ?_) fun i hi => ?_
    · rw [he]
      exact State.noConfusion
    · rw [he]
      exact State.noConfusion
    · rw [Proc.forkDone_first]
      exact ⟨rfl, (hx.embryo he).1.2⟩
    · rw [Proc.forkDone_pth hi]
      exact hx.not_live_of_embryo he i
  | reap _ _ _ hz =>
    exact exitKept_of_pth (fun h => absurd hz h.ne_zombie) (fun h => State.noConfusion h)
      (Or.inr rfl) (fun h => absurd rfl h.1) (fun _ h => h) (fun h => h) fun i =>
        exitPth_of_not State.not_live_unused
  | created hp hy =>
    have halive := hk.alive_current (Or.inl hp)
    obtain ⟨sz, pgdir, ustacks, he⟩ := hy.proc
    have hstate : y.state = (k.proc q).state := by rw [he]
    refine exitKept_of_live halive (hstate ▸ halive) (by rw [he]) (by rw [he]) (by rw [he])
      fun i => ?_
    rw [hy.pth]
    split_ifs
    · refine exitPth_of_awake ?_ fun _ hc => ?_
      · rw [Pthread.created_state]
        split_ifs <;> exact State.noConfusion
      · rw [Pthread.created_cont] at hc
        exact absurd hc not_exiting_user
    · exact ExitPth.refl _
  | @joinPth _ i =>
    refine exitKept_of_pth (fun h => h) (fun h => h) (Or.inl rfl) Or.inl (fun _ h => h)
      (fun h => h) fun j => ?_
    rw [Proc.joinPth, Proc.updPth_pth]
    split_ifs
    · exact exitPth_of_not State.not_live_unused
    · exact ExitPth.refl _

/-- A new descriptor is one that no thread in `exit` has passed. -/
lemma exitKept_openFd (hk : Shape k) (hp : k.cpu = .run q) {fd : Fd} {f : ℕ}
    (hopen : (k.proc q).FdOpen fd) : ExitKept k q (k.proc q)
      { k.proc q with ofile := Function.update (k.proc q).ofile fd (some f) } := by
  have hlive := hk.live_current (Or.inl hp)
  refine exitKept_current hk hp (c := (k.proc q).mypth.cont) rfl rfl (fun i => ?_) Or.inl
    (fun hx i n hl hc fd' hlt => ?_) fun hx i hl hc => ?_
  · split_ifs with hi
    · rw [hi]
      rfl
    · rfl
  · have hle : n ≤ fd := by
      rcases hc with ⟨-, hc⟩ | hc
      · exact (hopen i hl).1 n hc
      · exact (hopen _ hlive).1 n hc
    have hne : fd' ≠ fd := by
      rintro rfl
      exact absurd hlt (not_lt.mpr hle)
    refine (Function.update_of_ne hne _ _).trans ?_
    rcases hc with ⟨-, hc⟩ | hc
    · exact hx.files i n hl hc fd' hlt
    · exact hx.files _ n hlive hc fd' hlt
  · rcases hc with ⟨-, hc⟩ | hc
    · exact absurd hc (hopen i hl).2
    · exact absurd hc (hopen _ hlive).2

lemma exitKept_chdir (hk : Shape k) (hp : k.cpu = .run q) {ip : ℕ}
    (hopen : ∀ i, ((k.proc q).pth i).state.Live → ((k.proc q).pth i).cont ≠ .exitLock) :
    ExitKept k q (k.proc q) { k.proc q with cwd := some ip } := by
  have hlive := hk.live_current (Or.inl hp)
  refine exitKept_current hk hp (c := (k.proc q).mypth.cont) rfl rfl (fun i => ?_) Or.inl
    (fun hx i n hl hc => ?_) fun hx i hl hc => ?_
  · split_ifs with hi
    · rw [hi]
      rfl
    · rfl
  · rcases hc with ⟨-, hc⟩ | hc
    · exact hx.files i n hl hc
    · exact hx.files _ n hlive hc
  · rcases hc with ⟨-, hc⟩ | hc
    · exact absurd hc (hopen i hl)
    · exact absurd hc (hopen _ hlive)

lemma exitKept_exitBegin (hk : Shape k) (hp : k.cpu = .run q) (hinit : k.initproc ≠ some q) :
    ExitKept k q (k.proc q)
      ((k.proc q).updMypth fun t => { t with cont := .exitFile 0 }) := by
  refine exitKept_current hk hp rfl rfl (fun i => Proc.updMypth_pth _ _ i) (fun _ => Or.inr hinit)
    (fun hx i n hl hc fd hfd => ?_) fun hx i hl hc => ?_
  · rcases hc with ⟨-, hc⟩ | hc
    · exact hx.files i n hl hc fd hfd
    · obtain rfl := Cont.exitFile.inj hc
      exact absurd hfd (Nat.not_lt_zero _)
  · rcases hc with ⟨-, hc⟩ | hc
    · exact hx.all i hl hc
    · exact Cont.noConfusion hc

/-- One descriptor is closed in `exit`. -/
lemma exitKept_exitFile (hk : Shape k) (hp : k.cpu = .run q) {fd : ℕ} (h : fd < NOFILE)
    (hc : (k.proc q).mypth.cont = .exitFile fd) : ExitKept k q (k.proc q)
      (({ k.proc q with ofile := Function.update (k.proc q).ofile ⟨fd, h⟩ none } : Proc).updMypth
        fun t => { t with cont := .exitFile (fd + 1) }) := by
  have hlive := hk.live_current (Or.inl hp)
  have hnone : ∀ fd', (k.proc q).ofile fd' = none →
      Function.update (k.proc q).ofile ⟨fd, h⟩ none fd' = none := by
    intro fd' hfd
    rw [Function.update_apply]
    split_ifs
    · rfl
    · exact hfd
  refine exitKept_current hk hp rfl rfl (fun i => Proc.updMypth_pth _ _ i)
    (fun _ => Or.inl (Or.inl ⟨fd, hc⟩)) (fun hx i n hl hci fd' hlt => ?_) fun hx i hl hci => ?_
  · rcases hci with ⟨-, hci⟩ | hci
    · exact hnone fd' (hx.files i n hl hci fd' hlt)
    · obtain rfl := Cont.exitFile.inj hci
      by_cases he : fd' = ⟨fd, h⟩
      · subst he
        exact Function.update_self _ _ _
      · refine hnone fd' (hx.files _ fd hlive hc fd' ?_)
        exact lt_of_le_of_ne (Nat.lt_succ_iff.mp hlt) fun heq => he (Fin.ext heq)
  · rcases hci with ⟨-, hci⟩ | hci
    · have hcl := hx.all i hl hci
      exact ⟨fun fd' => hnone fd' (hcl.1 fd'), hcl.2⟩
    · exact Cont.noConfusion hci

/-- The directory is given back in `exit`, after the last descriptor. -/
lemma exitKept_exitDir (hk : Shape k) (hp : k.cpu = .run q) {fd : ℕ} (h : ¬fd < NOFILE)
    (hc : (k.proc q).mypth.cont = .exitFile fd) : ExitKept k q (k.proc q)
      (({ k.proc q with cwd := none } : Proc).updMypth fun t => { t with cont := .exitLock }) := by
  have hlive := hk.live_current (Or.inl hp)
  refine exitKept_current hk hp rfl rfl (fun i => Proc.updMypth_pth _ _ i)
    (fun _ => Or.inl (Or.inl ⟨fd, hc⟩)) (fun hx i n hl hci fd' hlt => ?_) fun hx _ _ _ => ?_
  · rcases hci with ⟨-, hci⟩ | hci
    · exact hx.files i n hl hci fd' hlt
    · exact Cont.noConfusion hci
  · exact ⟨fun fd' => hx.files _ fd hlive hc fd' (lt_of_lt_of_le fd'.isLt (not_lt.mp h)), rfl⟩

lemma Change.exitKept (hk : Shape k) (h : Change k q op x y) (hop : op ≠ .exit)
    (hsafe : ExitSafe k op) : ExitKept k q x y := by
  cases h with
  | major h => exact h.exitKept hk hop hsafe
  | wakeup1 c =>
    refine (calmProc_wakeup1 x c).exitKept (Proc.wakeup1_parent _ _) (fun fd h => ?_)
      (Proc.wakeup1_cwd _ _)
    rw [Proc.wakeup1_ofile, h]
  | kill => exact (calmProc_kill _).exitKept rfl (fun _ h => h) rfl
  | adopt => exact absurd rfl hop
  | openFd hp hfd => exact exitKept_openFd hk hp (hsafe q hp _ hfd)
  | closeFd =>
    refine CalmProc.exitKept ?_ rfl (fun fd' h => ?_) rfl
    · exact CalmProc.of_eq rfl rfl rfl rfl
    · dsimp only
      rw [Function.update_apply]
      split_ifs
      · rfl
      · exact h
  | chdir hp => exact exitKept_chdir hk hp (hsafe q hp)
  | exitFile h hp hc => exact exitKept_exitFile hk hp h hc
  | exitDir h hp hc => exact exitKept_exitDir hk hp h hc
  | exitBegin hp hinit => exact exitKept_exitBegin hk hp hinit
  | @goOn _ _ c hc hx =>
    refine exitKept_of_live hx.2 hx.2 rfl rfl rfl fun i => ?_
    rw [Proc.updMypth_pth]
    split_ifs
    · refine exitPth_of_awake (fun hs => State.noConfusion (hx.1.symm.trans hs)) fun _ he => ?_
      exact absurd he hc.not_exiting
    · exact ExitPth.refl _
  | sleep hp =>
    exact exitKept_sleep hk (Or.inl hp) (fun h => absurd h (hk.run_cont hp).1) fun _ => rfl
  | sleepWait _ hp hno =>
    refine exitKept_sleep hk hp (fun _ => hno) ?_
    rintro (⟨n, h⟩ | h) <;> exact absurd h (by simp)
  | sleepJoin _ hp =>
    refine exitKept_sleep hk hp (fun h => absurd h (by simp)) ?_
    rintro (⟨n, h⟩ | h) <;> exact absurd h (by simp)
  | yield hp hx =>
    have hmine : (x.pth x.onTidx).state.Live := by
      rw [hx.onTidx]
      exact (hx.pth _).live_iff.mpr (hk.live_current (Or.inl hp))
    refine exitKept_of_live (hx.state.live_iff.mpr (hk.alive_current (Or.inl hp)))
      (Or.inr (Or.inl rfl)) rfl rfl rfl fun i => ?_
    rw [Proc.yield_pth]
    split_ifs with hi
    · subst hi
      exact exitPth_of_awake State.noConfusion fun _ _ => ⟨hmine, rfl⟩
    · exact ExitPth.refl _
  | dispatch hi =>
    have hlive := (hk.proc q).alive (Or.inr (Or.inl hi))
    exact exitKept_of_live hlive (Or.inr (Or.inr rfl)) rfl rfl rfl fun _ => ExitPth.refl _
  | @switchTo _ _ i hl hi =>
    refine exitKept_of_live hl hl rfl rfl rfl fun j => ?_
    dsimp only
    rw [Proc.updPth_pth]
    split_ifs with hj
    · subst hj
      exact exitPth_of_awake State.noConfusion fun _ _ => ⟨Or.inr (Or.inl hi), rfl⟩
    · exact ExitPth.refl _

end

lemma Step.exitKept {k k' : Kernel} {op : Op} (hk : Shape k) (h : Step k op k') (hop : op ≠ .exit)
    (hsafe : ExitSafe k op) (q : Slot) : ExitKept k q (k.proc q) (k'.proc q) :=
  Changes.lift ExitKept.refl (fun _ _ _ => ExitKept.trans)
    (fun _ _ hxy => hxy.exitKept hk hop hsafe) (h.changes hk q)

/-! ### The steps that end a process -/

/-- A process that can run wakes up the threads that sleep on the channel. -/
lemma Proc.wakeup1_wakes {x : Proc} (h : x.state.Live) {c : Chan} {i : Tidx}
    (hi : x.AsleepOn c i) : ((x.wakeup1 c).pth i).state = .runnable := by
  have h' : x.state = .sleeping ∨ x.state = .runnable ∨ x.state = .running := h
  unfold Proc.wakeup1
  rw [if_pos h']
  dsimp only
  unfold Proc.wokenPth
  rw [if_pos hi]

/-- After `wakeup1` of the address of `p`, no thread of `p` sleeps in `wait`. -/
lemma not_inWait_wakeup1 {k : Kernel} (hs : Shape k) {p : Slot} {i : Tidx} :
    ¬(((k.wakeup1 (.proc p)).proc p).pth i).InWait := by
  intro h
  have hcalm := calm_wakeup1 k (.proc p)
  have hsleep := (hcalm.pth p i).sleeping h.1
  have hcont := (hcalm.cont p i).symm.trans h.2
  have hchan := (hs.chan p i hsleep).1 hcont
  have hwoken := Proc.wakeup1_wakes ((hs.proc p).alive (Or.inl hsleep)) ⟨hsleep, hchan⟩
  exact State.noConfusion (h.1.symm.trans hwoken)

lemma reparent_parent (k : Kernel) (p q : Slot) : ((k.reparent p).proc q).parent =
    if (k.proc q).parent = some p then k.initproc else (k.proc q).parent := by
  unfold Kernel.reparent
  split_ifs <;> simp_all [Kernel.adopt]

lemma reparent_files (k : Kernel) (p q : Slot) :
    ((k.reparent p).proc q).ofile = (k.proc q).ofile ∧
      ((k.reparent p).proc q).cwd = (k.proc q).cwd := by
  have hadopt : ((k.adopt p).proc q).ofile = (k.proc q).ofile ∧
      ((k.adopt p).proc q).cwd = (k.proc q).cwd := by
    rw [Kernel.adopt, mapProc_proc]
    split_ifs <;> exact ⟨rfl, rfl⟩
  unfold Kernel.reparent
  split_ifs
  · rw [wakeup1_proc, Proc.wakeup1_ofile, Proc.wakeup1_cwd]
    exact hadopt
  · exact hadopt

lemma reparent_initproc (k : Kernel) (p : Slot) : (k.reparent p).initproc = k.initproc := by
  unfold Kernel.reparent
  split_ifs <;> rfl

/-- After the adoption of a zombie, no thread of `initproc` sleeps in `wait`. -/
lemma reparent_wakes {k : Kernel} (hs : Shape k) {p q r : Slot} {i : Tidx}
    (hr : (k.proc r).parent = some p) (hz : (k.proc r).state = .zombie)
    (hq : k.initproc = some q) : ¬(((k.reparent p).proc q).pth i).InWait := by
  unfold Kernel.reparent
  have hany : (slots.any fun q => (k.proc q).parent = some p ∧ (k.proc q).state = .zombie) =
      true := by
    rw [List.any_eq_true]
    exact ⟨r, List.mem_finRange r, by simp [hr, hz]⟩
  rw [if_pos hany, hq]
  exact not_inWait_wakeup1 ((calm_adopt k p).shape hs)

lemma ExitInv.wakeup1 {k : Kernel} (hk : ExitInv k) (c : Chan) : ExitInv (k.wakeup1 c) := by
  refine hk.kept (fun q => (calmProc_wakeup1 _ c).exitKept ?_ (fun fd h => ?_) ?_) fun p => Or.inl
  · exact Proc.wakeup1_parent _ _
  · rw [Proc.wakeup1_ofile, h]
  · exact Proc.wakeup1_cwd _ _

lemma ExitInv.exit {k : Kernel} (hk : ExitInv k) (hs : Shape k) {p : Slot}
    (hp : k.cpu = .run p) (hc : (k.proc p).mypth.cont = .exitLock) : ExitInv (k.exit p) := by
  have hl := hs.live_current (Or.inl hp)
  have halive := hs.alive_current (Or.inl hp)
  have hinit := hk.notInit p _ hl (Or.inr hc)
  have hfiles := hk.closed p _ hl hc
  set k₁ := k.wakeup1 (parentChan (k.proc p).parent) with hk₁
  have hcalm₁ : Calm k k₁ := calm_wakeup1 _ _
  have hk₁' : ExitInv k₁ := hk.wakeup1 _
  have hs₁ : Shape k₁ := hcalm₁.shape hs
  set k₂ := k₁.reparent p with hk₂
  have hcalm₂ : Calm k₁ k₂ := calm_reparent _ _
  set k' := k.exit p with hk'
  have hself : k'.proc p = (k₂.proc p).exit := by
    rw [hk', Kernel.exit, setCpu_proc, updProc_self]
  have hother : ∀ {q}, q ≠ p → k'.proc q = k₂.proc q := fun hq => by
    rw [hk', Kernel.exit, setCpu_proc, updProc_of_ne _ _ hq]
  have hinit' : k'.initproc = k.initproc := reparent_initproc k₁ p
  have hparent : ∀ q, (k'.proc q).parent =
      if (k₁.proc q).parent = some p then k.initproc else (k₁.proc q).parent := by
    intro q
    have h₂ : (k'.proc q).parent = (k₂.proc q).parent := by
      by_cases hq : q = p
      · rw [hq, hself]
        rfl
      · rw [hother hq]
    rw [h₂]
    exact reparent_parent k₁ p q
  have hclosed : ∀ q, (k₁.proc q).FilesClosed → (k'.proc q).FilesClosed := by
    intro q hq
    have h₂ : (k₂.proc q).FilesClosed := by
      rw [Proc.FilesClosed, (reparent_files k₁ p q).1, (reparent_files k₁ p q).2]
      exact hq
    by_cases hqp : q = p
    · rw [hqp] at h₂ ⊢
      rw [hself]
      exact h₂
    · rwa [hother hqp]
  -- the zombies before the step, and the new one
  have hzom : ∀ {q}, (k'.proc q).state = .zombie → q ≠ p → (k₁.proc q).state = .zombie := by
    intro q hz hq
    rw [hother hq] at hz
    exact ((hcalm₂.state q).eq_iff (by decide) (by decide)).mp hz
  have hlive : ∀ {q i}, k'.Live q i → q ≠ p ∧ k₁.Live q i ∧
      ((k'.proc q).pth i).cont = ((k₁.proc q).pth i).cont := by
    intro q i h
    have hq : q ≠ p := by
      rintro rfl
      rw [Kernel.Live, hself] at h
      exact Proc.exit_not_live _ i h
    rw [Kernel.Live, hother hq] at h
    rw [hother hq]
    exact ⟨hq, (hcalm₂.pth q i).live_iff.mp h, hcalm₂.cont q i⟩
  have hwait : ∀ {q i}, ((k'.proc q).pth i).InWait → q ≠ p ∧ ((k₂.proc q).pth i).InWait ∧
      ((k₁.proc q).pth i).InWait := by
    intro q i h
    have hq := (hlive (q := q) (i := i) (Or.inl h.1)).1
    rw [hother hq] at h
    exact ⟨hq, h, (hcalm₂.pth q i).sleeping h.1, (hcalm₂.cont q i).symm.trans h.2⟩
  have hadopt : ∀ {r q}, (k'.proc r).parent = some q →
      (k₁.proc r).parent = some p ∧ k.initproc = some q ∨
        (k₁.proc r).parent = some q ∧ q ≠ p := by
    intro r q h
    rw [hparent] at h
    split_ifs at h with hr
    · exact Or.inl ⟨hr, h⟩
    · refine Or.inr ⟨h, ?_⟩
      rintro rfl
      exact hr h
  constructor
  · constructor
    · intro q i r hw hr hz
      obtain ⟨hqp, hw₂, hw₁⟩ := hwait hw
      rcases hadopt hr with ⟨hrp, hq⟩ | ⟨hrq, -⟩
      · by_cases hrp' : r = p
        · subst hrp'
          exact hk₁'.notSelf r hrp
        · exact reparent_wakes hs₁ hrp (hzom hz hrp') hq hw₂
      · by_cases hrp' : r = p
        · -- the parent of the process that ends has been woken up
          subst hrp'
          have hpar : (k.proc r).parent = some q := by
            rw [hk₁, wakeup1_proc, Proc.wakeup1_parent] at hrq
            exact hrq
          rw [hk₁, hpar] at hw₁
          exact not_inWait_wakeup1 hs hw₁
        · exact hk₁'.waits q i r hw₁ hrq (hzom hz hrp')
    · intro q hz
      refine hclosed q ?_
      by_cases hqp : q = p
      · subst hqp
        rw [Proc.FilesClosed, hk₁, wakeup1_proc, Proc.wakeup1_ofile, Proc.wakeup1_cwd]
        exact hfiles
      · exact hk₁'.files q (hzom hz hqp)
    · intro q r hz hr ha
      rcases hadopt hr with ⟨-, hq⟩ | ⟨hrq, hqp⟩
      · -- `initproc` is not a zombie
        by_cases hqp : q = p
        · exact hinit (hqp ▸ hq)
        · exact (hk₁'.init q hq).1.ne_zombie (hzom hz hqp)
      · refine hk₁'.children q r (hzom hz hqp) hrq ?_
        by_cases hrp : r = p
        · rw [hrp]
          exact (hs₁.alive_current (Or.inl hp)).exists
        · rw [hother hrp] at ha
          refine ⟨fun h => ha.1 ?_, fun h => ha.2 ?_⟩
          · exact ((hcalm₂.state r).eq_iff (by decide) (by decide)).mpr h
          · exact ((hcalm₂.state r).eq_iff (by decide) (by decide)).mpr h
  · intro q i n hlq hcq fd hfd
    obtain ⟨hqp, hl₁, hc₁⟩ := hlive hlq
    rw [hc₁] at hcq
    rw [hother hqp, (reparent_files k₁ p q).1]
    exact hk₁'.closing q i n hl₁ hcq fd hfd
  · intro q i hlq hcq
    obtain ⟨hqp, hl₁, hc₁⟩ := hlive hlq
    rw [hc₁] at hcq
    exact hclosed q (hk₁'.closed q i hl₁ hcq)
  · intro q i hlq hcq
    obtain ⟨hqp, hl₁, hc₁⟩ := hlive hlq
    rw [hc₁] at hcq
    rw [hinit']
    exact hk₁'.notInit q i hl₁ hcq
  · intro q hq
    rw [hinit'] at hq
    have hqp : q ≠ p := by
      rintro rfl
      exact hinit hq
    obtain ⟨hlq, hn⟩ := hk₁'.init q hq
    refine ⟨?_, ?_⟩
    · rw [hother hqp]
      exact (hcalm₂.state q).live_iff.mpr hlq
    · rw [hparent, hn, if_neg (by simp)]
  · intro q hq
    rcases hadopt hq with ⟨hqp, hi⟩ | ⟨hqq, -⟩
    · -- `initproc` has no parent, so it is not adopted
      exact absurd (((hk₁'.init q hi).2).symm.trans hqp) (by simp)
    · exact hk₁'.notSelf q hqq

/-- The first process can run, and none of its threads is in `exit`. -/
lemma userinit_init {k k' : Kernel} (hs : Shape k) {n : ℕ} (h : k.userinit n = some k') {p : Slot}
    (hp : k'.initproc = some p) : (k'.proc p).state.Live ∧ (k'.proc p).parent = none ∧
      ∀ i, k'.Live p i → ¬((k'.proc p).pth i).cont.Exiting := by
  obtain ⟨np, hnp, h⟩ := Option.bind_eq_some_iff.mp h
  obtain ⟨k₁, h₁, rfl⟩ := Option.map_eq_some_iff.mp h
  obtain ⟨k₂, h₂, rfl⟩ := Option.map_eq_some_iff.mp h₁
  obtain ⟨-, rfl⟩ := kalloc_eq_some.mp h₂
  obtain rfl := Option.some.inj hp
  have hst := unusedSlot_state hnp
  dsimp only [Kernel.Live]
  rw [updProc_self, updProc_self, allocSlot_self]
  refine ⟨Or.inr (Or.inl rfl), (hs.proc np).parent hst, fun i hl hc => ?_⟩
  by_cases hi : i = 0
  · rw [hi] at hc
    exact not_exiting_user (by simpa using hc)
  · rw [Proc.userinit_pth hi, Proc.allocStack_pth hi, Proc.allocSlot_pth hi] at hl
    exact (hs.proc np).not_live_of_unused hst i hl

/-! ### The runs -/

/-- One step that meets the condition keeps the invariant. -/
theorem ExitInv.step {k k' : Kernel} {op : Op} (hk : ExitInv k) (hs : Shape k)
    (h : Step k op k') (hsafe : ExitSafe k op) : ExitInv k' := by
  by_cases hop : op = .exit
  · subst hop
    obtain ⟨p, hp, h⟩ := onCpu_eq_some.mp h
    rcases exitStep_eq_some (Option.ite_none_right_eq_some.mp h).2 with
      ⟨fd, -, he, -⟩ | ⟨hc, -, rfl⟩
    · exact absurd he (by simp)
    · exact hk.exit hs hp hc
  · refine hk.kept (h.exitKept hs hop hsafe) fun p hp => ?_
    rcases h.initproc with he | ⟨n, rfl⟩
    · exact Or.inl (he.symm.trans hp)
    · exact Or.inr (userinit_init hs (Option.ite_none_right_eq_some.mp h).2 hp)

lemma exitInv_pinit : ExitInv Kernel.pinit where
  waits _ _ _ h := State.noConfusion h.1
  files _ h := State.noConfusion h
  children _ _ h := State.noConfusion h
  closing _ _ _ h := absurd rfl h.ne_unused
  closed _ _ h := absurd rfl h.ne_unused
  notInit _ _ h := absurd rfl h.ne_unused
  init _ h := absurd h (by simp [Kernel.pinit])
  notSelf _ h := absurd h (by simp [Kernel.pinit, Proc.zero])

/-- Both invariants, along the runs that meet the condition. -/
lemma ExitReach.inv {k : Kernel} (h : ExitReach k) : Shape k ∧ ExitInv k := by
  refine Reachable.invariant (I := fun k => Shape k ∧ ExitInv k) ?_ ?_ h
  · rintro _ rfl
    exact ⟨shape_pinit, exitInv_pinit⟩
  · rintro s op s' ⟨hs, hk⟩ ⟨hstep, hsafe⟩
    exact ⟨hs.step hstep, hk.step hs hstep hsafe⟩

/-- **A zombie is a complete exit**, in every run that meets the condition: no thread sleeps in
`wait` while a child of its process is a zombie, and every zombie has closed its files and
passed on its children. -/
theorem zombiesDone_of_exitSafe {k : Kernel} (h : ExitReach k) : ZombiesDone k :=
  h.inv.2.toZombiesDone

/-- The operations that meet the condition in every state. -/
def Op.exitSafe : Op → Bool
  | .threadExit _ | .fdalloc _ | .chdir _ => false
  | _ => true

lemma exitSafe_of_op {k : Kernel} {op : Op} (h : op.exitSafe = true) : ExitSafe k op := by
  cases op <;> trivial

/-- The first process has a child, which ends through `exit`. -/
def exitOps : List Op :=
  [.userinit 1, .pass, .forkAlloc, .forkStack (some 2), .forkCopy true, .forkDone, .timer,
    .schedule, .exitBegin] ++ List.replicate (NOFILE + 1) .exitFile ++ [.exit, .schedule]

/-- The child is a zombie, and has closed its files. -/
theorem zombiesDone_of_exitSafe_child : ∃ k, ExitReach k ∧ (k.proc 1).state = .zombie ∧
    (k.proc 1).FilesClosed := by
  have hrun : ((run (guardedNext step fun _ op => op.exitSafe = true) Kernel.pinit exitOps).any
      fun k => decide ((k.proc 1).state = .zombie)) = true := by
    decide +kernel
  obtain ⟨k, hk, hz⟩ := (Option.any_eq_true _ _).mp hrun
  have hnext : ∀ s i s', guardedNext step (fun _ op => op.exitSafe = true) s i = some s' →
      Guarded Step ExitSafe s i s' := fun s i s' hs =>
    ⟨(guardedNext_eq_some.mp hs).1, exitSafe_of_op (guardedNext_eq_some.mp hs).2⟩
  have hreach : ExitReach k := Reachable.run hnext (.start rfl) hk
  have hzombie := of_decide_eq_true hz
  exact ⟨k, hreach, hzombie, (zombiesDone_of_exitSafe hreach).files 1 hzombie⟩

/-- The first process waits for its child, whose only thread ends through `thread_exit`. -/
def threadExitOps : List Op :=
  [.userinit 1, .pass, .forkAlloc, .forkStack (some 2), .forkCopy true, .forkDone, .wait,
    .schedule, .threadExit 0, .schedule]

/-- The child is a zombie and has kept its directory, and its parent sleeps on. -/
theorem not_zombiesDone : ∃ k, Reach k ∧ k.LockFree ∧ ((k.proc 0).pth 0).InWait ∧
    (k.proc 1).parent = some 0 ∧ (k.proc 1).state = .zombie ∧ (k.proc 1).cwd ≠ none := by
  have hrun : ((run step Kernel.pinit threadExitOps).any fun k =>
      decide (k.LockFree ∧ ((k.proc 0).pth 0).InWait ∧ (k.proc 1).parent = some 0 ∧
        (k.proc 1).state = .zombie ∧ (k.proc 1).cwd ≠ none)) = true := by
    decide +kernel
  obtain ⟨k, hk, hall⟩ := (Option.any_eq_true _ _).mp hrun
  exact ⟨k, Reachable.run (fun _ _ _ hs => hs) (.start rfl) hk, of_decide_eq_true hall⟩

end Xv6Projects.Threads
