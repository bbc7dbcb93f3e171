import Mathlib.Logic.Relation
import Xv6Projects.Threads.Shape

/-!
# What a step does to one process

Every step changes the entry of a process by a chain of elementary changes.  The invariants of
the later modules are relations between the entry before a step and after it; it is enough to
look at the elementary changes.
-/

namespace Xv6Projects.Threads

open Library Kernel Relation

/-! ### Entries whose threads stay in place -/

/-- A state that stays as it is, or lets the thread or process run before and afterwards. -/
def SameKind (s s' : State) : Prop := s' = s ∨ s.Live ∧ s'.Live

lemma SameKind.live_iff {s s' : State} (h : SameKind s s') : s'.Live ↔ s.Live := by
  rcases h with rfl | ⟨h, h'⟩
  · rfl
  · exact iff_of_true h' h

lemma SameKind.eq_iff {s s' t : State} (h : SameKind s s') (ht : ¬t.Live) :
    s' = t ↔ s = t := by
  rcases h with rfl | ⟨h, h'⟩
  · rfl
  · constructor
    · rintro rfl
      exact absurd h' ht
    · rintro rfl
      exact absurd h ht

lemma Woken.sameKind {s s' : State} (h : Woken s s') : SameKind s s' := by
  rcases h with h | ⟨rfl, rfl⟩
  · exact Or.inl h
  · exact Or.inr ⟨Or.inl rfl, Or.inr (Or.inl rfl)⟩

/-- The thread keeps its id and what it holds, and neither starts nor ends. -/
structure StillPth (t u : Pthread) : Prop where
  state : SameKind t.state u.state
  tid : u.tid = t.tid
  retval : u.retval = t.retval
  kstack : u.kstack = t.kstack
  fsOp : u.fsOp = t.fsOp
  sleeplocks : u.sleeplocks = t.sleeplocks

/-- No thread of the process starts or ends, and its memory stays as it is. -/
structure Still (x y : Proc) : Prop where
  pid : y.pid = x.pid
  state : SameKind x.state y.state
  sz : y.sz = x.sz
  pgdir : y.pgdir = x.pgdir
  kstacks : y.kstacks = x.kstacks
  ustacks : y.ustacks = x.ustacks
  pth : ∀ i, StillPth (x.pth i) (y.pth i)

lemma StillPth.refl (t : Pthread) : StillPth t t := ⟨Or.inl rfl, rfl, rfl, rfl, rfl, rfl⟩

/-- The threads, the state and the memory are the same. -/
lemma still_of_eq {x y : Proc} (hpid : y.pid = x.pid) (hstate : y.state = x.state)
    (hsz : y.sz = x.sz) (hpgdir : y.pgdir = x.pgdir) (hkstacks : y.kstacks = x.kstacks)
    (hustacks : y.ustacks = x.ustacks) (hpth : y.pth = x.pth) : Still x y :=
  ⟨hpid, Or.inl hstate, hsz, hpgdir, hkstacks, hustacks, fun i => by
    rw [hpth]
    exact StillPth.refl _⟩

lemma still_wakeup1 (x : Proc) (c : Chan) : Still x (x.wakeup1 c) := by
  refine ⟨?_, (x.wakeup1_state c).sameKind, ?_, ?_, ?_, ?_, fun i => ?_⟩
  on_goal 6 =>
    rcases x.wakeup1_pth c i with h | ⟨hs, h⟩
    · rw [h]
      exact StillPth.refl _
    · rw [h]
      exact ⟨Or.inr ⟨Or.inl hs.1, Or.inr (Or.inl rfl)⟩, rfl, rfl, rfl, rfl, rfl⟩
  all_goals
    unfold Proc.wakeup1
    split_ifs <;> rfl

lemma still_kill (x : Proc) : Still x x.kill := by
  refine ⟨rfl, (calmProc_kill x).state.sameKind, rfl, rfl, rfl, rfl, fun i => ?_⟩
  refine ⟨((calmProc_kill x).pth i).sameKind, ?_, ?_, ?_, ?_, ?_⟩
  all_goals
    dsimp only [Proc.kill]
    split_ifs <;> rfl

lemma still_updPth (x : Proc) (i : Tidx) {f : Pthread → Pthread}
    (hf : StillPth (x.pth i) (f (x.pth i))) : Still x (x.updPth i f) := by
  refine ⟨rfl, Or.inl rfl, rfl, rfl, rfl, rfl, fun j => ?_⟩
  rw [Proc.updPth_pth]
  split_ifs with hj
  · rwa [hj]
  · exact StillPth.refl _

/-- The place of the current thread. -/
lemma still_setCont (x : Proc) (c : Cont) : Still x (x.updMypth fun t => { t with cont := c }) :=
  still_updPth x _ ⟨Or.inl rfl, rfl, rfl, rfl, rfl, rfl⟩

lemma Still.trans {x y z : Proc} (h : Still x y) (h' : Still y z) : Still x z := by
  have hkind : ∀ {s s' s'' : State}, SameKind s s' → SameKind s' s'' → SameKind s s'' := by
    intro s s' s'' h₁ h₂
    rcases h₁ with rfl | ⟨h₁, h₁'⟩
    · exact h₂
    · exact Or.inr ⟨h₁, h₂.live_iff.mpr h₁'⟩
  refine ⟨h'.pid.trans h.pid, hkind h.state h'.state, h'.sz.trans h.sz, h'.pgdir.trans h.pgdir,
    h'.kstacks.trans h.kstacks, h'.ustacks.trans h.ustacks, fun i => ?_⟩
  have h₁ := h.pth i
  have h₂ := h'.pth i
  exact ⟨hkind h₁.state h₂.state, h₂.tid.trans h₁.tid, h₂.retval.trans h₁.retval,
    h₂.kstack.trans h₁.kstack, h₂.fsOp.trans h₁.fsOp, h₂.sleeplocks.trans h₁.sleeplocks⟩

lemma still_sleep {k : Kernel} (hk : Shape k) {p : Slot} (hp : k.Current p) (chan : Chan)
    (c : Cont) : Still (k.proc p) ((k.proc p).sleep chan c) := by
  have hmine : (((k.proc p).sleep chan c).pth (k.proc p).onTidx).state = .sleeping := by
    rw [Proc.sleep_pth, if_pos rfl]
  refine ⟨rfl, Or.inr ⟨hk.alive_current hp, ?_⟩, rfl, rfl, rfl, rfl, fun i => ?_⟩
  · exact Proc.setProcState_live (i := (k.proc p).onTidx) (Or.inl hmine)
  · rw [Proc.sleep_pth]
    split_ifs with hi
    · rw [hi]
      exact ⟨Or.inr ⟨hk.live_current hp, Or.inl rfl⟩, rfl, rfl, rfl, rfl, rfl⟩
    · exact StillPth.refl _

lemma still_adopt (k : Kernel) (p q : Slot) : Still (k.proc q) ((k.adopt p).proc q) := by
  rw [Kernel.adopt, mapProc_proc]
  split_ifs
  · exact still_of_eq rfl rfl rfl rfl rfl rfl rfl
  · exact still_of_eq rfl rfl rfl rfl rfl rfl rfl

lemma still_reparent (k : Kernel) (p q : Slot) : Still (k.proc q) ((k.reparent p).proc q) := by
  unfold Kernel.reparent
  split_ifs
  · exact (still_adopt k p q).trans (still_wakeup1 _ _)
  · exact still_adopt k p q

/-! ### Elementary changes -/

/-- The thread is in `exit`. -/
def Cont.Exiting (c : Cont) : Prop := (∃ n, c = .exitFile n) ∨ c = .exitLock

/-- A place, outside `exit`, at which a thread goes on in the operation. -/
def Cont.Next (op : Op) (c : Cont) : Prop :=
  c = .user ∨ (∃ np, c = .forkStack np ∧ op = .forkAlloc) ∨ (∃ np, c = .forkCopy np) ∨
    ∃ np, c = .forkDone np ∧ ∃ ok, op = .forkCopy ok

/-- The current thread of an entry runs, in a process that can run. -/
def Proc.Runs (x : Proc) : Prop := x.mypth.state = .running ∧ x.state.Live

/-- The operations that enter `wait`, or go on there. -/
def Op.Waits : Op → Prop
  | .wait | .resume => True
  | _ => False

/-- The operations that enter `thread_join`, or go on there. -/
def Op.Joins : Op → Prop
  | .threadJoin _ | .resume => True
  | _ => False

/-- The elementary changes that create, end or move a thread, or change what it holds: of the
entry of process `q`, in a step from `k`. -/
inductive Major (k : Kernel) (q : Slot) : Op → Proc → Proc → Prop
  | grow {n avail : ℕ} {y : Proc} : (k.proc q).growproc n avail = some y →
      Major k q (.sbrk n avail) (k.proc q) y
  | commit {sz : ℕ} : k.cpu = .run q → Major k q (.exec sz) (k.proc q) ((k.proc q).commit sz)
  | initAllpth {sz : ℕ} {x : Proc} : k.cpu = .run q → x = (k.proc q).commit sz →
      Major k q (.exec sz) x (x.initAllpth x.onTidx)
  | fsOp {op : Op} {o : FsOp} : (k.proc q).Runs → op = .beginOp ∨ op = .endOp ∨ op = .commitDone →
      Major k q op (k.proc q) ((k.proc q).updMypth fun t => { t with fsOp := o })
  | sleeplocks {op : Op} {ls : List ℕ} : (k.proc q).Runs →
      (∃ l, op = .acquiresleep l ∨ op = .releasesleep l) →
      Major k q op (k.proc q) ((k.proc q).updMypth fun t => { t with sleeplocks := ls })
  | exit {x : Proc} : k.cpu = .run q → (k.proc q).mypth.cont = .exitLock →
      (k.proc q).mypth.Outside → CalmProc (k.proc q) x → Still (k.proc q) x → Major k q .exit x x.exit
  | threadExit (c : Chan) {v : UInt32} : k.cpu = .run q → (k.proc q).mypth.Ready →
      Major k q (.threadExit v) ((k.proc q).wakeup1 c) (((k.proc q).wakeup1 c).threadExit v)
  | allocSlot {op : Op} : k.unusedSlot = some q → op = .forkAlloc ∨ (∃ n, op = .userinit n) →
      Major k q op (k.proc q) ((k.proc q).allocSlot k.nextpid k.nextTid)
  | allocStack {op : Op} {x : Proc} {n : ℕ} : ProcShape x → x.state = .embryo →
      (∃ n, op = .userinit n) ∨ (∃ page, op = .forkStack page) →
      Major k q op x (x.allocStack n)
  | userinit {n : ℕ} {x : Proc} : ProcShape x → x.state = .embryo →
      Major k q (.userinit n) x x.userinit
  | allocFail : (k.proc q).state = .embryo →
      Major k q (.forkStack none) (k.proc q) (k.proc q).allocFail
  | forkFail {ok : Bool} : (k.proc q).state = .embryo →
      Major k q (.forkCopy ok) (k.proc q) (k.proc q).forkFail
  | forkImage {p : Slot} {ok : Bool} : (k.proc q).state = .embryo → k.cpu = .run p → q ≠ p →
      Major k q (.forkCopy ok) (k.proc q) (Proc.forkImage p (k.proc p) (k.proc q))
  | forkDone : (k.proc q).state = .embryo →
      Major k q .forkDone (k.proc q) (k.proc q).forkDone
  | reap {op : Op} {p : Slot} : op.Waits → k.Current p → (k.proc q).parent = some p →
      (k.proc q).state = .zombie → Major k q op (k.proc q) (k.proc q).reap
  | created {i : Tidx} {n avail : ℕ} {ok : Bool} {k' : Kernel} {y : Proc} : k.cpu = .run q →
      Created k k' q i n ok y → Major k q (.threadCreate (some n) avail) (k.proc q) y
  | joinPth {op : Op} {i : Tidx} : op.Joins → ((k.proc q).pth i).state = .zombie →
      Major k q op (k.proc q) ((k.proc q).joinPth i)

/-- The elementary changes of the entry of process `q`, in a step from `k`. -/
inductive Change (k : Kernel) (q : Slot) : Op → Proc → Proc → Prop
  | major {op : Op} {x y : Proc} : Major k q op x y → Change k q op x y
  | wakeup1 {op : Op} {x : Proc} (c : Chan) : Change k q op x (x.wakeup1 c)
  | kill {pid : ℤ} : Change k q (.kill pid) (k.proc q) (k.proc q).kill
  | adopt {x : Proc} {p : Slot} : k.cpu = .run p → x.parent = some p →
      Change k q .exit x { x with parent := k.initproc }
  | openFd {f : ℕ} {fd : Fd} : k.cpu = .run q → (k.proc q).freeFd = some fd →
      Change k q (.fdalloc f) (k.proc q)
        { k.proc q with ofile := Function.update (k.proc q).ofile fd (some f) }
  | closeFd {fd : Fd} : Change k q (.close fd) (k.proc q)
      { k.proc q with ofile := Function.update (k.proc q).ofile fd none }
  | chdir {ip : ℕ} : k.cpu = .run q →
      Change k q (.chdir ip) (k.proc q) { k.proc q with cwd := some ip }
  | exitFile {fd : ℕ} (h : fd < NOFILE) : k.cpu = .run q →
      (k.proc q).mypth.cont = .exitFile fd →
      Change k q .exitFile (k.proc q) (({ k.proc q with
        ofile := Function.update (k.proc q).ofile ⟨fd, h⟩ none } : Proc).updMypth fun t =>
          { t with cont := .exitFile (fd + 1) })
  | exitDir {fd : ℕ} (h : ¬fd < NOFILE) : k.cpu = .run q →
      (k.proc q).mypth.cont = .exitFile fd →
      Change k q .exitFile (k.proc q) (({ k.proc q with cwd := none } : Proc).updMypth fun t =>
        { t with cont := .exitLock })
  | exitBegin : k.cpu = .run q → k.initproc ≠ some q →
      Change k q .exitBegin (k.proc q) ((k.proc q).updMypth fun t =>
        { t with cont := .exitFile 0 })
  | goOn {op : Op} {x : Proc} {c : Cont} : c.Next op → x.Runs →
      Change k q op x (x.updMypth fun t => { t with cont := c })
  | sleep {op : Op} {a : ℕ} : k.cpu = .run q →
      Change k q op (k.proc q) ((k.proc q).sleep (.addr a) (k.proc q).mypth.cont)
  | sleepWait {op : Op} : op.Waits → k.Current q →
      (∀ r, (k.proc r).parent = some q → (k.proc r).state ≠ .zombie) →
      Change k q op (k.proc q) ((k.proc q).sleep (.proc q) .wait)
  | sleepJoin {op : Op} {t : ℤ} {havepth : Bool} : op.Joins → k.Current q →
      (k.threadJoin q t havepth).1 = none →
      Change k q op (k.proc q) ((k.proc q).sleep (.word t) (.join t true))
  | yield {x : Proc} : k.cpu = .run q → CalmProc (k.proc q) x → Change k q .timer x x.yield
  | dispatch {op : Op} {i : Tidx} : ((k.proc q).pth i).state = .runnable →
      Change k q op (k.proc q) { k.proc q with state := .running }
  | switchTo {op : Op} {x : Proc} {i : Tidx} : x.state.Live → (x.pth i).state = .runnable →
      Change k q op x
        { x.updPth i fun t => { t with state := .running, chan := .word 0 } with onTidx := i }

/-- A chain of elementary changes. -/
abbrev Changes (k : Kernel) (q : Slot) (op : Op) : Proc → Proc → Prop :=
  ReflTransGen (Change k q op)

/-- A relation between entries that contains the elementary changes contains their chains. -/
lemma Changes.lift {k : Kernel} {q : Slot} {op : Op} {R : Proc → Proc → Prop}
    (hrefl : ∀ x, R x x) (htrans : ∀ x y z, R x y → R y z → R x z)
    (h : ∀ x y, Change k q op x y → R x y) {x y : Proc} (hxy : Changes k q op x y) : R x y := by
  induction hxy with
  | refl => exact hrefl _
  | tail _ hc ih => exact htrans _ _ _ ih (h _ _ hc)

/-! ### Each function is a chain of changes -/

section
variable {k : Kernel} {op : Op}

lemma Shape.runs (hk : Shape k) {p : Slot} (hp : k.Current p) : (k.proc p).Runs :=
  ⟨(hk.place p hp).1, hk.alive_current hp⟩

lemma not_exiting_user : ¬Cont.user.Exiting := by
  rintro (⟨n, h⟩ | h) <;> exact absurd h (by simp)

lemma Cont.Next.not_exiting {c : Cont} (h : c.Next op) : ¬c.Exiting := by
  rintro (⟨n, rfl⟩ | rfl)
  · rcases h with h | ⟨np, h, -⟩ | ⟨np, h⟩ | ⟨np, h, -⟩ <;> exact absurd h (by simp)
  · rcases h with h | ⟨np, h, -⟩ | ⟨np, h⟩ | ⟨np, h, -⟩ <;> exact absurd h (by simp)

/-- Only process `p` is changed. -/
lemma changes_updProc {p : Slot} {f : Proc → Proc}
    (h : Changes k p op (k.proc p) (f (k.proc p))) (q : Slot) :
    Changes k q op (k.proc q) ((k.updProc p f).proc q) := by
  by_cases hq : q = p
  · subst hq
    rwa [updProc_self]
  · rw [updProc_of_ne _ _ hq]

/-- Process `p` is changed after another change of the table. -/
lemma Changes.updProc {k₁ : Kernel} (h : ∀ q, Changes k q op (k.proc q) (k₁.proc q)) {p : Slot}
    {f : Proc → Proc} (hp : Changes k p op (k₁.proc p) (f (k₁.proc p))) (q : Slot) :
    Changes k q op (k.proc q) ((k₁.updProc p f).proc q) := by
  by_cases hq : q = p
  · subst hq
    rw [updProc_self]
    exact (h q).trans hp
  · rw [updProc_of_ne _ _ hq]
    exact h q

lemma Changes.wakeup1 {k₁ : Kernel} (h : ∀ q, Changes k q op (k.proc q) (k₁.proc q)) (c : Chan)
    (q : Slot) : Changes k q op (k.proc q) ((k₁.wakeup1 c).proc q) :=
  (h q).tail (.wakeup1 c)

lemma changes_setCont (hk : Shape k) {p : Slot} (hp : k.Current p) {c : Cont}
    (hc : c.Next op) (q : Slot) : Changes k q op (k.proc q) ((k.setCont p c).proc q) :=
  changes_updProc (.single (.goOn hc (hk.runs hp))) q

lemma changes_sleepAddr {p : Slot} (hp : k.cpu = .run p) (a : ℕ) (q : Slot) :
    Changes k q op (k.proc q) ((k.sleepAddr p a).proc q) :=
  changes_updProc (f := fun x => x.sleep (.addr a) (k.proc p).mypth.cont) (.single (.sleep hp)) q

lemma changes_switchTo {k₁ : Kernel} (h : ∀ q, Changes k q op (k.proc q) (k₁.proc q)) {p : Slot}
    {i : Tidx} (hl : (k₁.proc p).state.Live) (hi : ((k₁.proc p).pth i).state = .runnable)
    (q : Slot) : Changes k q op (k.proc q) ((k₁.switchTo p i).proc q) :=
  Changes.updProc h (f := fun x =>
    { x.updPth i fun t => { t with state := .running, chan := .word 0 } with onTidx := i })
    (.single (.switchTo hl hi)) q

lemma changes_dispatch {p : Slot} {i : Tidx} (hi : ((k.proc p).pth i).state = .runnable)
    (q : Slot) : Changes k q op (k.proc q) ((k.dispatch p i).proc q) := by
  have hset : ∀ q, Changes k q op (k.proc q)
      ((k.updProc p fun x => { x with state := .running }).proc q) :=
    changes_updProc (.single (.dispatch hi))
  refine changes_switchTo hset ?_ ?_ q
  · rw [updProc_self]
    exact Or.inr (Or.inr rfl)
  · rw [updProc_self]
    exact hi

lemma changes_pass (ps : List Slot) (q : Slot) :
    Changes k q op (k.proc q) ((k.pass ps).proc q) := by
  unfold Kernel.pass
  split
  · rename_i p i h
    exact changes_dispatch (nextProc_runnable h).2 q
  · exact .refl

lemma changes_schedule (hk : Shape k) (p q : Slot) :
    Changes k q op (k.proc q) ((k.schedule p).proc q) := by
  unfold Kernel.schedule
  split
  · rename_i i h
    have hi := nextPth_runnable h
    exact changes_switchTo (fun _ => .refl) ((hk.proc p).alive (Or.inr (Or.inl hi))) hi q
  · exact changes_pass _ q

lemma changes_timer {p : Slot} (hp : k.cpu = .run p) (q : Slot) :
    Changes k q .timer (k.proc q) ((k.timer p).proc q) := by
  have hwake : ∀ q, Changes k q .timer (k.proc q) ((k.wakeup1 (.addr ticks)).proc q) :=
    Changes.wakeup1 (fun _ => .refl) _
  unfold Kernel.timer
  dsimp only
  split_ifs
  · exact Changes.updProc hwake (.single (.yield hp (calmProc_wakeup1 _ _))) q
  · exact hwake q

lemma changes_kill (pid : ℤ) (q : Slot) :
    Changes k q (.kill pid) (k.proc q) ((k.kill pid).proc q) := by
  unfold Kernel.kill
  split
  · exact .refl
  · exact changes_updProc (.single .kill) q

lemma changes_reap {k' : Kernel} {p r : Slot} (hop : op.Waits) (hp : k.Current p)
    (hr : (k.proc r).parent = some p) (hz : (k.proc r).state = .zombie)
    (h : k.reap r = some k') (q : Slot) : Changes k q op (k.proc q) (k'.proc q) := by
  obtain ⟨k₁, h₁, rfl⟩ := Option.map_eq_some_iff.mp h
  obtain ⟨m, b, rfl⟩ := kfreeAll_eq h₁
  exact changes_updProc (.single (.major <| .reap hop hp hr hz)) q

/-- The current thread goes on after other changes, which left it running. -/
lemma Changes.setCont {k₁ : Kernel} (h : ∀ q, Changes k q op (k.proc q) (k₁.proc q))
    {p : Slot} (hp : (k₁.proc p).Runs) {c : Cont} (hc : c.Next op) (q : Slot) :
    Changes k q op (k.proc q) ((k₁.setCont p c).proc q) :=
  Changes.updProc h (.single (.goOn hc hp)) q

lemma changes_wait {k' : Kernel} (hk : Shape k) (hop : op.Waits) {p : Slot} (hp : k.Current p)
    (h : k.wait p = some k') (q : Slot) : Changes k q op (k.proc q) (k'.proc q) := by
  unfold Kernel.wait at h
  split at h
  · rename_i r hr
    obtain ⟨k₁, h₁, rfl⟩ := Option.map_eq_some_iff.mp h
    obtain ⟨hpar, hz⟩ := find_zombie hr
    have hp₁ : k₁.Current p := by
      obtain ⟨k₂, h₂, rfl⟩ := Option.map_eq_some_iff.mp h₁
      obtain ⟨m, b, rfl⟩ := kfreeAll_eq h₂
      exact hp
    exact Changes.setCont (changes_reap hop hp hpar hz h₁) ((hk.reap hz h₁).runs hp₁)
      (Or.inl rfl) q
  · rename_i hnone
    split_ifs at h
    · obtain rfl := Option.some.inj h
      refine changes_updProc (f := fun x => x.sleep (.proc p) .wait)
        (.single (.sleepWait hop hp fun r hr hz => ?_)) q
      have := List.find?_eq_none.mp hnone r (List.mem_finRange r)
      simp [hr, hz] at this
    · obtain rfl := Option.some.inj h
      exact changes_setCont hk hp (Or.inl rfl) q

lemma changes_threadJoin (hk : Shape k) (hop : op.Joins) {p : Slot} (hp : k.Current p) (t : ℤ)
    (havepth : Bool) (q : Slot) :
    Changes k q op (k.proc q) ((k.threadJoin p t havepth).2.proc q) := by
  have hsleep : (k.threadJoin p t havepth).1 = none →
      Changes k q op (k.proc q) ((k.sleep p (.word t) (.join t true)).proc q) := fun hnone =>
    changes_updProc (f := fun x => x.sleep (.word t) (.join t true))
      (.single (.sleepJoin hop hp hnone)) q
  unfold Kernel.threadJoin at hsleep ⊢
  split at hsleep
  · rename_i r i _
    split_ifs at hsleep ⊢ with hz
    · refine Changes.setCont ?_ ((hk.joinPth hz).runs hp) (Or.inl rfl) q
      exact changes_updProc (.single (.major <| .joinPth hop hz))
    · exact hsleep rfl
  · split_ifs at hsleep ⊢
    · exact hsleep rfl
    · exact changes_setCont hk hp (Or.inl rfl) q

/-! ### Creating a process -/

/-- The changes of a process under construction, besides the process that constructs it. -/
lemma Changes.construct {p np : Slot} (hk : Shape k) (hp : k.cpu = .run p)
    (hc : (k.proc p).mypth.cont.target = some np) {f : Proc → Proc}
    (h : Major k np op (k.proc np) (f (k.proc np))) {c : Cont} (hnext : c.Next op) (q : Slot) :
    Changes k q op (k.proc q) (((k.updProc np f).setCont p c).proc q) := by
  have hne := hk.target_ne (Or.inl hp) hc
  refine Changes.setCont (changes_updProc (.single (.major h))) ?_ hnext q
  rw [updProc_of_ne _ _ hne.symm]
  exact hk.runs (Or.inl hp)

lemma changes_forkAlloc (hk : Shape k) {p : Slot} (hp : k.cpu = .run p) (q : Slot) :
    Changes k q .forkAlloc (k.proc q) ((k.forkAlloc p).proc q) := by
  unfold Kernel.forkAlloc
  split
  · exact .refl
  · rename_i np hnp
    have halloc : ∀ q, Changes k q .forkAlloc (k.proc q) ((k.allocSlot np).proc q) :=
      changes_updProc (f := (·.allocSlot k.nextpid k.nextTid))
        (.single (.major <| .allocSlot hnp (Or.inl rfl)))
    exact Changes.setCont halloc ((hk.allocSlot (unusedSlot_state hnp)).runs (Or.inl hp))
      (Or.inr (Or.inl ⟨np, rfl, rfl⟩)) q

lemma changes_forkStack {k' : Kernel} (hk : Shape k) {p np : Slot} (hp : k.cpu = .run p)
    (hc : (k.proc p).mypth.cont = .forkStack np) {page : Option ℕ}
    (h : k.forkStack p np page = some k') (q : Slot) :
    Changes k q (.forkStack page) (k.proc q) (k'.proc q) := by
  have ht : (k.proc p).mypth.cont.target = some np := by rw [hc]; rfl
  have hemb := hk.target _ _ _ (hk.live_current (Or.inl hp)) ht
  cases page with
  | none =>
    obtain rfl := Option.some.inj h
    exact Changes.construct hk hp ht (.allocFail hemb) (Or.inl rfl) q
  | some n =>
    obtain ⟨k₁, h₁, rfl⟩ := Option.map_eq_some_iff.mp h
    obtain ⟨k₂, h₂, rfl⟩ := Option.map_eq_some_iff.mp h₁
    obtain ⟨-, rfl⟩ := kalloc_eq_some.mp h₂
    exact Changes.construct hk hp ht (f := (·.allocStack n))
      (.allocStack (hk.proc np) hemb (Or.inr ⟨_, rfl⟩)) (Or.inr (Or.inr (Or.inl ⟨np, rfl⟩))) q

lemma changes_forkCopy {k' : Kernel} (hk : Shape k) {p np : Slot} (hp : k.cpu = .run p)
    (hc : (k.proc p).mypth.cont = .forkCopy np) {ok : Bool}
    (h : k.forkCopy p np ok = some k') (q : Slot) :
    Changes k q (.forkCopy ok) (k.proc q) (k'.proc q) := by
  have ht : (k.proc p).mypth.cont.target = some np := by rw [hc]; rfl
  have hemb := hk.target _ _ _ (hk.live_current (Or.inl hp)) ht
  have hne := hk.target_ne (Or.inl hp) ht
  unfold Kernel.forkCopy at h
  split_ifs at h
  · obtain rfl := Option.some.inj h
    have hnext : (Cont.forkDone np).Next (.forkCopy ok) :=
      Or.inr (Or.inr (Or.inr ⟨np, rfl, ok, rfl⟩))
    exact Changes.construct hk hp ht (.forkImage hemb hp hne) hnext q
  · obtain ⟨k₁, h₁, rfl⟩ := Option.map_eq_some_iff.mp h
    obtain ⟨-, rfl⟩ := kfree_eq_some.mp h₁
    exact Changes.construct hk hp ht (.forkFail hemb) (Or.inl rfl) q

lemma changes_forkDone (hk : Shape k) {p np : Slot} (hp : k.cpu = .run p)
    (hc : (k.proc p).mypth.cont = .forkDone np) (q : Slot) :
    Changes k q .forkDone (k.proc q) ((k.forkDone p np).proc q) := by
  have ht : (k.proc p).mypth.cont.target = some np := by rw [hc]; rfl
  have hemb := hk.target _ _ _ (hk.live_current (Or.inl hp)) ht
  exact Changes.construct hk hp ht (.forkDone hemb) (Or.inl rfl) q

lemma changes_userinit {k' : Kernel} (hk : Shape k) {n : ℕ} (h : k.userinit n = some k')
    (q : Slot) : Changes k q (.userinit n) (k.proc q) (k'.proc q) := by
  obtain ⟨np, hnp, h⟩ := Option.bind_eq_some_iff.mp h
  obtain ⟨k₁, h₁, rfl⟩ := Option.map_eq_some_iff.mp h
  have hs := hk.allocSlot (unusedSlot_state hnp)
  have hs₁ := (calm_allocStack h₁).shape hs
  have halloc : ∀ q, Changes k q (.userinit n) (k.proc q) ((k.allocSlot np).proc q) :=
    changes_updProc (f := (·.allocSlot k.nextpid k.nextTid))
      (.single (.major <| .allocSlot hnp (Or.inr ⟨n, rfl⟩)))
  have hemb : ((k.allocSlot np).proc np).state = .embryo := by
    rw [allocSlot_self]
    rfl
  obtain ⟨k₂, h₂, rfl⟩ := Option.map_eq_some_iff.mp h₁
  obtain ⟨-, rfl⟩ := kalloc_eq_some.mp h₂
  have hstack := Changes.updProc halloc (f := (·.allocStack n))
    (.single (.major <| .allocStack (hs.proc np) hemb (Or.inl ⟨n, rfl⟩)))
  refine Changes.updProc hstack (.single (.major <| .userinit ?_ ?_)) q
  · exact hs₁.proc np
  · rw [updProc_self]
    exact hemb

/-! ### `exec`, the end of a process, and threads -/

lemma changes_exec {k' : Kernel} {p : Slot} (hp : k.cpu = .run p) {sz : ℕ}
    (h : k.exec p sz = some k') (q : Slot) :
    Changes k q (.exec sz) (k.proc q) (k'.proc q) := by
  obtain ⟨k₁, h₁, rfl⟩ := Option.map_eq_some_iff.mp h
  obtain ⟨m, b, rfl⟩ := kfreeAll_eq h₁
  have hcommit : ∀ q, Changes k q (.exec sz) (k.proc q)
      ((k.updProc p fun x => x.commit sz).proc q) := changes_updProc (.single (.major <| .commit hp))
  refine Changes.updProc hcommit (f := fun x => x.initAllpth x.onTidx)
    (.single (.major <| .initAllpth hp ?_)) q
  rw [updProc_self]

lemma changes_growproc {k' : Kernel} {p : Slot} {n avail : ℕ}
    (h : k.growproc p n avail = some k') (q : Slot) :
    Changes k q (.sbrk n avail) (k.proc q) (k'.proc q) := by
  obtain ⟨y, hy, rfl⟩ := Option.map_eq_some_iff.mp h
  exact changes_updProc (f := fun _ => y) (.single (.major <| .grow hy)) q

lemma changes_exitBegin {k' : Kernel} {p : Slot} (hp : k.cpu = .run p)
    (h : k.exitBegin p = some k') (q : Slot) :
    Changes k q .exitBegin (k.proc q) (k'.proc q) := by
  unfold Kernel.exitBegin at h
  split_ifs at h with hinit
  obtain rfl := Option.some.inj h
  exact changes_updProc (.single (.exitBegin hp hinit)) q

lemma changes_exitFile {p : Slot} (hp : k.cpu = .run p) {fd : ℕ}
    (hc : (k.proc p).mypth.cont = .exitFile fd) (q : Slot) :
    Changes k q .exitFile (k.proc q) ((k.exitFile p fd).proc q) := by
  unfold Kernel.exitFile
  by_cases hq : q = p
  · subst hq
    split_ifs with hfd
    · rw [Kernel.setCont, updProc_self, updProc_self]
      exact .single (.exitFile hfd hp hc)
    · rw [Kernel.setCont, updProc_self, updProc_self]
      exact .single (.exitDir hfd hp hc)
  · split_ifs
    · rw [Kernel.setCont, updProc_of_ne _ _ hq, updProc_of_ne _ _ hq]
    · rw [Kernel.setCont, updProc_of_ne _ _ hq, updProc_of_ne _ _ hq]

lemma changes_exit {p : Slot} (hp : k.cpu = .run p) (hc : (k.proc p).mypth.cont = .exitLock)
    (hout : (k.proc p).mypth.Outside) (q : Slot) : Changes k q .exit (k.proc q) ((k.exit p).proc q) := by
  have hwake : ∀ q, Changes k q .exit (k.proc q)
      ((k.wakeup1 (parentChan (k.proc p).parent)).proc q) := Changes.wakeup1 (fun _ => .refl) _
  set k₁ := k.wakeup1 (parentChan (k.proc p).parent) with hk₁
  have hadopt : ∀ q, Changes k q .exit (k.proc q) ((k₁.adopt p).proc q) := by
    intro q
    rw [Kernel.adopt, mapProc_proc]
    split_ifs with hq
    · exact (hwake q).tail (.adopt (k := k) hp hq)
    · exact hwake q
  have hrep : ∀ q, Changes k q .exit (k.proc q) ((k₁.reparent p).proc q) := by
    intro q
    unfold Kernel.reparent
    split_ifs
    · exact Changes.wakeup1 hadopt _ q
    · exact hadopt q
  refine Changes.updProc hrep (.single (.major <| .exit hp hc hout ?_ ?_)) q
  · have hcalm := (calm_wakeup1 k (parentChan (k.proc p).parent)).trans (calm_reparent k₁ p)
    exact ⟨hcalm.onTidx p, hcalm.parent p, hcalm.state p, hcalm.pth p, hcalm.cont p, hcalm.chan p⟩
  · exact (still_wakeup1 _ _).trans (still_reparent k₁ p p)

lemma changes_threadExit {p : Slot} (hp : k.cpu = .run p) (hr : (k.proc p).mypth.Ready)
    (v : UInt32) (q : Slot) :
    Changes k q (.threadExit v) (k.proc q) ((k.threadExit p v).proc q) := by
  have hwake : ∀ q, Changes k q (.threadExit v) (k.proc q)
      ((k.wakeup1 (.word (k.proc p).mypth.tid)).proc q) := Changes.wakeup1 (fun _ => .refl) _
  exact Changes.updProc hwake (f := fun x => x.threadExit v)
    (.single (.major <| .threadExit _ hp hr)) q

lemma changes_threadCreate {k' : Kernel} {p : Slot} (hp : k.cpu = .run p) {page : Option ℕ}
    {avail : ℕ} (h : k.threadCreate p page avail = some k') (q : Slot) :
    Changes k q (.threadCreate page avail) (k.proc q) (k'.proc q) := by
  obtain ⟨i, n, ok, y, rfl, hy, -⟩ := threadCreate_created h
  rw [hy.table]
  refine changes_updProc ?_ q
  exact .single (.major <| .created hp hy)

/-! ### Files, the log and sleeplocks -/

lemma changes_fdalloc {p : Slot} (hp : k.cpu = .run p) (f : ℕ) (q : Slot) :
    Changes k q (.fdalloc f) (k.proc q) ((k.fdalloc p f).proc q) := by
  unfold Kernel.fdalloc
  split
  · exact .refl
  · rename_i fd hfd
    exact changes_updProc
      (f := fun x => { x with ofile := Function.update x.ofile fd (some f) })
      (.single (.openFd hp hfd)) q

lemma changes_setFsOp {p : Slot} (hr : (k.proc p).Runs) (o : FsOp)
    (hop : op = .beginOp ∨ op = .endOp ∨ op = .commitDone) (q : Slot) :
    Changes k q op (k.proc q) ((k.setFsOp p o).proc q) :=
  changes_updProc (f := fun x => x.updMypth fun t => { t with fsOp := o })
    (.single (.major <| .fsOp hr hop)) q

lemma changes_setSleeplocks {p : Slot} (hr : (k.proc p).Runs) (ls : List ℕ)
    (hop : ∃ l, op = .acquiresleep l ∨ op = .releasesleep l) (q : Slot) :
    Changes k q op (k.proc q) ((k.setSleeplocks p ls).proc q) :=
  changes_updProc (f := fun x => x.updMypth fun t => { t with sleeplocks := ls })
    (.single (.major <| .sleeplocks hr hop)) q

lemma changes_beginOp (hk : Shape k) {p : Slot} (hp : k.cpu = .run p) (q : Slot) :
    Changes k q .beginOp (k.proc q) ((k.beginOp p).proc q) := by
  unfold Kernel.beginOp
  split_ifs
  · exact changes_sleepAddr hp _ q
  · exact changes_sleepAddr hp _ q
  · exact changes_setFsOp (hk.runs (Or.inl hp)) .inside (Or.inl rfl) q

lemma changes_endOp {k' : Kernel} (hk : Shape k) {p : Slot} (hp : k.cpu = .run p)
    (h : k.endOp p = some k') (q : Slot) : Changes k q .endOp (k.proc q) (k'.proc q) := by
  have hset : ∀ o q, Changes k q .endOp (k.proc q) ((k.setFsOp p o).proc q) := fun o =>
    changes_setFsOp (hk.runs (Or.inl hp)) o (Or.inr (Or.inl rfl))
  unfold Kernel.endOp at h
  split_ifs at h
  · obtain rfl := Option.some.inj h
    exact hset .commit q
  · obtain rfl := Option.some.inj h
    exact Changes.wakeup1 (hset .out) _ q

lemma changes_commitDone (hk : Shape k) {p : Slot} (hp : k.cpu = .run p) (q : Slot) :
    Changes k q .commitDone (k.proc q) ((k.commitDone p).proc q) := by
  have hset : ∀ q, Changes k q .commitDone (k.proc q) ((k.setFsOp p .out).proc q) :=
    changes_setFsOp (hk.runs (Or.inl hp)) .out (Or.inr (Or.inr rfl))
  exact Changes.wakeup1 hset _ q

lemma changes_acquiresleep (hk : Shape k) {p : Slot} (hp : k.cpu = .run p) (l : ℕ) (q : Slot) :
    Changes k q (.acquiresleep l) (k.proc q) ((k.acquiresleep p l).proc q) := by
  unfold Kernel.acquiresleep
  split_ifs
  · exact changes_sleepAddr hp _ q
  · exact changes_setSleeplocks (hk.runs (Or.inl hp)) _ ⟨l, Or.inl rfl⟩ q

lemma changes_releasesleep (hk : Shape k) {p : Slot} (hp : k.cpu = .run p) (l : ℕ) (q : Slot) :
    Changes k q (.releasesleep l) (k.proc q) ((k.releasesleep p l).proc q) := by
  have hset : ∀ q, Changes k q (.releasesleep l) (k.proc q)
      ((k.setSleeplocks p ((k.proc p).mypth.sleeplocks.erase l)).proc q) :=
    changes_setSleeplocks (hk.runs (Or.inl hp)) _ ⟨l, Or.inr rfl⟩
  exact Changes.wakeup1 hset _ q

end

/-! ### The step -/

/-- What one step does to one process is a chain of elementary changes. -/
theorem Step.changes {k k' : Kernel} {op : Op} (hk : Shape k) (h : Step k op k') (q : Slot) :
    Changes k q op (k.proc q) (k'.proc q) := by
  unfold Step at h
  cases op with
  | userinit n =>
    obtain ⟨-, h⟩ := Option.ite_none_right_eq_some.mp h
    exact changes_userinit hk h q
  | pass =>
    obtain ⟨-, h⟩ := Option.ite_none_right_eq_some.mp h
    obtain rfl := Option.some.inj h
    exact changes_pass _ q
  | schedule =>
    obtain ⟨p, hp, h⟩ := onSched_eq_some.mp h
    obtain rfl := Option.some.inj h
    exact changes_schedule hk p q
  | timer =>
    obtain ⟨p, hp, h⟩ := onCpu_eq_some.mp h
    obtain rfl := Option.some.inj h
    exact changes_timer hp q
  | wakeup a =>
    obtain ⟨-, h⟩ := Option.ite_none_right_eq_some.mp h
    obtain rfl := Option.some.inj h
    exact Changes.wakeup1 (fun _ => .refl) _ q
  | sleep a =>
    obtain ⟨p, hp, h⟩ := onCpu_eq_some.mp h
    obtain rfl := Option.some.inj h
    exact changes_sleepAddr hp a q
  | kill pid =>
    obtain ⟨p, -, -, h⟩ := syscall_eq_some.mp h
    obtain rfl := Option.some.inj h
    exact changes_kill pid q
  | forkAlloc =>
    obtain ⟨p, hp, -, h⟩ := syscall_eq_some.mp h
    obtain rfl := Option.some.inj h
    exact changes_forkAlloc hk hp q
  | forkStack page =>
    obtain ⟨p, hp, h⟩ := onCpu_eq_some.mp h
    rcases forkStep_eq_some h with ⟨np, pg, hc, he, h⟩ | ⟨_, _, _, he, _⟩ | ⟨_, _, he, _⟩
    · obtain rfl := Op.forkStack.inj he
      exact changes_forkStack hk hp hc h q
    · exact absurd he (by simp)
    · exact absurd he (by simp)
  | forkCopy ok =>
    obtain ⟨p, hp, h⟩ := onCpu_eq_some.mp h
    rcases forkStep_eq_some h with ⟨_, _, _, he, _⟩ | ⟨np, b, hc, he, h⟩ | ⟨_, _, he, _⟩
    · exact absurd he (by simp)
    · obtain rfl := Op.forkCopy.inj he
      exact changes_forkCopy hk hp hc h q
    · exact absurd he (by simp)
  | forkDone =>
    obtain ⟨p, hp, h⟩ := onCpu_eq_some.mp h
    rcases forkStep_eq_some h with ⟨_, _, _, he, _⟩ | ⟨_, _, _, he, _⟩ | ⟨np, hc, -, rfl⟩
    · exact absurd he (by simp)
    · exact absurd he (by simp)
    · exact changes_forkDone hk hp hc q
  | exec sz =>
    obtain ⟨p, hp, -, h⟩ := syscall_eq_some.mp h
    exact changes_exec hp (Option.ite_none_right_eq_some.mp h).2 q
  | sbrk n avail =>
    obtain ⟨p, -, -, h⟩ := syscall_eq_some.mp h
    exact changes_growproc (Option.ite_none_right_eq_some.mp h).2 q
  | exitBegin =>
    obtain ⟨p, hp, -, h⟩ := syscall_eq_some.mp h
    exact changes_exitBegin hp h q
  | exitFile =>
    obtain ⟨p, hp, h⟩ := onCpu_eq_some.mp h
    rcases exitStep_eq_some (Option.ite_none_right_eq_some.mp h).2 with
      ⟨fd, hc, -, rfl⟩ | ⟨_, he, _⟩
    · exact changes_exitFile hp hc q
    · exact absurd he (by simp)
  | exit =>
    obtain ⟨p, hp, h⟩ := onCpu_eq_some.mp h
    obtain ⟨hout, h⟩ := Option.ite_none_right_eq_some.mp h
    rcases exitStep_eq_some h with ⟨_, _, he, _⟩ | ⟨hc, -, rfl⟩
    · exact absurd he (by simp)
    · exact changes_exit hp hc hout q
  | wait =>
    obtain ⟨p, hp, -, h⟩ := syscall_eq_some.mp h
    have hop : Op.Waits .wait := trivial
    exact changes_wait hk hop (Or.inl hp) h q
  | threadCreate page avail =>
    obtain ⟨p, hp, -, h⟩ := syscall_eq_some.mp h
    exact changes_threadCreate hp h q
  | threadExit v =>
    obtain ⟨p, hp, hr, h⟩ := syscall_eq_some.mp h
    obtain rfl := Option.some.inj h
    exact changes_threadExit hp hr v q
  | threadJoin t =>
    obtain ⟨p, hp, -, h⟩ := syscall_eq_some.mp h
    obtain rfl := Option.some.inj h
    have hop : Op.Joins (.threadJoin t) := trivial
    exact changes_threadJoin hk hop (Or.inl hp) t false q
  | resume =>
    obtain ⟨p, hp, h⟩ := onResume_eq_some.mp h
    have hwait : Op.Waits .resume := trivial
    have hjoin : Op.Joins .resume := trivial
    rcases resumeStep_eq_some h with ⟨-, h⟩ | ⟨t, havepth, -, rfl⟩
    · exact changes_wait hk hwait (Or.inr hp) h q
    · exact changes_threadJoin hk hjoin (Or.inr hp) t havepth q
  | fdalloc f =>
    obtain ⟨p, hp, h⟩ := onCpu_eq_some.mp h
    obtain ⟨-, h⟩ := Option.ite_none_right_eq_some.mp h
    obtain rfl := Option.some.inj h
    exact changes_fdalloc hp f q
  | close fd =>
    obtain ⟨p, -, h⟩ := onCpu_eq_some.mp h
    obtain ⟨-, h⟩ := Option.ite_none_right_eq_some.mp h
    obtain rfl := Option.some.inj h
    exact changes_updProc (.single .closeFd) q
  | chdir ip =>
    obtain ⟨p, hp, h⟩ := onCpu_eq_some.mp h
    obtain ⟨-, h⟩ := Option.ite_none_right_eq_some.mp h
    obtain rfl := Option.some.inj h
    exact changes_updProc (.single (.chdir hp)) q
  | beginOp =>
    obtain ⟨p, hp, h⟩ := onCpu_eq_some.mp h
    obtain ⟨-, h⟩ := Option.ite_none_right_eq_some.mp h
    obtain rfl := Option.some.inj h
    exact changes_beginOp hk hp q
  | endOp =>
    obtain ⟨p, hp, h⟩ := onCpu_eq_some.mp h
    exact changes_endOp hk hp (Option.ite_none_right_eq_some.mp h).2 q
  | commitDone =>
    obtain ⟨p, hp, h⟩ := onCpu_eq_some.mp h
    obtain ⟨-, h⟩ := Option.ite_none_right_eq_some.mp h
    obtain rfl := Option.some.inj h
    exact changes_commitDone hk hp q
  | logWrite =>
    obtain ⟨p, -, h⟩ := onCpu_eq_some.mp h
    obtain ⟨-, h⟩ := Option.ite_none_right_eq_some.mp h
    unfold Kernel.logWrite at h
    split_ifs at h
    obtain rfl := Option.some.inj h
    exact .refl
  | acquiresleep l =>
    obtain ⟨p, hp, h⟩ := onCpu_eq_some.mp h
    obtain rfl := Option.some.inj h
    exact changes_acquiresleep hk hp l q
  | releasesleep l =>
    obtain ⟨p, hp, h⟩ := onCpu_eq_some.mp h
    obtain ⟨-, h⟩ := Option.ite_none_right_eq_some.mp h
    obtain rfl := Option.some.inj h
    exact changes_releasesleep hk hp l q

/-! ### The changes that leave the threads in place -/

/-- An elementary change is one of the major ones, or leaves the threads in place. -/
theorem Change.still_or {k : Kernel} {q : Slot} {op : Op} {x y : Proc} (hk : Shape k)
    (h : Change k q op x y) : Still x y ∨ Major k q op x y := by
  cases h with
  | major h => exact Or.inr h
  | wakeup1 c => exact Or.inl (still_wakeup1 x c)
  | kill => exact Or.inl (still_kill _)
  | adopt | openFd | closeFd | chdir => exact Or.inl (still_of_eq rfl rfl rfl rfl rfl rfl rfl)
  | @exitFile fd =>
    have hset := still_setCont (k.proc q) (.exitFile (fd + 1))
    exact Or.inl (hset.trans (still_of_eq rfl rfl rfl rfl rfl rfl rfl))
  | exitDir =>
    have hset := still_setCont (k.proc q) .exitLock
    exact Or.inl (hset.trans (still_of_eq rfl rfl rfl rfl rfl rfl rfl))
  | exitBegin | goOn => exact Or.inl (still_setCont _ _)
  | sleep hp => exact Or.inl (still_sleep hk (Or.inl hp) _ _)
  | sleepWait _ hp => exact Or.inl (still_sleep hk hp _ _)
  | sleepJoin _ hp => exact Or.inl (still_sleep hk hp _ _)
  | yield hp hx =>
    have hlive := hx.state.live_iff.mpr (hk.alive_current (Or.inl hp))
    have hmine : (x.pth x.onTidx).state.Live := by
      rw [hx.onTidx]
      exact (hx.pth _).live_iff.mpr (hk.live_current (Or.inl hp))
    refine Or.inl ⟨rfl, Or.inr ⟨hlive, Or.inr (Or.inl rfl)⟩, rfl, rfl, rfl, rfl, ?_⟩
    have hpth : StillPth (x.pth x.onTidx) { x.pth x.onTidx with state := .runnable } :=
      ⟨Or.inr ⟨hmine, Or.inr (Or.inl rfl)⟩, rfl, rfl, rfl, rfl, rfl⟩
    exact (still_updPth x x.onTidx (f := fun t => { t with state := .runnable }) hpth).pth
  | dispatch hi =>
    have hlive := (hk.proc q).alive (Or.inr (Or.inl hi))
    exact Or.inl ⟨rfl, Or.inr ⟨hlive, Or.inr (Or.inr rfl)⟩, rfl, rfl, rfl, rfl,
      fun _ => StillPth.refl _⟩
  | @switchTo _ _ i _ hi =>
    have hpth : StillPth (x.pth i) { x.pth i with state := .running, chan := .word 0 } :=
      ⟨Or.inr ⟨Or.inr (Or.inl hi), Or.inr (Or.inr rfl)⟩, rfl, rfl, rfl, rfl, rfl⟩
    have hupd := still_updPth x i (f := fun t => { t with state := .running, chan := .word 0 }) hpth
    exact Or.inl (hupd.trans (still_of_eq rfl rfl rfl rfl rfl rfl rfl))

/-! ### Places -/

/-- A place that a thread enters in the operation. -/
def Cont.Entered (op : Op) (c : Cont) : Prop :=
  c.Next op ∨ (c.Exiting ∧ (op = .exitBegin ∨ op = .exitFile)) ∨ (op.Waits ∧ c = .wait) ∨
    op.Joins ∧ ∃ t, c = .join t true

/-- A thread that can run stands where it stood before, or at a place it has entered. -/
def PlaceKept (op : Op) (t u : Pthread) : Prop :=
  u.state.Live → t.state.Live ∧ u.cont = t.cont ∨ u.cont.Entered op

section
variable {op : Op}

lemma PlaceKept.trans {t u v : Pthread} (h : PlaceKept op t u) (h' : PlaceKept op u v) :
    PlaceKept op t v := by
  intro hv
  rcases h' hv with ⟨hu, he⟩ | he
  · rcases h hu with ⟨ht, he'⟩ | he'
    · exact Or.inl ⟨ht, he.trans he'⟩
    · rw [← he] at he'
      exact Or.inr he'
  · exact Or.inr he

/-- The thread stays at its place, and can run only if it could. -/
lemma placeKept_of_eq {t u : Pthread} (hs : u.state.Live → t.state.Live) (hc : u.cont = t.cont) :
    PlaceKept op t u := fun hu => Or.inl ⟨hs hu, hc⟩

lemma placeKept_of_not {t u : Pthread} (h : ¬u.state.Live) : PlaceKept op t u :=
  fun hu => absurd hu h

lemma placeKept_user {t u : Pthread} (h : u.cont = .user) : PlaceKept op t u :=
  fun _ => Or.inr (Or.inl (Or.inl h))

lemma CalmProc.placeKept {x y : Proc} (h : CalmProc x y) (i : Tidx) :
    PlaceKept op (x.pth i) (y.pth i) :=
  placeKept_of_eq (h.pth i).live_iff.mp (h.cont i)

/-- The current thread is changed. -/
lemma placeKept_updMypth (x : Proc) {f : Pthread → Pthread}
    (hf : PlaceKept op x.mypth (f x.mypth)) (i : Tidx) :
    PlaceKept op (x.pth i) ((x.updMypth f).pth i) := by
  rw [Proc.updMypth_pth]
  split_ifs with hi
  · rw [hi]
    exact hf
  · exact placeKept_of_eq (fun h => h) rfl

lemma placeKept_sleep {x : Proc} {chan : Chan} {c : Cont}
    (hc : x.mypth.state.Live ∧ c = x.mypth.cont ∨ c.Entered op) (i : Tidx) :
    PlaceKept op (x.pth i) ((x.sleep chan c).pth i) := by
  rw [Proc.sleep_pth]
  split_ifs with hi
  · rw [hi]
    exact fun _ => hc
  · exact placeKept_of_eq (fun h => h) rfl

/-- Only the first thread is changed, in a process under construction. -/
lemma placeKept_first {x y : Proc} (h : ∀ i, i ≠ 0 → y.pth i = x.pth i)
    (h0 : ¬(y.pth 0).state.Live ∨ (y.pth 0).cont = .user) (i : Tidx) :
    PlaceKept op (x.pth i) (y.pth i) := by
  by_cases hi : i = 0
  · subst hi
    rcases h0 with h0 | h0
    · exact placeKept_of_not h0
    · exact placeKept_user h0
  · rw [h i hi]
    exact placeKept_of_eq (fun h => h) rfl

lemma State.not_live_unused : ¬State.unused.Live := fun h => h.ne_unused rfl

lemma State.not_live_embryo : ¬State.embryo.Live := fun h => h.ne_embryo rfl

lemma State.not_live_zombie : ¬State.zombie.Live := fun h => h.ne_zombie rfl

lemma Major.place {k : Kernel} {q : Slot} {x y : Proc} (hk : Shape k) (h : Major k q op x y)
    (i : Tidx) : PlaceKept op (x.pth i) (y.pth i) := by
  have hsame : ∀ t, PlaceKept op t t := fun t => placeKept_of_eq (fun h => h) rfl
  cases h with
  | grow h =>
    obtain ⟨r, -, rfl⟩ := Option.map_eq_some_iff.mp h
    exact hsame _
  | commit | forkImage => exact hsame _
  | initAllpth =>
    rw [Proc.initAllpth_pth]
    split_ifs
    · exact hsame _
    · exact placeKept_of_not State.not_live_unused
  | fsOp | sleeplocks =>
    exact placeKept_updMypth _ (placeKept_of_eq (fun h => h) rfl) i
  | exit => exact placeKept_of_not (Proc.exit_not_live _ i)
  | threadExit =>
    rw [Proc.threadExit_pth]
    split_ifs with hi
    · exact placeKept_of_not State.not_live_zombie
    · exact hsame _
  | allocSlot =>
    exact placeKept_first (fun i => Proc.allocSlot_pth) (Or.inr (by rw [Proc.allocSlot_first])) i
  | allocStack hx he =>
    refine placeKept_first (fun i => Proc.allocStack_pth) (Or.inr ?_) i
    rw [Proc.allocStack_first]
    exact (hx.embryo he).1.2
  | userinit hx he =>
    refine placeKept_first (fun i => Proc.userinit_pth) (Or.inr ?_) i
    rw [Proc.userinit_first]
    exact (hx.embryo he).1.2
  | allocFail =>
    refine placeKept_first (fun i => Proc.allocFail_pth) (Or.inl ?_) i
    rw [Proc.allocFail_first]
    exact State.not_live_unused
  | forkFail =>
    refine placeKept_first (fun i => Proc.forkFail_pth) (Or.inl ?_) i
    rw [Proc.forkFail_first]
    exact State.not_live_unused
  | forkDone he =>
    refine placeKept_first (fun i => Proc.forkDone_pth) (Or.inr ?_) i
    rw [Proc.forkDone_first]
    exact ((hk.proc q).embryo he).1.2
  | reap => exact placeKept_of_not State.not_live_unused
  | created hp hy =>
    rw [hy.pth]
    split_ifs
    · exact placeKept_user (Pthread.created_cont _ _ _ _)
    · exact hsame _
  | @joinPth _ j =>
    by_cases hi : i = j
    · subst hi
      refine placeKept_of_not ?_
      rw [Proc.joinPth, Proc.updPth_self]
      exact State.not_live_unused
    · rw [Proc.joinPth, Proc.updPth_of_ne _ _ hi]
      exact hsame _

lemma Change.place {k : Kernel} {q : Slot} {x y : Proc} (hk : Shape k) (h : Change k q op x y)
    (i : Tidx) : PlaceKept op (x.pth i) (y.pth i) := by
  cases h with
  | major h => exact h.place hk i
  | wakeup1 c => exact (calmProc_wakeup1 x c).placeKept i
  | kill => exact (calmProc_kill _).placeKept i
  | adopt | openFd | closeFd | chdir | dispatch => exact placeKept_of_eq (fun h => h) rfl
  | @exitFile fd =>
    have hset : PlaceKept .exitFile ((k.proc q).pth i)
        (((k.proc q).updMypth fun t => { t with cont := .exitFile (fd + 1) }).pth i) :=
      placeKept_updMypth _ (fun _ => Or.inr (Or.inr (Or.inl ⟨Or.inl ⟨_, rfl⟩, Or.inr rfl⟩))) i
    exact hset
  | exitDir =>
    have hset : PlaceKept .exitFile ((k.proc q).pth i)
        (((k.proc q).updMypth fun t => { t with cont := .exitLock }).pth i) :=
      placeKept_updMypth _ (fun _ => Or.inr (Or.inr (Or.inl ⟨Or.inr rfl, Or.inr rfl⟩))) i
    exact hset
  | exitBegin =>
    exact placeKept_updMypth (k.proc q)
      (fun _ => Or.inr (Or.inr (Or.inl ⟨Or.inl ⟨_, rfl⟩, Or.inl rfl⟩))) i
  | goOn hc => exact placeKept_updMypth x (fun _ => Or.inr (Or.inl hc)) i
  | sleep hp => exact placeKept_sleep (Or.inl ⟨hk.live_current (Or.inl hp), rfl⟩) i
  | sleepWait hop => exact placeKept_sleep (Or.inr (Or.inr (Or.inr (Or.inl ⟨hop, rfl⟩)))) i
  | sleepJoin hop =>
    exact placeKept_sleep (Or.inr (Or.inr (Or.inr (Or.inr ⟨hop, _, rfl⟩)))) i
  | yield hp hx =>
    have hlive : x.mypth.state.Live := by
      rw [Proc.mypth, hx.onTidx]
      exact (hx.pth _).live_iff.mpr (hk.live_current (Or.inl hp))
    exact placeKept_updMypth x (f := fun t => { t with state := .runnable })
      (placeKept_of_eq (fun _ => hlive) rfl) i
  | @switchTo _ _ j _ hj =>
    by_cases hi : i = j
    · subst hi
      refine placeKept_of_eq (fun _ => Or.inr (Or.inl hj)) ?_
      dsimp only
      rw [Proc.updPth_self]
    · have hpth := Proc.updPth_of_ne x
        (fun t => { t with state := .running, chan := .word 0 }) hi
      dsimp only
      rw [hpth]
      exact placeKept_of_eq (fun h => h) rfl

/-- Where the threads stand after a step. -/
theorem Step.place {k k' : Kernel} (hk : Shape k) (h : Step k op k') (q : Slot) (i : Tidx) :
    PlaceKept op ((k.proc q).pth i) ((k'.proc q).pth i) :=
  Changes.lift (R := fun x y => PlaceKept op (x.pth i) (y.pth i))
    (fun _ => placeKept_of_eq (fun h => h) rfl) (fun _ _ _ => PlaceKept.trans)
    (fun _ _ hxy => hxy.place hk i) (h.changes hk q)

end

end Xv6Projects.Threads
