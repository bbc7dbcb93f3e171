import Xv6Projects.Threads.Calls
import Xv6Projects.Threads.Change

/-!
# The runs of the finer system

As long as `allocproc` does not take a slot between the two stores of a failed `fork`, the finer
system follows `step`, in which they are one: the two kernels differ in the first threads of the
processes that wait for the second store.
-/

namespace Xv6Projects.Threads

open Library Kernel

/-! ### Both stores made -/

/-- The entry `x`, or `x` after the second store when only the first one has been made. -/
def Settled (y x : Proc) : Prop :=
  y = x ∨ (x.state = .unused ∧ (x.pth 0).state = .embryo) ∧ y = x.undo

/-- The kernel `a` is `k` with the second store made for some of the processes that wait for
it. -/
structure Settles (a k : Kernel) : Prop where
  proc : ∀ q, Settled (a.proc q) (k.proc q)
  rest : a = { k with proc := a.proc }

section
variable {x y : Proc} {a k k' : Kernel} {p q : Slot}

lemma Settled.refl (x : Proc) : Settled x x := Or.inl rfl

lemma Settled.state (h : Settled y x) : y.state = x.state := by
  rcases h with rfl | ⟨-, rfl⟩
  · rfl
  · rfl

lemma Settled.pid (h : Settled y x) : y.pid = x.pid := by
  rcases h with rfl | ⟨-, rfl⟩
  · rfl
  · rfl

lemma Settled.parent (h : Settled y x) : y.parent = x.parent := by
  rcases h with rfl | ⟨-, rfl⟩
  · rfl
  · rfl

lemma Settled.onTidx (h : Settled y x) : y.onTidx = x.onTidx := by
  rcases h with rfl | ⟨-, rfl⟩
  · rfl
  · rfl

/-- A thread is the same, or it is a first thread that waits for the second store. -/
lemma Settled.pth (h : Settled y x) (i : Tidx) : y.pth i = x.pth i ∨
    (x.state = .unused ∧ i = 0 ∧ (x.pth 0).state = .embryo) ∧
      y.pth i = { x.pth i with state := .unused } := by
  rcases h with rfl | ⟨⟨hun, hem⟩, rfl⟩
  · exact Or.inl rfl
  · by_cases hi : i = 0
    · subst hi
      exact Or.inr ⟨⟨hun, rfl, hem⟩, x.updPth_self 0 fun t => { t with state := .unused }⟩
    · exact Or.inl (x.updPth_of_ne (fun t => { t with state := .unused }) hi)

lemma Settled.tid (h : Settled y x) (i : Tidx) : (y.pth i).tid = (x.pth i).tid := by
  rcases h.pth i with h | ⟨-, h⟩
  · rw [h]
  · rw [h]

lemma Settled.outside_iff (h : Settled y x) (i : Tidx) :
    (y.pth i).Outside ↔ (x.pth i).Outside := by
  rcases h.pth i with h | ⟨-, h⟩
  · rw [h]
  · rw [h]
    rfl

lemma Settled.fsOp (h : Settled y x) (i : Tidx) : (y.pth i).fsOp = (x.pth i).fsOp := by
  rcases h.pth i with h | ⟨-, h⟩
  · rw [h]
  · rw [h]

/-- The thread can run, or is a zombie, in both entries or in none. -/
lemma Settled.pth_state (h : Settled y x) (i : Tidx) {s : State} (hun : s ≠ .unused)
    (hem : s ≠ .embryo) : (y.pth i).state = s ↔ (x.pth i).state = s := by
  rcases h.pth i with h | ⟨⟨-, rfl, he⟩, h⟩
  · rw [h]
  · rw [h, he]
    exact iff_of_false hun.symm hem.symm

/-- The thread can run in both entries or in none. -/
lemma Settled.live_iff (h : Settled y x) (i : Tidx) :
    (y.pth i).state.Live ↔ (x.pth i).state.Live := by
  unfold State.Live
  rw [h.pth_state i State.noConfusion State.noConfusion,
    h.pth_state i State.noConfusion State.noConfusion,
    h.pth_state i State.noConfusion State.noConfusion]

/-- An entry in use does not wait for a store. -/
lemma Settled.eq (h : Settled y x) (hx : x.state ≠ .unused) : y = x :=
  h.resolve_right fun hn => hx hn.1.1

lemma Settles.refl (k : Kernel) : Settles k k := ⟨fun _ => .refl _, rfl⟩

lemma Settles.cpu (h : Settles a k) : a.cpu = k.cpu := by rw [h.rest]

lemma Settles.current (h : Settles a k) : a.Current p ↔ k.Current p := by
  rw [Kernel.Current, Kernel.Current, h.cpu]

/-- A process in use is the same. -/
lemma Settles.same (h : Settles a k) (hq : (a.proc q).state ≠ .unused) : a.proc q = k.proc q :=
  (h.proc q).eq fun hun => hq ((h.proc q).state.trans hun)

lemma Settles.sameCurrent (h : Settles a k) (ha : Shape a) (hp : k.Current p) :
    a.proc p = k.proc p := h.same (ha.alive_current (h.current.mpr hp)).ne_unused

/-- A thread in use is of a process in use. -/
lemma Settles.sameThread (h : Settles a k) (ha : Shape a) {i : Tidx}
    (hun : ((k.proc q).pth i).state ≠ .unused) (hem : ((k.proc q).pth i).state ≠ .embryo) :
    a.proc q = k.proc q := by
  refine h.same fun hq => ?_
  have hi := ((h.proc q).pth_state i hun hem).mpr rfl
  exact hun (hi.symm.trans ((ha.proc q).unused hq i))

/-! ### Changes of the table -/

lemma Settles.updProc (h : Settles a k) {f g : Proc → Proc}
    (hfg : Settled (f (a.proc p)) (g (k.proc p))) :
    Settles (a.updProc p f) (k.updProc p g) := by
  refine ⟨fun q => ?_, ?_⟩
  · rw [updProc_proc, updProc_proc]
    split_ifs
    · exact hfg
    · exact h.proc q
  · obtain ⟨-, hr⟩ := h
    rw [hr]
    rfl

/-- A process that is the same in both is changed. -/
lemma Settles.updSame (h : Settles a k) (hp : a.proc p = k.proc p) (f : Proc → Proc) :
    Settles (a.updProc p f) (k.updProc p f) := by
  refine h.updProc ?_
  rw [hp]
  exact .refl _

lemma Settles.mapProc (h : Settles a k) {f g : Proc → Proc}
    (hfg : ∀ q, Settled (f (a.proc q)) (g (k.proc q))) :
    Settles (a.mapProc f) (k.mapProc g) := by
  refine ⟨hfg, ?_⟩
  rw [h.rest]
  rfl

/-- The rest of the kernel is changed. -/
lemma Settles.only (h : Settles a k) (f : Kernel → Kernel)
    (hf : ∀ k pr, f { k with proc := pr } = { f k with proc := pr }) : Settles (f a) (f k) := by
  have ha : f a = { f k with proc := a.proc } := by rw [h.rest, hf]
  have hk : (f k).proc = ({ f k with proc := k.proc } : Kernel).proc :=
    congrArg (fun k' : Kernel => k'.proc) (hf k k.proc)
  refine ⟨fun q => ?_, ?_⟩
  · rw [ha, hk]
    exact h.proc q
  · rw [ha]

lemma Settles.setCpu (h : Settles a k) (c : Cpu) : Settles (a.setCpu c) (k.setCpu c) :=
  h.only (·.setCpu c) fun _ _ => rfl

lemma Settles.setCont (h : Settles a k) (hp : a.proc p = k.proc p) (c : Cont) :
    Settles (a.setCont p c) (k.setCont p c) := h.updSame hp _

lemma Settled.wakeup1 (h : Settled y x) (c : Chan) : Settled (y.wakeup1 c) (x.wakeup1 c) := by
  rcases h with rfl | ⟨⟨hun, hem⟩, rfl⟩
  · exact .refl _
  · have hno : ∀ z : Proc, z.state = .unused → z.wakeup1 c = z := fun z hz => by
      rw [Proc.wakeup1, hz, if_neg (by simp)]
    rw [hno _ hun, hno x.undo hun]
    exact Or.inr ⟨⟨hun, hem⟩, rfl⟩

lemma Settles.wakeup1 (h : Settles a k) (c : Chan) : Settles (a.wakeup1 c) (k.wakeup1 c) :=
  h.mapProc fun q => (h.proc q).wakeup1 c

lemma Settled.kill (h : Settled y x) : Settled y.kill x.kill := by
  rcases h with rfl | ⟨⟨hun, hem⟩, rfl⟩
  · exact .refl _
  · have hst : x.kill.state = .unused := by
      dsimp only [Proc.kill]
      rw [hun, if_neg (by simp)]
    have h0 : x.kill.pth 0 = x.pth 0 := if_neg (by rw [hem]; simp)
    refine Or.inr ⟨⟨hst, by rw [h0, hem]⟩, ?_⟩
    have hpth : x.undo.kill.pth = x.kill.undo.pth := by
      funext i
      by_cases hi : i = 0
      · subst hi
        simp [Proc.kill, Proc.undo, hem]
      · simp [Proc.kill, Proc.undo, Proc.updPth_of_ne _ _ hi]
    have hrest : x.undo.kill = { x.kill with pth := x.undo.kill.pth } := rfl
    rw [hrest, hpth]
    rfl

lemma Settles.kill (h : Settles a k) (pid : ℤ) : Settles (a.kill pid) (k.kill pid) := by
  have hfind : (fun q => decide ((a.proc q).pid = pid)) =
      fun q => decide ((k.proc q).pid = pid) := by
    funext q
    rw [(h.proc q).pid]
  unfold Kernel.kill
  rw [hfind]
  split
  · exact h
  · exact h.updProc (h.proc _).kill

/-! ### The functions of the scheduler -/

lemma Settles.sleep (h : Settles a k) (hp : a.proc p = k.proc p) (chan : Chan) (c : Cont) :
    Settles (a.sleep p chan c) (k.sleep p chan c) :=
  (h.updSame hp fun x => x.sleep chan c).setCpu _

lemma Settles.sleepAddr (h : Settles a k) (hp : a.proc p = k.proc p) (n : ℕ) :
    Settles (a.sleepAddr p n) (k.sleepAddr p n) := by
  rw [Kernel.sleepAddr, Kernel.sleepAddr, hp]
  exact h.sleep hp _ _

lemma Settles.timer (h : Settles a k) (hp : a.proc p = k.proc p) :
    Settles (a.timer p) (k.timer p) := by
  have hw := h.wakeup1 (.addr ticks)
  have hpw : (a.wakeup1 (.addr ticks)).proc p = (k.wakeup1 (.addr ticks)).proc p :=
    congrArg (·.wakeup1 (.addr ticks)) hp
  unfold Kernel.timer
  dsimp only
  rw [hpw]
  split_ifs
  · exact (hw.updSame hpw _).setCpu _
  · exact hw

lemma Settled.nextPth (h : Settled y x) (is : List Tidx) :
    Kernel.nextPth y is = Kernel.nextPth x is := by
  have hall : (fun i => decide ((y.pth i).state = .runnable)) =
      fun i => decide ((x.pth i).state = .runnable) := by
    funext i
    simp only [h.pth_state i (s := .runnable) State.noConfusion State.noConfusion]
  rw [Kernel.nextPth, Kernel.nextPth, hall]

lemma Settles.nextProc (h : Settles a k) (ps : List Slot) : a.nextProc ps = k.nextProc ps := by
  have hall : (fun q => if (a.proc q).state = .runnable then
        (Kernel.nextPth (a.proc q) tidxs).map fun i => (q, i) else none) =
      fun q => if (k.proc q).state = .runnable then
        (Kernel.nextPth (k.proc q) tidxs).map fun i => (q, i) else none := by
    funext q
    rw [(h.proc q).state, (h.proc q).nextPth]
  rw [Kernel.nextProc, Kernel.nextProc, hall]

lemma Settles.switchTo (h : Settles a k) (hp : a.proc p = k.proc p) (i : Tidx) :
    Settles (a.switchTo p i) (k.switchTo p i) := by
  rw [Kernel.switchTo, Kernel.switchTo, hp]
  exact (h.updSame hp _).setCpu _

lemma Settles.pass (h : Settles a k) (ps : List Slot) : Settles (a.pass ps) (k.pass ps) := by
  unfold Kernel.pass
  rw [h.nextProc]
  split
  · rename_i q i hn
    have hq : a.proc q = k.proc q := by
      refine (h.proc q).eq ?_
      rw [(nextProc_runnable hn).1]
      exact State.noConfusion
    have hd := h.updSame hq fun x => { x with state := .running }
    refine hd.switchTo ?_ i
    rw [updProc_self, updProc_self, hq]
  · exact h.setCpu _

lemma Settles.schedule (h : Settles a k) (ha : Shape a) (p : Slot) :
    Settles (a.schedule p) (k.schedule p) := by
  unfold Kernel.schedule
  rw [(h.proc p).nextPth, (h.proc p).onTidx]
  split
  · rename_i i hi
    have hrun := nextPth_runnable hi
    refine h.switchTo (h.sameThread ha (i := i) ?_ ?_) i
    · rw [hrun]
      exact State.noConfusion
    · rw [hrun]
      exact State.noConfusion
  · exact h.pass _

/-! ### The allocator -/

lemma Settles.kalloc (h : Settles a k) {n : ℕ} (hk : k.kalloc p n = some k') :
    ∃ a', a.kalloc p n = some a' ∧ Settles a' k' ∧ a'.proc = a.proc ∧ k'.proc = k.proc := by
  obtain ⟨hn, rfl⟩ := kalloc_eq_some.mp hk
  have hmem : a.kmem = k.kmem := by rw [h.rest]
  refine ⟨_, kalloc_eq_some.mpr ⟨?_, rfl⟩, ⟨h.proc, ?_⟩, rfl, rfl⟩
  · rwa [hmem]
  · rw [h.rest]

lemma Settles.kfree (h : Settles a k) {n : ℕ} (hk : k.kfree n = some k') :
    ∃ a', a.kfree n = some a' ∧ Settles a' k' ∧ a'.proc = a.proc ∧ k'.proc = k.proc := by
  obtain ⟨hn, rfl⟩ := kfree_eq_some.mp hk
  refine ⟨_, kfree_eq_some.mpr ⟨hn, rfl⟩, ⟨h.proc, ?_⟩, rfl, rfl⟩
  rw [h.rest]

lemma Settles.kfreeAll (h : Settles a k) {ns : List ℕ} (hk : k.kfreeAll ns = some k') :
    ∃ a', a.kfreeAll ns = some a' ∧ Settles a' k' ∧ a'.proc = a.proc ∧ k'.proc = k.proc := by
  induction ns generalizing a k with
  | nil =>
    obtain rfl := Option.some.inj hk
    exact ⟨a, rfl, h, rfl, rfl⟩
  | cons n ns ih =>
    obtain ⟨k₁, hk₁, hk⟩ := Option.bind_eq_some_iff.mp hk
    obtain ⟨a₁, ha₁, h₁, hpa₁, hpk₁⟩ := h.kfree hk₁
    obtain ⟨a', ha', h', hpa', hpk'⟩ := ih h₁ hk
    exact ⟨a', Option.bind_eq_some_iff.mpr ⟨a₁, ha₁, ha'⟩, h', hpa'.trans hpa₁, hpk'.trans hpk₁⟩

/-! ### The functions that create a process -/

lemma Settles.unusedSlot (h : Settles a k) : a.unusedSlot = k.unusedSlot := by
  have hall : (fun q => decide ((a.proc q).state = .unused)) =
      fun q => decide ((k.proc q).state = .unused) := by
    funext q
    rw [(h.proc q).state]
  rw [Kernel.unusedSlot, Kernel.unusedSlot, hall]

/-- `allocproc` writes the state of the first thread, too. -/
lemma Settled.allocSlot (h : Settled y x) (pid tid : ℤ) :
    y.allocSlot pid tid = x.allocSlot pid tid := by
  rcases h with rfl | ⟨-, rfl⟩
  · rfl
  · simp [Proc.allocSlot, Proc.undo, Proc.updPth]

lemma Settles.allocSlot (h : Settles a k) (np : Slot) :
    Settles (a.allocSlot np) (k.allocSlot np) ∧
      (a.allocSlot np).proc np = (k.allocSlot np).proc np := by
  have hpid : a.nextpid = k.nextpid := by rw [h.rest]
  have htid : a.nextTid = k.nextTid := by rw [h.rest]
  have heq := (h.proc np).allocSlot k.nextpid k.nextTid
  have hupd : Settles (a.updProc np (·.allocSlot k.nextpid k.nextTid))
      (k.updProc np (·.allocSlot k.nextpid k.nextTid)) := h.updProc (Or.inl heq)
  constructor
  · refine ⟨?_, ?_⟩
    · intro q
      have hq := hupd.proc q
      rwa [Kernel.allocSlot, Kernel.allocSlot, hpid, htid]
    · have hrest := hupd.rest
      rw [Kernel.allocSlot, Kernel.allocSlot, hpid, htid]
      rw [hrest]
  · rw [allocSlot_self, allocSlot_self, hpid, htid, heq]

lemma Settles.allocStack (h : Settles a k) {np : Slot} (hnp : a.proc np = k.proc np) {n : ℕ}
    (hk : k.allocStack np n = some k') : ∃ a', a.allocStack np n = some a' ∧ Settles a' k' ∧
      a'.proc np = k'.proc np ∧ ∀ q, q ≠ np → a'.proc q = a.proc q ∧ k'.proc q = k.proc q := by
  obtain ⟨k₁, hk₁, rfl⟩ := Option.map_eq_some_iff.mp hk
  obtain ⟨a₁, ha₁, h₁, hpa, hpk⟩ := h.kalloc hk₁
  have hnp₁ : a₁.proc np = k₁.proc np := by rw [hpa, hpk, hnp]
  refine ⟨_, Option.map_eq_some_iff.mpr ⟨a₁, ha₁, rfl⟩, h₁.updSame hnp₁ _, ?_, fun q hq => ?_⟩
  · rw [updProc_self, updProc_self, hnp₁]
  · rw [updProc_of_ne _ _ hq, updProc_of_ne _ _ hq, hpa, hpk]
    exact ⟨rfl, rfl⟩

lemma Settles.userinit (h : Settles a k) {n : ℕ} (hk : k.userinit n = some k') :
    ∃ a', a.userinit n = some a' ∧ Settles a' k' := by
  obtain ⟨np, hnp, hk⟩ := Option.bind_eq_some_iff.mp hk
  obtain ⟨k₁, hk₁, rfl⟩ := Option.map_eq_some_iff.mp hk
  obtain ⟨halloc, hself⟩ := h.allocSlot np
  obtain ⟨a₁, ha₁, h₁, hself₁, -⟩ := halloc.allocStack hself hk₁
  have hdone := h₁.updSame hself₁ Proc.userinit
  refine ⟨_, Option.bind_eq_some_iff.mpr ⟨np, h.unusedSlot.trans hnp,
    Option.map_eq_some_iff.mpr ⟨a₁, ha₁, rfl⟩⟩, hdone.proc, ?_⟩
  have hrest := hdone.rest
  rw [hrest]

lemma Settles.forkAlloc (h : Settles a k) (ha : Shape a) (hp : k.cpu = .run p) :
    Settles (a.forkAlloc p) (k.forkAlloc p) := by
  have hsame := h.sameCurrent ha (Or.inl hp)
  unfold Kernel.forkAlloc
  rw [h.unusedSlot]
  split
  · exact h
  · rename_i np hnp
    obtain ⟨halloc, -⟩ := h.allocSlot np
    refine halloc.setCont ?_ _
    have hne : p ≠ np := by
      rintro rfl
      have hlive := ha.alive_current (h.current.mpr (Or.inl hp))
      exact hlive.ne_unused ((h.proc p).state.trans (unusedSlot_state hnp))
    rw [allocSlot_of_ne hne, allocSlot_of_ne hne, hsame]

/-- The process that the thread that runs constructs. -/
lemma Settles.sameTarget (h : Settles a k) (ha : Shape a) (hp : k.cpu = .run p) {np : Slot}
    (hc : (k.proc p).mypth.cont.target = some np) :
    a.proc np = k.proc np ∧ (k.proc np).state = .embryo ∧ np ≠ p := by
  have hsame := h.sameCurrent ha (Or.inl hp)
  have hcur := h.current.mpr (Or.inl hp)
  have hem : (a.proc np).state = .embryo := by
    refine ha.target p _ np (ha.live_current hcur) ?_
    rw [hsame]
    exact hc
  have hnp : a.proc np = k.proc np := h.same (by rw [hem]; exact State.noConfusion)
  refine ⟨hnp, by rw [← hnp, hem], ?_⟩
  rintro rfl
  exact (ha.alive_current hcur).ne_embryo hem

lemma Settles.forkStack (h : Settles a k) (ha : Shape a) (hp : k.cpu = .run p) {np : Slot}
    (hc : (k.proc p).mypth.cont = .forkStack np) {n : ℕ}
    (hk : k.forkStack p np (some n) = some k') :
    ∃ a', a.forkStack p np (some n) = some a' ∧ Settles a' k' := by
  obtain ⟨hnp, -, hne⟩ := h.sameTarget ha hp (by rw [hc]; rfl)
  obtain ⟨k₁, hk₁, rfl⟩ := Option.map_eq_some_iff.mp hk
  obtain ⟨a₁, ha₁, h₁, -, hother⟩ := h.allocStack hnp hk₁
  refine ⟨_, Option.map_eq_some_iff.mpr ⟨a₁, ha₁, rfl⟩, h₁.setCont ?_ _⟩
  rw [(hother p hne.symm).1, (hother p hne.symm).2]
  exact h.sameCurrent ha (Or.inl hp)

lemma Settles.forkCopy (h : Settles a k) (ha : Shape a) (hp : k.cpu = .run p) {np : Slot}
    (hc : (k.proc p).mypth.cont = .forkCopy np) (hk : k.forkCopy p np true = some k') :
    ∃ a', a.forkCopy p np true = some a' ∧ Settles a' k' := by
  obtain ⟨hnp, -, hne⟩ := h.sameTarget ha hp (by rw [hc]; rfl)
  have hsame := h.sameCurrent ha (Or.inl hp)
  unfold Kernel.forkCopy at hk ⊢
  rw [if_pos rfl] at hk ⊢
  rw [hsame]
  split_ifs at hk ⊢
  obtain rfl := Option.some.inj hk
  refine ⟨_, rfl, (h.updSame hnp _).setCont ?_ _⟩
  rw [updProc_of_ne _ _ hne.symm, updProc_of_ne _ _ hne.symm, hsame]

lemma Settles.forkDone (h : Settles a k) (ha : Shape a) (hp : k.cpu = .run p) {np : Slot}
    (hc : (k.proc p).mypth.cont = .forkDone np) :
    Settles (a.forkDone p np) (k.forkDone p np) := by
  obtain ⟨hnp, -, hne⟩ := h.sameTarget ha hp (by rw [hc]; rfl)
  refine (h.updSame hnp _).setCont ?_ _
  rw [updProc_of_ne _ _ hne.symm, updProc_of_ne _ _ hne.symm, h.sameCurrent ha (Or.inl hp)]

/-! ### The functions that end a process or a thread -/

lemma Settles.adopt (h : Settles a k) (p : Slot) : Settles (a.adopt p) (k.adopt p) := by
  have hinit : a.initproc = k.initproc := by rw [h.rest]
  refine h.mapProc fun q => ?_
  rw [(h.proc q).parent, hinit]
  split_ifs
  · rcases h.proc q with hq | ⟨hw, hq⟩
    · rw [hq]
      exact .refl _
    · rw [hq]
      exact Or.inr ⟨hw, rfl⟩
  · exact h.proc q

lemma Settles.reparent (h : Settles a k) (p : Slot) :
    Settles (a.reparent p) (k.reparent p) := by
  have hinit : a.initproc = k.initproc := by rw [h.rest]
  have hall : (fun q => decide ((a.proc q).parent = some p ∧ (a.proc q).state = .zombie)) =
      fun q => decide ((k.proc q).parent = some p ∧ (k.proc q).state = .zombie) := by
    funext q
    rw [(h.proc q).parent, (h.proc q).state]
  unfold Kernel.reparent
  rw [hall, hinit]
  split_ifs
  · exact (h.adopt p).wakeup1 _
  · exact h.adopt p

lemma Settles.exit (h : Settles a k) (hp : a.proc p = k.proc p) :
    Settles (a.exit p) (k.exit p) := by
  have hinit : a.initproc = k.initproc := by rw [h.rest]
  have hpar : (a.proc p).parent = (k.proc p).parent := by rw [hp]
  unfold Kernel.exit
  rw [hpar]
  set c := parentChan (k.proc p).parent
  refine (Settles.updSame ((h.wakeup1 c).reparent p) ?_ Proc.exit).setCpu _
  have hw : ∀ q, ((a.wakeup1 c).proc q).state = ((k.wakeup1 c).proc q).state := fun q =>
    ((h.wakeup1 c).proc q).state
  have hwp : ∀ q, ((a.wakeup1 c).proc q).parent = ((k.wakeup1 c).proc q).parent := fun q =>
    ((h.wakeup1 c).proc q).parent
  have hself : (a.wakeup1 c).proc p = (k.wakeup1 c).proc p := congrArg (·.wakeup1 c) hp
  have hadopt : ((a.wakeup1 c).adopt p).proc p = ((k.wakeup1 c).adopt p).proc p := by
    rw [Kernel.adopt, Kernel.adopt, mapProc_proc, mapProc_proc, hself]
    have hi : (a.wakeup1 c).initproc = (k.wakeup1 c).initproc := hinit
    rw [hi]
  unfold Kernel.reparent
  simp only [hw, hwp]
  split_ifs
  · have hi : (a.wakeup1 c).initproc = (k.wakeup1 c).initproc := hinit
    rw [hi]
    exact congrArg (·.wakeup1 (parentChan (k.wakeup1 c).initproc)) hadopt
  · exact hadopt

lemma Settles.exitBegin (h : Settles a k) (hp : a.proc p = k.proc p)
    (hk : k.exitBegin p = some k') : ∃ a', a.exitBegin p = some a' ∧ Settles a' k' := by
  have hinit : a.initproc = k.initproc := by rw [h.rest]
  unfold Kernel.exitBegin at hk ⊢
  rw [hinit]
  split_ifs at hk ⊢
  obtain rfl := Option.some.inj hk
  exact ⟨_, rfl, h.setCont hp _⟩

lemma Settles.exitFile (h : Settles a k) (hp : a.proc p = k.proc p) (fd : ℕ) :
    Settles (a.exitFile p fd) (k.exitFile p fd) := by
  have hset : ∀ (f : Proc → Proc) (c : Cont),
      Settles ((a.updProc p f).setCont p c) ((k.updProc p f).setCont p c) := fun f c =>
    (h.updSame hp f).setCont (by rw [updProc_self, updProc_self, hp]) c
  unfold Kernel.exitFile
  split_ifs
  · exact hset _ _
  · exact hset _ _

lemma Settles.wait (h : Settles a k) (ha : Shape a) (hp : k.Current p)
    (hk : k.wait p = some k') : ∃ a', a.wait p = some a' ∧ Settles a' k' := by
  have hsame := h.sameCurrent ha hp
  have hzom : (fun q => decide ((a.proc q).parent = some p ∧ (a.proc q).state = .zombie)) =
      fun q => decide ((k.proc q).parent = some p ∧ (k.proc q).state = .zombie) := by
    funext q
    rw [(h.proc q).parent, (h.proc q).state]
  have hpar : (fun q => decide ((a.proc q).parent = some p)) =
      fun q => decide ((k.proc q).parent = some p) := by
    funext q
    rw [(h.proc q).parent]
  unfold Kernel.wait at hk ⊢
  rw [hzom, hpar, hsame]
  split at hk
  · rename_i q hq
    have hz : (k.proc q).state = .zombie := (find_zombie hq).2
    have hq' : a.proc q = k.proc q := (h.proc q).eq (by rw [hz]; exact State.noConfusion)
    have hne : p ≠ q := by
      rintro rfl
      have hlive := ha.alive_current (h.current.mpr hp)
      exact hlive.ne_zombie ((h.proc p).state.trans hz)
    obtain ⟨k₁, hk₁, rfl⟩ := Option.map_eq_some_iff.mp hk
    obtain ⟨k₂, hk₂, rfl⟩ := Option.map_eq_some_iff.mp hk₁
    obtain ⟨a₂, ha₂, h₂, hpa, hpk⟩ := h.kfreeAll hk₂
    refine ⟨_, Option.map_eq_some_iff.mpr ⟨a₂.updProc q Proc.reap,
      Option.map_eq_some_iff.mpr ⟨a₂, by rwa [hq'], rfl⟩, rfl⟩, ?_⟩
    refine ((h₂.updSame (by rw [hpa, hpk, hq']) _).setCont ?_ _).setCpu _
    rw [updProc_of_ne _ _ hne, updProc_of_ne _ _ hne, hpa, hpk, hsame]
  · split_ifs at hk ⊢
    · obtain rfl := Option.some.inj hk
      exact ⟨_, rfl, h.sleep hsame _ _⟩
    · obtain rfl := Option.some.inj hk
      exact ⟨_, rfl, (h.setCont hsame _).setCpu _⟩

lemma Settles.exec (h : Settles a k) (hp : a.proc p = k.proc p) {sz : ℕ}
    (hk : k.exec p sz = some k') : ∃ a', a.exec p sz = some a' ∧ Settles a' k' := by
  have hcommit := h.updSame hp fun x => x.commit sz
  have hself : (a.updProc p fun x => x.commit sz).proc p =
      (k.updProc p fun x => x.commit sz).proc p := by rw [updProc_self, updProc_self, hp]
  obtain ⟨k₁, hk₁, rfl⟩ := Option.map_eq_some_iff.mp hk
  obtain ⟨a₁, ha₁, h₁, hpa, hpk⟩ := hcommit.kfreeAll hk₁
  refine ⟨_, Option.map_eq_some_iff.mpr ⟨a₁, by rwa [hself], rfl⟩, h₁.updSame ?_ _⟩
  rw [hpa, hpk, hself]

lemma Settles.growproc (h : Settles a k) (hp : a.proc p = k.proc p) {n avail : ℕ}
    (hk : k.growproc p n avail = some k') :
    ∃ a', a.growproc p n avail = some a' ∧ Settles a' k' := by
  obtain ⟨x, hx, rfl⟩ := Option.map_eq_some_iff.mp hk
  refine ⟨_, Option.map_eq_some_iff.mpr ⟨x, by rwa [hp], rfl⟩, ?_⟩
  exact h.updProc (.refl x)

/-! ### The functions of threads -/

lemma Settles.threadCreate (h : Settles a k) (hp : a.proc p = k.proc p) {page : Option ℕ}
    {avail : ℕ} (hk : k.threadCreate p page avail = some k') :
    ∃ a', a.threadCreate p page avail = some a' ∧ Settles a' k' := by
  have htid : a.nextTid = k.nextTid := by rw [h.rest]
  obtain ⟨i, hi, hk⟩ := Option.bind_eq_some_iff.mp hk
  obtain ⟨n, hn, hk⟩ := Option.bind_eq_some_iff.mp hk
  obtain ⟨k₁, hk₁, hk⟩ := Option.bind_eq_some_iff.mp hk
  obtain ⟨k₂, hk₂, rfl⟩ := Option.map_eq_some_iff.mp hk₁
  obtain ⟨r, hr, rfl⟩ := Option.map_eq_some_iff.mp hk
  obtain ⟨a₂, ha₂, h₂, hpa, hpk⟩ := h.kalloc hk₂
  have hself : a₂.proc p = k₂.proc p := by rw [hpa, hpk, hp]
  have htid₂ : a₂.nextTid = k₂.nextTid := by rw [h₂.rest]
  have halloc := h₂.updSame hself (·.allocpth i k₂.nextTid n)
  have h₁ : Settles { a₂.updProc p (·.allocpth i a₂.nextTid n) with
        nextTid := (a₂.nextTid + 1).bmod (2 ^ 32) }
      { k₂.updProc p (·.allocpth i k₂.nextTid n) with
        nextTid := (k₂.nextTid + 1).bmod (2 ^ 32) } := by
    rw [htid₂]
    refine ⟨halloc.proc, ?_⟩
    have hrest := halloc.rest
    rw [hrest]
  have hself₁ : (a₂.updProc p (·.allocpth i a₂.nextTid n)).proc p =
      (k₂.updProc p (·.allocpth i k₂.nextTid n)).proc p := by
    rw [updProc_self, updProc_self, hself, htid₂]
  refine ⟨_, Option.bind_eq_some_iff.mpr ⟨i, by rwa [hp], Option.bind_eq_some_iff.mpr ⟨n, hn,
    Option.bind_eq_some_iff.mpr ⟨_, Option.map_eq_some_iff.mpr ⟨a₂, ha₂, rfl⟩,
      Option.map_eq_some_iff.mpr ⟨r, ?_, rfl⟩⟩⟩⟩, h₁.updProc (.refl _)⟩
  have hr' : ((a₂.updProc p (·.allocpth i a₂.nextTid n)).proc p).allocUstack i avail = some r := by
    rw [hself₁]
    exact hr
  exact hr'

lemma Settles.threadExit (h : Settles a k) (hp : a.proc p = k.proc p) (v : UInt32) :
    Settles (a.threadExit p v) (k.threadExit p v) := by
  unfold Kernel.threadExit
  rw [hp]
  have hself := congrArg (·.wakeup1 (.word (k.proc p).mypth.tid)) hp
  exact ((h.wakeup1 _).updSame hself _).setCpu _

lemma Settles.joinScan (h : Settles a k) (t : ℤ) : a.joinScan t = k.joinScan t := by
  unfold Kernel.joinScan
  simp only [(h.proc _).tid]

lemma Settles.threadJoin (h : Settles a k) (ha : Shape a) (hp : k.Current p) (t : ℤ)
    (havepth : Bool) : Settles (a.threadJoin p t havepth).2 (k.threadJoin p t havepth).2 := by
  have hsame := h.sameCurrent ha hp
  unfold Kernel.threadJoin
  rw [h.joinScan]
  split
  · rename_i q i _
    have hz := (h.proc q).pth_state i (s := .zombie) State.noConfusion State.noConfusion
    by_cases hzk : ((k.proc q).pth i).state = .zombie
    · rw [if_pos hzk, if_pos (hz.mpr hzk)]
      have hq : a.proc q = k.proc q := by
        refine h.sameThread ha (i := i) ?_ ?_
        · rw [hzk]
          exact State.noConfusion
        · rw [hzk]
          exact State.noConfusion
      refine ((h.updSame hq fun x => x.joinPth i).setCont ?_ _).setCpu _
      rw [updProc_proc, updProc_proc, hq, hsame]
    · rw [if_neg hzk, if_neg fun hza => hzk (hz.mp hza)]
      exact h.sleep hsame _ _
  · split_ifs
    · exact h.sleep hsame _ _
    · exact (h.setCont hsame _).setCpu _

/-! ### Files, the log and sleeplocks -/

lemma Settles.fdalloc (h : Settles a k) (hp : a.proc p = k.proc p) (f : ℕ) :
    Settles (a.fdalloc p f) (k.fdalloc p f) := by
  unfold Kernel.fdalloc
  rw [hp]
  split
  · exact h
  · exact h.updSame hp _

/-- The globals of the log are the same. -/
lemma Settles.log (h : Settles a k) : a.outstanding = k.outstanding ∧
    a.committing = k.committing ∧ a.lhN = k.lhN ∧ a.locked = k.locked := by
  rw [h.rest]
  exact ⟨rfl, rfl, rfl, rfl⟩

lemma Settles.setFsOp (h : Settles a k) (hp : a.proc p = k.proc p) (o : FsOp) :
    Settles (a.setFsOp p o) (k.setFsOp p o) := h.updSame hp _

lemma Settles.setSleeplocks (h : Settles a k) (hp : a.proc p = k.proc p) (ls : List ℕ) :
    Settles (a.setSleeplocks p ls) (k.setSleeplocks p ls) := h.updSame hp _

lemma Settles.beginOp (h : Settles a k) (hp : a.proc p = k.proc p) :
    Settles (a.beginOp p) (k.beginOp p) := by
  obtain ⟨hout, hcom, hlh, -⟩ := h.log
  unfold Kernel.beginOp
  rw [hcom, hlh, hout]
  split_ifs
  · exact h.sleepAddr hp _
  · exact h.sleepAddr hp _
  · exact (h.setFsOp hp .inside).only (fun k' => { k' with outstanding := k.outstanding + 1 })
      fun _ _ => rfl

lemma Settles.endOp (h : Settles a k) (hp : a.proc p = k.proc p) (hk : k.endOp p = some k') :
    ∃ a', a.endOp p = some a' ∧ Settles a' k' := by
  obtain ⟨hout, hcom, -, -⟩ := h.log
  unfold Kernel.endOp at hk ⊢
  rw [hcom, hout]
  split_ifs at hk ⊢
  · obtain rfl := Option.some.inj hk
    exact ⟨_, rfl, (h.setFsOp hp .commit).only
      (fun k' => { k' with outstanding := k.outstanding - 1, committing := true }) fun _ _ => rfl⟩
  · obtain rfl := Option.some.inj hk
    have hset := (h.setFsOp hp .out).only
      (fun k' => { k' with outstanding := k.outstanding - 1 }) fun _ _ => rfl
    exact ⟨_, rfl, hset.wakeup1 _⟩

lemma Settles.commitDone (h : Settles a k) (hp : a.proc p = k.proc p) :
    Settles (a.commitDone p) (k.commitDone p) := by
  have hset := (h.setFsOp hp .out).only
    (fun k' => { k' with committing := false, lhN := 0 }) fun _ _ => rfl
  exact hset.wakeup1 _

lemma Settles.logWrite (h : Settles a k) (hk : k.logWrite = some k') :
    ∃ a', a.logWrite = some a' ∧ Settles a' k' := by
  obtain ⟨hout, -, hlh, -⟩ := h.log
  unfold Kernel.logWrite at hk ⊢
  rw [hout, hlh]
  split_ifs at hk ⊢
  obtain rfl := Option.some.inj hk
  exact ⟨_, rfl, h.only (fun k' => { k' with outstanding := k.outstanding, lhN := k.lhN + 1 })
    fun _ _ => rfl⟩

lemma Settles.acquiresleep (h : Settles a k) (hp : a.proc p = k.proc p) (l : ℕ) :
    Settles (a.acquiresleep p l) (k.acquiresleep p l) := by
  obtain ⟨-, -, -, hlocked⟩ := h.log
  unfold Kernel.acquiresleep
  rw [hlocked, hp]
  split_ifs
  · exact h.sleepAddr hp _
  · exact (h.setSleeplocks hp _).only
      (fun k' => { k' with locked := Function.update k.locked l true }) fun _ _ => rfl

lemma Settles.releasesleep (h : Settles a k) (hp : a.proc p = k.proc p) (l : ℕ) :
    Settles (a.releasesleep p l) (k.releasesleep p l) := by
  obtain ⟨-, -, -, hlocked⟩ := h.log
  unfold Kernel.releasesleep
  rw [hlocked, hp]
  have hset := (h.setSleeplocks hp ((k.proc p).mypth.sleeplocks.erase l)).only
    (fun k' => { k' with locked := Function.update k.locked l false }) fun _ _ => rfl
  exact hset.wakeup1 _

/-! ### The step -/

/-- A step of `k` that does not give a process back is a step of `a`. -/
theorem Settles.step (h : Settles a k) (ha : Shape a) {o : Op} (hk : Step k o k')
    (ho : o.GivesBack = false) : ∃ a', Step a o a' ∧ Settles a' k' := by
  have hcur : ∀ {p}, k.cpu = .run p → a.cpu = .run p ∧ a.proc p = k.proc p := fun hp =>
    ⟨h.cpu.trans hp, h.sameCurrent ha (Or.inl hp)⟩
  unfold Step at hk ⊢
  cases o with
  | userinit n =>
    obtain ⟨hi, hk⟩ := Option.ite_none_right_eq_some.mp hk
    obtain ⟨a', ha', h'⟩ := h.userinit hk
    exact ⟨a', Option.ite_none_right_eq_some.mpr ⟨by rwa [h.rest], ha'⟩, h'⟩
  | pass =>
    obtain ⟨hi, hk⟩ := Option.ite_none_right_eq_some.mp hk
    obtain rfl := Option.some.inj hk
    exact ⟨_, Option.ite_none_right_eq_some.mpr ⟨h.cpu.trans hi, rfl⟩, h.pass _⟩
  | schedule =>
    obtain ⟨p, hp, hk⟩ := onSched_eq_some.mp hk
    obtain rfl := Option.some.inj hk
    exact ⟨_, onSched_eq_some.mpr ⟨p, h.cpu.trans hp, rfl⟩, h.schedule ha p⟩
  | timer =>
    obtain ⟨p, hp, hk⟩ := onCpu_eq_some.mp hk
    obtain ⟨hpa, hsame⟩ := hcur hp
    obtain rfl := Option.some.inj hk
    exact ⟨_, onCpu_eq_some.mpr ⟨p, hpa, rfl⟩, h.timer hsame⟩
  | wakeup n =>
    obtain ⟨hi, hk⟩ := Option.ite_none_right_eq_some.mp hk
    obtain rfl := Option.some.inj hk
    refine ⟨_, Option.ite_none_right_eq_some.mpr ⟨?_, rfl⟩, h.wakeup1 _⟩
    rwa [LockFree, h.cpu]
  | sleep n =>
    obtain ⟨p, hp, hk⟩ := onCpu_eq_some.mp hk
    obtain ⟨hpa, hsame⟩ := hcur hp
    obtain rfl := Option.some.inj hk
    exact ⟨_, onCpu_eq_some.mpr ⟨p, hpa, rfl⟩, h.sleepAddr hsame n⟩
  | kill pid =>
    obtain ⟨p, hp, hr, hk⟩ := syscall_eq_some.mp hk
    obtain ⟨hpa, hsame⟩ := hcur hp
    obtain rfl := Option.some.inj hk
    exact ⟨_, syscall_eq_some.mpr ⟨p, hpa, by rwa [hsame], rfl⟩, h.kill pid⟩
  | forkAlloc =>
    obtain ⟨p, hp, hr, hk⟩ := syscall_eq_some.mp hk
    obtain ⟨hpa, hsame⟩ := hcur hp
    obtain rfl := Option.some.inj hk
    exact ⟨_, syscall_eq_some.mpr ⟨p, hpa, by rwa [hsame], rfl⟩, h.forkAlloc ha hp⟩
  | forkStack page =>
    obtain ⟨p, hp, hk⟩ := onCpu_eq_some.mp hk
    obtain ⟨hpa, hsame⟩ := hcur hp
    cases page with
    | none => exact absurd ho (by simp [Op.GivesBack])
    | some n =>
      rcases forkStep_eq_some hk with ⟨np, pg, hc, he, hk⟩ | ⟨_, _, _, he, _⟩ | ⟨_, _, he, _⟩
      · obtain rfl := Op.forkStack.inj he
        obtain ⟨a', ha', h'⟩ := h.forkStack ha hp hc hk
        refine ⟨a', onCpu_eq_some.mpr ⟨p, hpa, ?_⟩, h'⟩
        rw [hsame, hc]
        exact ha'
      · exact absurd he (by simp)
      · exact absurd he (by simp)
  | forkCopy ok =>
    obtain ⟨p, hp, hk⟩ := onCpu_eq_some.mp hk
    obtain ⟨hpa, hsame⟩ := hcur hp
    cases ok with
    | false => exact absurd ho (by simp [Op.GivesBack])
    | true =>
      rcases forkStep_eq_some hk with ⟨_, _, _, he, _⟩ | ⟨np, b, hc, he, hk⟩ | ⟨_, _, he, _⟩
      · exact absurd he (by simp)
      · obtain rfl := Op.forkCopy.inj he
        obtain ⟨a', ha', h'⟩ := h.forkCopy ha hp hc hk
        refine ⟨a', onCpu_eq_some.mpr ⟨p, hpa, ?_⟩, h'⟩
        rw [hsame, hc]
        exact ha'
      · exact absurd he (by simp)
  | forkDone =>
    obtain ⟨p, hp, hk⟩ := onCpu_eq_some.mp hk
    obtain ⟨hpa, hsame⟩ := hcur hp
    rcases forkStep_eq_some hk with ⟨_, _, _, he, _⟩ | ⟨_, _, _, he, _⟩ | ⟨np, hc, -, rfl⟩
    · exact absurd he (by simp)
    · exact absurd he (by simp)
    · refine ⟨_, onCpu_eq_some.mpr ⟨p, hpa, ?_⟩, h.forkDone ha hp hc⟩
      rw [hsame, hc]
      rfl
  | exec sz =>
    obtain ⟨p, hp, hr, hk⟩ := syscall_eq_some.mp hk
    obtain ⟨hpa, hsame⟩ := hcur hp
    obtain ⟨hsz, hk⟩ := Option.ite_none_right_eq_some.mp hk
    obtain ⟨a', ha', h'⟩ := h.exec hsame hk
    exact ⟨a', syscall_eq_some.mpr ⟨p, hpa, by rwa [hsame],
      Option.ite_none_right_eq_some.mpr ⟨hsz, ha'⟩⟩, h'⟩
  | sbrk n avail =>
    obtain ⟨p, hp, hr, hk⟩ := syscall_eq_some.mp hk
    obtain ⟨hpa, hsame⟩ := hcur hp
    obtain ⟨hn, hk⟩ := Option.ite_none_right_eq_some.mp hk
    obtain ⟨a', ha', h'⟩ := h.growproc hsame hk
    exact ⟨a', syscall_eq_some.mpr ⟨p, hpa, by rwa [hsame],
      Option.ite_none_right_eq_some.mpr ⟨hn, ha'⟩⟩, h'⟩
  | exitBegin =>
    obtain ⟨p, hp, hr, hk⟩ := syscall_eq_some.mp hk
    obtain ⟨hpa, hsame⟩ := hcur hp
    obtain ⟨a', ha', h'⟩ := h.exitBegin hsame hk
    exact ⟨a', syscall_eq_some.mpr ⟨p, hpa, by rwa [hsame], ha'⟩, h'⟩
  | exitFile =>
    obtain ⟨p, hp, hk⟩ := onCpu_eq_some.mp hk
    obtain ⟨hpa, hsame⟩ := hcur hp
    obtain ⟨hout, hk⟩ := Option.ite_none_right_eq_some.mp hk
    rcases exitStep_eq_some hk with ⟨fd, hc, -, rfl⟩ | ⟨_, he, _⟩
    · refine ⟨_, onCpu_eq_some.mpr ⟨p, hpa, Option.ite_none_right_eq_some.mpr ⟨?_, ?_⟩⟩,
        h.exitFile hsame fd⟩
      · rwa [hsame]
      · rw [hsame, hc]
        rfl
    · exact absurd he (by simp)
  | exit =>
    obtain ⟨p, hp, hk⟩ := onCpu_eq_some.mp hk
    obtain ⟨hpa, hsame⟩ := hcur hp
    obtain ⟨hout, hk⟩ := Option.ite_none_right_eq_some.mp hk
    rcases exitStep_eq_some hk with ⟨_, _, he, _⟩ | ⟨hc, -, rfl⟩
    · exact absurd he (by simp)
    · refine ⟨_, onCpu_eq_some.mpr ⟨p, hpa, Option.ite_none_right_eq_some.mpr ⟨?_, ?_⟩⟩,
        h.exit hsame⟩
      · rwa [hsame]
      · rw [hsame, hc]
        rfl
  | wait =>
    obtain ⟨p, hp, hr, hk⟩ := syscall_eq_some.mp hk
    obtain ⟨hpa, hsame⟩ := hcur hp
    obtain ⟨a', ha', h'⟩ := h.wait ha (Or.inl hp) hk
    exact ⟨a', syscall_eq_some.mpr ⟨p, hpa, by rwa [hsame], ha'⟩, h'⟩
  | threadCreate page avail =>
    obtain ⟨p, hp, hr, hk⟩ := syscall_eq_some.mp hk
    obtain ⟨hpa, hsame⟩ := hcur hp
    obtain ⟨a', ha', h'⟩ := h.threadCreate hsame hk
    exact ⟨a', syscall_eq_some.mpr ⟨p, hpa, by rwa [hsame], ha'⟩, h'⟩
  | threadExit v =>
    obtain ⟨p, hp, hr, hk⟩ := syscall_eq_some.mp hk
    obtain ⟨hpa, hsame⟩ := hcur hp
    obtain rfl := Option.some.inj hk
    exact ⟨_, syscall_eq_some.mpr ⟨p, hpa, by rwa [hsame], rfl⟩, h.threadExit hsame v⟩
  | threadJoin t =>
    obtain ⟨p, hp, hr, hk⟩ := syscall_eq_some.mp hk
    obtain ⟨hpa, hsame⟩ := hcur hp
    obtain rfl := Option.some.inj hk
    exact ⟨_, syscall_eq_some.mpr ⟨p, hpa, by rwa [hsame], rfl⟩,
      h.threadJoin ha (Or.inl hp) t false⟩
  | resume =>
    obtain ⟨p, hp, hk⟩ := onResume_eq_some.mp hk
    have hsame := h.sameCurrent ha (Or.inr hp)
    rcases resumeStep_eq_some hk with ⟨hc, hk⟩ | ⟨t, havepth, hc, rfl⟩
    · obtain ⟨a', ha', h'⟩ := h.wait ha (Or.inr hp) hk
      refine ⟨a', onResume_eq_some.mpr ⟨p, h.cpu.trans hp, ?_⟩, h'⟩
      rw [hsame, hc]
      exact ha'
    · refine ⟨_, onResume_eq_some.mpr ⟨p, h.cpu.trans hp, ?_⟩,
        h.threadJoin ha (Or.inr hp) t havepth⟩
      rw [hsame, hc]
      rfl
  | fdalloc f =>
    obtain ⟨p, hp, hk⟩ := onCpu_eq_some.mp hk
    obtain ⟨hpa, hsame⟩ := hcur hp
    obtain ⟨hc, hk⟩ := Option.ite_none_right_eq_some.mp hk
    obtain rfl := Option.some.inj hk
    exact ⟨_, onCpu_eq_some.mpr ⟨p, hpa, Option.ite_none_right_eq_some.mpr ⟨by rwa [hsame], rfl⟩⟩,
      h.fdalloc hsame f⟩
  | close fd =>
    obtain ⟨p, hp, hk⟩ := onCpu_eq_some.mp hk
    obtain ⟨hpa, hsame⟩ := hcur hp
    obtain ⟨hc, hk⟩ := Option.ite_none_right_eq_some.mp hk
    obtain rfl := Option.some.inj hk
    exact ⟨_, onCpu_eq_some.mpr ⟨p, hpa, Option.ite_none_right_eq_some.mpr ⟨by rwa [hsame], rfl⟩⟩,
      h.updSame hsame _⟩
  | chdir ip =>
    obtain ⟨p, hp, hk⟩ := onCpu_eq_some.mp hk
    obtain ⟨hpa, hsame⟩ := hcur hp
    obtain ⟨hc, hk⟩ := Option.ite_none_right_eq_some.mp hk
    obtain rfl := Option.some.inj hk
    exact ⟨_, onCpu_eq_some.mpr ⟨p, hpa, Option.ite_none_right_eq_some.mpr ⟨by rwa [hsame], rfl⟩⟩,
      h.updSame hsame _⟩
  | beginOp =>
    obtain ⟨p, hp, hk⟩ := onCpu_eq_some.mp hk
    obtain ⟨hpa, hsame⟩ := hcur hp
    obtain ⟨hc, hk⟩ := Option.ite_none_right_eq_some.mp hk
    obtain rfl := Option.some.inj hk
    exact ⟨_, onCpu_eq_some.mpr ⟨p, hpa, Option.ite_none_right_eq_some.mpr ⟨by rwa [hsame], rfl⟩⟩,
      h.beginOp hsame⟩
  | endOp =>
    obtain ⟨p, hp, hk⟩ := onCpu_eq_some.mp hk
    obtain ⟨hpa, hsame⟩ := hcur hp
    obtain ⟨hc, hk⟩ := Option.ite_none_right_eq_some.mp hk
    obtain ⟨a', ha', h'⟩ := h.endOp hsame hk
    exact ⟨a', onCpu_eq_some.mpr ⟨p, hpa, Option.ite_none_right_eq_some.mpr
      ⟨by rwa [hsame], ha'⟩⟩, h'⟩
  | commitDone =>
    obtain ⟨p, hp, hk⟩ := onCpu_eq_some.mp hk
    obtain ⟨hpa, hsame⟩ := hcur hp
    obtain ⟨hc, hk⟩ := Option.ite_none_right_eq_some.mp hk
    obtain rfl := Option.some.inj hk
    exact ⟨_, onCpu_eq_some.mpr ⟨p, hpa, Option.ite_none_right_eq_some.mpr ⟨by rwa [hsame], rfl⟩⟩,
      h.commitDone hsame⟩
  | logWrite =>
    obtain ⟨p, hp, hk⟩ := onCpu_eq_some.mp hk
    obtain ⟨hpa, hsame⟩ := hcur hp
    obtain ⟨hc, hk⟩ := Option.ite_none_right_eq_some.mp hk
    obtain ⟨a', ha', h'⟩ := h.logWrite hk
    exact ⟨a', onCpu_eq_some.mpr ⟨p, hpa, Option.ite_none_right_eq_some.mpr
      ⟨by rwa [hsame], ha'⟩⟩, h'⟩
  | acquiresleep l =>
    obtain ⟨p, hp, hk⟩ := onCpu_eq_some.mp hk
    obtain ⟨hpa, hsame⟩ := hcur hp
    obtain rfl := Option.some.inj hk
    exact ⟨_, onCpu_eq_some.mpr ⟨p, hpa, rfl⟩, h.acquiresleep hsame l⟩
  | releasesleep l =>
    obtain ⟨p, hp, hk⟩ := onCpu_eq_some.mp hk
    obtain ⟨hpa, hsame⟩ := hcur hp
    obtain ⟨hl, hk⟩ := Option.ite_none_right_eq_some.mp hk
    obtain rfl := Option.some.inj hk
    exact ⟨_, onCpu_eq_some.mpr ⟨p, hpa, Option.ite_none_right_eq_some.mpr ⟨by rwa [hsame], rfl⟩⟩,
      h.releasesleep hsame l⟩

/-- A slot stays unused until `allocproc` takes it. -/
lemma Step.unused (hk : Shape k) {o : Op} (h : Step k o k') (hq : (k.proc q).state = .unused)
    (hno : o = .forkAlloc ∨ (∃ n, o = .userinit n) → k.unusedSlot ≠ some q) :
    (k'.proc q).state = .unused := by
  refine Changes.lift (R := fun x y => x.state = .unused → y.state = .unused) (fun _ h => h)
    (fun _ _ _ h h' hx => h' (h hx)) (fun x y hxy hx => ?_) (h.changes hk q) hq
  have hcur : ∀ {z : Proc}, k.cpu = .run q → Still (k.proc q) z → z.state ≠ .unused :=
    fun hp hz => (hz.state.live_iff.mpr (hk.alive_current (Or.inl hp))).ne_unused
  rcases hxy.still_or hk with hstill | hmajor
  · rwa [hstill.state.eq_iff State.not_live_unused]
  cases hmajor with
  | grow h =>
    obtain ⟨r, -, rfl⟩ := Option.map_eq_some_iff.mp h
    exact hx
  | commit | initAllpth | fsOp | sleeplocks | forkImage | joinPth => exact hx
  | exit hp _ _ _ hstill => exact absurd hx (hcur hp hstill)
  | threadExit c hp => exact absurd hx (hcur hp (still_wakeup1 _ c))
  | allocSlot hnp ho => exact absurd hnp (hno ho)
  | allocStack _ he | userinit _ he => exact absurd (hx.symm.trans he) State.noConfusion
  | allocFail | forkFail | reap => rfl
  | forkDone he => exact absurd (hx.symm.trans he) State.noConfusion
  | created hp => exact absurd hx (hk.alive_current (Or.inl hp)).ne_unused

end

/-! ### The steps of the finer system -/

section
variable {s s' : CallState} {o : CallOp} {a k k' : Kernel} {p q : Slot} {i : Tidx}

/-- The slot of a `fork` that is between its two stores is unused. -/
def UndoKept (s : CallState) : Prop :=
  ∀ q i np, s.call q i = .undo np → (s.kernel.proc np).state = .unused

/-- A `fork` that gives up frees its slot, and leaves the states of the other processes. -/
lemma giveUp_state {np : Slot} (h : giveUp k p (k.proc p).mypth.cont = some (np, k')) (q : Slot) :
    (k'.proc q).state = if q = np then .unused else (k.proc q).state := by
  have hupd : ∀ {k₁ : Kernel} {g : Proc → Proc}, k₁.proc = k.proc →
      (g (k.proc np)).state = .unused → (((k₁.updProc np g).setCont p .user).proc q).state =
        if q = np then .unused else (k.proc q).state := by
    intro k₁ g hk₁ hg
    rw [setCont_state, updProc_proc, hk₁]
    split_ifs
    · exact hg
    · rfl
  unfold giveUp at h
  split at h
  · obtain ⟨rfl, rfl⟩ := Prod.mk.inj (Option.some.inj h)
    exact hupd rfl rfl
  · obtain ⟨k₁, hk₁, h⟩ := Option.map_eq_some_iff.mp h
    obtain ⟨rfl, rfl⟩ := Prod.mk.inj h
    obtain ⟨-, rfl⟩ := kfree_eq_some.mp hk₁
    exact hupd rfl rfl
  · exact absurd h (by simp)

lemma UndoKept.step (hs : UndoKept s) (h : Settles a s.kernel) (ha : Shape a)
    (hstep : CallStep s o s') (hno : NoReuse s o) : UndoKept s' := by
  have hdoes := hstep.does
  intro q i np hc
  cases o with
  | op o =>
    obtain ⟨hallow, k, hk, rfl⟩ := hdoes
    rw [CallState.after_kernel]
    have hc₀ : s.call q i = .undo np := by
      rcases s.after_call o k q i with h | h | ⟨h, -⟩
      · rw [← h, hc]
      · exact absurd (hc.symm.trans h) (by simp)
      · exact absurd (hc.symm.trans h) (by simp)
    have hun := hs q i np hc₀
    obtain ⟨a', ha', h'⟩ := h.step ha hk (Call.not_givesBack hallow)
    rw [← (h'.proc np).state]
    refine ha'.unused ha ((h.proc np).state.trans hun) fun ho hnp => ?_
    rw [h.unusedSlot] at hnp
    rcases ho with rfl | ⟨n, rfl⟩
    · exact hno np hnp q i hc₀
    · exact hno np hnp q i hc₀
  | giveUp =>
    obtain ⟨p, np', k, -, -, hk, rfl⟩ := hdoes
    rw [CallState.next_kernel, giveUp_state hk]
    split_ifs with hnp
    · rfl
    · dsimp only [CallState.next] at hc
      split_ifs at hc
      rw [CallState.setCall_call] at hc
      split_ifs at hc with hmine
      · exact absurd (Call.undo.inj hc).symm hnp
      · exact hs q i np hc
  | undo =>
    obtain ⟨p, np', -, -, rfl⟩ := hdoes
    rw [CallState.next_kernel, updProc_proc]
    dsimp only [CallState.next] at hc
    split_ifs at hc
    rw [CallState.setCall_call] at hc
    split_ifs at hc
    have hun := hs q i np hc
    split_ifs with hnp
    · rw [hnp] at hun
      exact hun
    · exact hun
  | enter =>
    obtain ⟨p, -, -, -, rfl⟩ := hdoes
    rw [CallState.setCall_call] at hc
    split_ifs at hc
    exact hs q i np hc
  | leave =>
    obtain ⟨p, -, -, -, rfl⟩ := hdoes
    rw [CallState.setCall_call] at hc
    split_ifs at hc
    exact hs q i np hc

/-- How `step` answers an operation of the finer system. -/
def Answer (a a' : Kernel) : CallOp → Prop
  | .op o => Step a o a'
  | .giveUp => ∃ o : Op, o.GivesBack = true ∧ Step a o a'
  | _ => a' = a

/-- A `fork` that gives up is answered by one that makes both stores. -/
lemma Settles.giveUp (h : Settles a k) (ha : Shape a) (hp : k.cpu = .run p) {np : Slot}
    (hk : Threads.giveUp k p (k.proc p).mypth.cont = some (np, k')) :
    ∃ o : Op, o.GivesBack = true ∧ ∃ a', Step a o a' ∧ Settles a' k' := by
  have hsame := h.sameCurrent ha (Or.inl hp)
  have hpa := h.cpu.trans hp
  unfold Threads.giveUp at hk
  split at hk
  · rename_i np' hc
    have ht : (k.proc p).mypth.cont.target = some np' := by
      rw [hc]
      rfl
    obtain ⟨hnp, hem, hne⟩ := h.sameTarget ha hp ht
    obtain ⟨rfl, rfl⟩ := Prod.mk.inj (Option.some.inj hk)
    refine ⟨.forkStack none, rfl, (a.updProc np' Proc.allocFail).setCont p .user, ?_, ?_⟩
    · refine onCpu_eq_some.mpr ⟨p, hpa, ?_⟩
      rw [hsame, hc]
      rfl
    · refine Settles.setCont (h.updProc (Or.inr ⟨⟨rfl, ?_⟩, ?_⟩)) ?_ _
      · rw [← hnp]
        exact ((ha.proc np').embryo (by rw [hnp, hem])).1.1
      · rw [hnp, Proc.undo_allocGiveUp]
      · rw [updProc_of_ne _ _ hne.symm, updProc_of_ne _ _ hne.symm, hsame]
  · rename_i np' hc
    have ht : (k.proc p).mypth.cont.target = some np' := by
      rw [hc]
      rfl
    obtain ⟨hnp, hem, hne⟩ := h.sameTarget ha hp ht
    obtain ⟨k₁, hk₁, hk⟩ := Option.map_eq_some_iff.mp hk
    obtain ⟨rfl, rfl⟩ := Prod.mk.inj hk
    obtain ⟨a₁, ha₁, h₁, hpa₁, hpk₁⟩ := h.kfree hk₁
    refine ⟨.forkCopy false, rfl, (a₁.updProc np' Proc.forkFail).setCont p .user, ?_, ?_⟩
    · refine onCpu_eq_some.mpr ⟨p, hpa, ?_⟩
      rw [hsame, hc]
      refine Option.map_eq_some_iff.mpr ⟨a₁, ?_, rfl⟩
      rwa [hnp]
    · refine Settles.setCont (h₁.updProc (Or.inr ⟨⟨rfl, ?_⟩, ?_⟩)) ?_ _
      · rw [hpk₁, ← hnp, Proc.forkGiveUp]
        dsimp only
        rw [Proc.updPth_self]
        exact ((ha.proc np').embryo (by rw [hnp, hem])).1.1
      · rw [hpa₁, hpk₁, hnp, Proc.undo_forkGiveUp]
      · rw [updProc_of_ne _ _ hne.symm, updProc_of_ne _ _ hne.symm, hpa₁, hpk₁, hsame]
  · exact absurd hk (by simp)

/-- The second store. -/
lemma Settles.undo (h : Settles a k) (ha : Shape a) {np : Slot}
    (hnp : (k.proc np).state = .unused) : Settles a (k.updProc np Proc.undo) := by
  refine ⟨fun q => ?_, by rw [h.rest]; rfl⟩
  rw [updProc_proc]
  split_ifs with hq
  · subst hq
    rcases h.proc q with hq | ⟨-, hq⟩
    · -- the store has been made, or is not needed
      have h0 := (ha.proc q).unused (by rw [hq, hnp]) 0
      rw [hq] at h0
      refine Or.inl (hq.trans ?_)
      have hset : { (k.proc q).pth 0 with state := .unused } = (k.proc q).pth 0 := by rw [← h0]
      rw [Proc.undo, Proc.updPth, hset, Function.update_eq_self]
    · exact Or.inl hq
  · exact h.proc q

/-- **An operation of the finer system is answered by `step`.** -/
theorem Settles.callStep (h : Settles a s.kernel) (ha : Shape a) (hs : UndoKept s)
    (hstep : CallStep s o s') : ∃ a', Answer a a' o ∧ Settles a' s'.kernel := by
  have hdoes := hstep.does
  cases o with
  | op o =>
    obtain ⟨hallow, k, hk, rfl⟩ := hdoes
    rw [CallState.after_kernel]
    exact h.step ha hk (Call.not_givesBack hallow)
  | giveUp =>
    obtain ⟨p, np, k, hp, -, hk, rfl⟩ := hdoes
    obtain ⟨o, ho, a', ha', h'⟩ := h.giveUp ha hp hk
    exact ⟨a', ⟨o, ho, ha'⟩, h'⟩
  | undo =>
    obtain ⟨p, np, hp, hc, rfl⟩ := hdoes
    rw [CallState.mycall_eq hp] at hc
    exact ⟨a, rfl, h.undo ha (hs _ _ np hc)⟩
  | enter =>
    obtain ⟨p, -, -, -, rfl⟩ := hdoes
    exact ⟨a, rfl, h⟩
  | leave =>
    obtain ⟨p, -, -, -, rfl⟩ := hdoes
    exact ⟨a, rfl, h⟩

/-! ### The runs -/

lemma undoKept_pinit : UndoKept CallState.pinit :=
  fun _ _ _ h => absurd h (by simp [CallState.pinit])

lemma shape_of_guarded {C : Kernel → Op → Prop}
    (h : Reachable (· = Kernel.pinit) (Guarded Step C) a) : Shape a := by
  refine h.invariant (fun k hk => ?_) fun _ _ _ hk hstep => hk.step hstep.1
  subst hk
  exact shape_pinit

/-- **The runs of the finer system follow those of `step`**, under a condition that does not tell
the two kernels apart. -/
theorem follows {C : Kernel → Op → Prop}
    (hop : ∀ {a k o}, Shape a → Settles a k → C k o → C a o)
    (hback : ∀ {a o}, o.GivesBack = true → C a o)
    (h : Reachable (· = CallState.pinit) (Guarded CallStep (Meets C)) s) :
    ∃ a, Reachable (· = Kernel.pinit) (Guarded Step C) a ∧ Settles a s.kernel := by
  suffices hsim : ∃ a, Reachable (· = Kernel.pinit) (Guarded Step C) a ∧
      Settles a s.kernel ∧ UndoKept s by
    obtain ⟨a, ha, hset, -⟩ := hsim
    exact ⟨a, ha, hset⟩
  refine h.simulation (R := fun s a => Settles a s.kernel ∧ UndoKept s) ?_ ?_
  · rintro _ rfl
    exact ⟨Kernel.pinit, rfl, .refl _, undoKept_pinit⟩
  · rintro s a o s' hreach ⟨hset, hs⟩ ⟨hstep, hno, hC⟩
    have ha := shape_of_guarded hreach
    obtain ⟨a', hanswer, hset'⟩ := hset.callStep ha hs hstep
    refine ⟨a', ?_, hset', hs.step hset ha hstep hno⟩
    cases o with
    | op o => exact Or.inr ⟨o, hanswer, hop ha hset (hC o rfl)⟩
    | giveUp =>
      obtain ⟨o, ho, ha'⟩ := hanswer
      exact Or.inr ⟨o, ha', hback ho⟩
    | undo | enter | leave => exact Or.inl hanswer

/-- While no `fork` has failed, no slot waits for a store. -/
lemma meets_of_not_giveUp {C : CallState → CallOp → Prop}
    (h : Reachable (· = CallState.pinit) (Guarded CallStep fun s o => C s o ∧ o ≠ .giveUp) s) :
    (∀ q i np, s.call q i ≠ .undo np) ∧
      Reachable (· = CallState.pinit) (Guarded CallStep fun s o => NoReuse s o ∧ C s o) s := by
  induction h with
  | start h₀ =>
    subst h₀
    exact ⟨fun _ _ _ h => absurd h (by simp [CallState.pinit]), .start rfl⟩
  | @next s s' o _ hs ih =>
    obtain ⟨hstep, hC, hgive⟩ := hs
    obtain ⟨hnone, hreach⟩ := ih
    have hno : NoReuse s o := by
      unfold NoReuse
      split
      · exact fun np _ q i => hnone q i np
      · exact fun np _ q i => hnone q i np
      · trivial
    refine ⟨fun q i np hc => ?_, hreach.next ⟨hstep, hno, hC⟩⟩
    have hdoes := hstep.does
    cases o with
    | op o =>
      obtain ⟨-, k, -, rfl⟩ := hdoes
      rcases s.after_call o k q i with h | h | ⟨h, -⟩
      · exact hnone q i np (h.symm.trans hc)
      · exact absurd (hc.symm.trans h) (by simp)
      · exact absurd (hc.symm.trans h) (by simp)
    | giveUp => exact hgive rfl
    | undo =>
      obtain ⟨p, np', hp, hc', -⟩ := hdoes
      rw [CallState.mycall_eq hp] at hc'
      exact hnone _ _ _ hc'
    | enter =>
      obtain ⟨p, -, -, -, rfl⟩ := hdoes
      rw [CallState.setCall_call] at hc
      split_ifs at hc
      exact hnone q i np hc
    | leave =>
      obtain ⟨p, -, -, -, rfl⟩ := hdoes
      rw [CallState.setCall_call] at hc
      split_ifs at hc
      exact hnone q i np hc

end

end Xv6Projects.Threads
