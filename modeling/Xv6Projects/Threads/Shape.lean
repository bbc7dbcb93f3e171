import Xv6Projects.Threads.Current

/-!
# The shape of the table in every run

Creating, joining and ending processes and threads keeps the shape of the table, and so does
every run.
-/

namespace Xv6Projects.Threads

open Library Kernel

/-! ### `fork`, `wait`, `exec`, and the threads of one process -/

/-- The current thread goes on with the lock free, and constructs nothing. -/
lemma Shape.goOn {k : Kernel} (hk : Shape k) {p : Slot} (hp : k.Current p) {c : Cont}
    (hc : c.target = none) (hat : cpuAt p c = .run p) :
    Shape ((k.setCont p c).setCpu (.run p)) := by
  have hpth := (k.proc p).updMypth_pth fun t => { t with cont := c }
  have hrun := (hk.place p hp).1
  refine hk.upd hp (procShape_of_live (hk.alive_current hp) fun i => ?_) ?_ ?_ ?_ ?_
  · rw [hpth]
    split_ifs
    · rw [hrun]
      exact State.noConfusion
    · exact hk.not_embryo hp i
  · intro i hl
    rw [hpth] at hl ⊢
    split_ifs at hl ⊢
    · exact Or.inr hc
    · exact Or.inl ⟨hl, rfl⟩
  · intro i
    rw [hpth]
    split_ifs
    · intro h
      exact State.noConfusion (hrun.symm.trans h)
    · exact hk.chan p i
  · rintro q (h | h)
    · obtain rfl : p = q := by simpa using h
      refine ⟨rfl, ?_⟩
      have hmy : (((k.proc p).updMypth fun t => { t with cont := c })).mypth =
          { (k.proc p).mypth with cont := c } := (hpth _).trans (if_pos rfl)
      rw [hmy]
      exact ⟨hrun, hat.symm⟩
    · exact absurd h (by simp)
  · intro i hi
    rw [hpth] at hi
    split_ifs at hi with h
    · exact ⟨Or.inl rfl, h⟩
    · exact ⟨Or.inl rfl, (hk.running p i hi).2⟩

lemma setCpu_self {k : Kernel} {c : Cpu} (h : k.cpu = c) : k.setCpu c = k := by
  subst h
  rfl

lemma Shape.setCont {k : Kernel} (hk : Shape k) {p : Slot} (hp : k.cpu = .run p) {c : Cont}
    (hc : c.target = none) (hat : cpuAt p c = .run p) : Shape (k.setCont p c) := by
  have h := hk.goOn (Or.inl hp) hc hat
  rwa [setCpu_self (k := k.setCont p c) hp] at h

lemma setCont_pth (k : Kernel) (p : Slot) (c : Cont) (q : Slot) (i : Tidx) :
    ((k.setCont p c).proc q).pth i = if q = p ∧ i = (k.proc p).onTidx then
      { (k.proc p).mypth with cont := c } else (k.proc q).pth i := by
  rw [Kernel.setCont, updProc_proc]
  by_cases hq : q = p
  · subst hq
    rw [if_pos rfl, Proc.updMypth_pth]
    simp
  · rw [if_neg hq, if_neg (fun h => hq h.1)]

@[simp] lemma setCont_state (k : Kernel) (p : Slot) (c : Cont) (q : Slot) :
    ((k.setCont p c).proc q).state = (k.proc q).state := by
  rw [Kernel.setCont, updProc_proc]
  split_ifs with hq
  · rw [hq]
    rfl
  · rfl

@[simp] lemma setCont_parent (k : Kernel) (p : Slot) (c : Cont) (q : Slot) :
    ((k.setCont p c).proc q).parent = (k.proc q).parent := by
  rw [Kernel.setCont, updProc_proc]
  split_ifs with hq
  · rw [hq]
    rfl
  · rfl

@[simp] lemma setCont_onTidx (k : Kernel) (p : Slot) (c : Cont) (q : Slot) :
    ((k.setCont p c).proc q).onTidx = (k.proc q).onTidx := by
  rw [Kernel.setCont, updProc_proc]
  split_ifs with hq
  · rw [hq]
    rfl
  · rfl

@[simp] lemma setCont_cpu (k : Kernel) (p : Slot) (c : Cont) : (k.setCont p c).cpu = k.cpu := rfl

lemma setCont_live {k : Kernel} {p : Slot} {c : Cont} {q : Slot} {i : Tidx} :
    (k.setCont p c).Live q i ↔ k.Live q i := by
  rw [Kernel.Live, Kernel.Live, setCont_pth]
  split_ifs with h
  · rw [h.1, h.2]
    rfl
  · rfl

/-- Changes of two processes commute. -/
lemma updProc_comm (k : Kernel) {p q : Slot} (h : q ≠ p) (f g : Proc → Proc) :
    (k.updProc q g).updProc p f = (k.updProc p f).updProc q g := by
  have hq := updProc_of_ne k f h
  have hp := updProc_of_ne k g h.symm
  unfold Kernel.updProc at hp hq ⊢
  dsimp only at hp hq ⊢
  rw [hp, hq, Function.update_comm h]

lemma updProc_setCont (k : Kernel) {p np : Slot} (h : np ≠ p) (g : Proc → Proc) (c : Cont) :
    (k.updProc np g).setCont p c = (k.setCont p c).updProc np g :=
  updProc_comm k h _ g

/-- The current thread becomes the one that constructs `np`. -/
lemma Shape.setTarget {k : Kernel} (hk : Shape k) {p np : Slot} (hp : k.cpu = .run p) {c : Cont}
    (hc : c.target = some np) (hat : cpuAt p c = .run p)
    (hnp : (k.proc np).state = .embryo)
    (honly : ∀ q i, k.Live q i → ((k.proc q).pth i).cont.target = some np →
      q = p ∧ i = (k.proc p).onTidx)
    (horphan : ∀ np', c.Unfinished np' → (k.proc np').parent = none) :
    Shape (k.setCont p c) := by
  have hrun := (hk.place p (Or.inl hp)).1
  have hcont : ∀ q i, (q = p ∧ i = (k.proc p).onTidx) ∧
      ((((k.setCont p c).proc q).pth i).cont = c) ∨
      ¬(q = p ∧ i = (k.proc p).onTidx) ∧ ((k.setCont p c).proc q).pth i = (k.proc q).pth i := by
    intro q i
    rw [setCont_pth]
    split_ifs with h
    · exact Or.inl ⟨h, rfl⟩
    · exact Or.inr ⟨h, rfl⟩
  have hst : ∀ q i, (((k.setCont p c).proc q).pth i).state = ((k.proc q).pth i).state := by
    intro q i
    rw [setCont_pth]
    split_ifs with h
    · rw [h.1, h.2]
      rfl
    · rfl
  constructor
  · intro q
    by_cases hq : q = p
    · subst hq
      refine procShape_of_live ?_ fun i => ?_
      · rw [setCont_state]
        exact hk.alive_current (Or.inl hp)
      · rw [hst]
        exact hk.not_embryo (Or.inl hp) i
    · rw [Kernel.setCont, updProc_of_ne _ _ hq]
      exact hk.proc q
  · intro q hq
    have hqp : q = p := by
      rcases hq with hq | hq
      · exact (Cpu.run.inj (hp.symm.trans hq)).symm
      · exact absurd (hp.symm.trans hq) (by simp)
    subst hqp
    have hmy : ((k.setCont q c).proc q).mypth = { (k.proc q).mypth with cont := c } := by
      rw [Proc.mypth, setCont_onTidx, setCont_pth, if_pos ⟨rfl, rfl⟩]
    rw [hmy]
    exact ⟨hrun, hp.trans hat.symm⟩
  · intro q i hi
    rw [hst] at hi
    rw [setCont_onTidx]
    exact hk.running q i hi
  · intro q i np' hl ht
    rw [setCont_state]
    rcases hcont q i with ⟨-, h⟩ | ⟨-, h⟩
    · rw [h, hc] at ht
      rwa [← Option.some.inj ht]
    · rw [h] at ht
      exact hk.target q i np' (setCont_live.mp hl) ht
  · intro q i r j np' hl hl' ht ht'
    rcases hcont q i with ⟨⟨rfl, rfl⟩, h⟩ | ⟨hne, h⟩ <;>
      rcases hcont r j with ⟨⟨rfl, rfl⟩, h'⟩ | ⟨hne', h'⟩
    · exact ⟨rfl, rfl⟩
    · rw [h, hc] at ht
      rw [h', ← ht] at ht'
      exact absurd (honly r j (setCont_live.mp hl') ht') hne'
    · rw [h', hc] at ht'
      rw [h, ← ht'] at ht
      exact absurd (honly q i (setCont_live.mp hl) ht) hne
    · rw [h] at ht
      rw [h'] at ht'
      exact hk.owner q i r j np' (setCont_live.mp hl) (setCont_live.mp hl') ht ht'
  · intro q i np' hl hu
    rw [setCont_parent]
    rcases hcont q i with ⟨-, h⟩ | ⟨-, h⟩
    · rw [h] at hu
      exact horphan np' hu
    · rw [h] at hu
      exact hk.orphan q i np' (setCont_live.mp hl) hu
  · intro q i hs
    rcases hcont q i with ⟨⟨rfl, rfl⟩, -⟩ | ⟨-, h⟩
    · rw [hst] at hs
      exact State.noConfusion (hrun.symm.trans hs)
    · rw [h] at hs ⊢
      exact hk.chan q i hs

/-- A process that is unused or under construction is changed; its first thread may become
runnable. -/
lemma Shape.fresh {k : Kernel} (hk : Shape k) {np : Slot} {g : Proc → Proc}
    (hold : ∀ i, ¬k.Live np i) (hproc : ProcShape (g (k.proc np)))
    (htarget : ∀ q i, k.Live q i → ((k.proc q).pth i).cont.target = some np →
      (g (k.proc np)).state = .embryo ∧
        (((k.proc q).pth i).cont.Unfinished np → (g (k.proc np)).parent = none))
    (hlive : ∀ i, ((g (k.proc np)).pth i).state.Live →
      ((g (k.proc np)).pth i).state = .runnable ∧ ((g (k.proc np)).pth i).cont = .user) :
    Shape (k.updProc np g) := by
  set k' := k.updProc np g with hk'
  have hself : k'.proc np = g (k.proc np) := by simp [hk']
  have hother : ∀ {r}, r ≠ np → k'.proc r = k.proc r := fun hr => by
    simp [hk', updProc_of_ne _ _ hr]
  have hnotcur : ∀ {q}, k.Current q → q ≠ np := by
    rintro q hq rfl
    exact hold _ (hk.live_current hq)
  -- the threads of `np` construct nothing
  have hbefore : ∀ {q i np'}, k'.Live q i → ((k'.proc q).pth i).cont.target = some np' →
      q ≠ np ∧ k.Live q i ∧ ((k.proc q).pth i).cont.target = some np' := by
    intro q i np' hl ht
    by_cases hq : q = np
    · subst hq
      rw [Kernel.Live, hself] at hl
      rw [hself, (hlive i hl).2] at ht
      exact absurd ht (by simp [Cont.target])
    · rw [Kernel.Live, hother hq] at hl
      rw [hother hq] at ht
      exact ⟨hq, hl, ht⟩
  constructor
  · intro q
    by_cases hq : q = np
    · subst hq
      rwa [hself]
    · rw [hother hq]
      exact hk.proc q
  · intro q hq
    rw [hother (hnotcur hq)]
    exact hk.place q hq
  · intro q i hi
    by_cases hq : q = np
    · subst hq
      rw [hself] at hi
      have h := (hlive i (Or.inr (Or.inr hi))).1
      exact State.noConfusion (hi.symm.trans h)
    · rw [hother hq] at hi ⊢
      exact hk.running q i hi
  · intro q i np' hl ht
    obtain ⟨-, hl₀, ht₀⟩ := hbefore hl ht
    by_cases hn : np' = np
    · subst hn
      rw [hself]
      exact (htarget q i hl₀ ht₀).1
    · rw [hother hn]
      exact hk.target q i np' hl₀ ht₀
  · intro q i r j np' hl hl' ht ht'
    obtain ⟨-, hl₀, ht₀⟩ := hbefore hl ht
    obtain ⟨-, hl₁, ht₁⟩ := hbefore hl' ht'
    exact hk.owner q i r j np' hl₀ hl₁ ht₀ ht₁
  · intro q i np' hl hu
    obtain ⟨hq, hl₀, ht₀⟩ := hbefore hl hu.target
    rw [hother hq] at hu
    by_cases hn : np' = np
    · subst hn
      rw [hself]
      exact (htarget q i hl₀ ht₀).2 hu
    · rw [hother hn]
      exact hk.orphan q i np' hl₀ hu
  · intro q i hs
    by_cases hq : q = np
    · subst hq
      rw [hself] at hs
      have h := (hlive i (Or.inl hs)).1
      exact State.noConfusion (hs.symm.trans h)
    · rw [hother hq] at hs ⊢
      exact hk.chan q i hs

lemma ProcShape.not_live_of_unused {x : Proc} (hx : ProcShape x) (h : x.state = .unused)
    (i : Tidx) : ¬(x.pth i).state.Live := by
  intro hl
  exact hl.ne_unused (hx.unused h i)

lemma ProcShape.not_live_of_embryo {x : Proc} (hx : ProcShape x) (h : x.state = .embryo)
    (i : Tidx) : ¬(x.pth i).state.Live := by
  intro hl
  exact (hx.alive hl).ne_embryo h

lemma unusedSlot_state {k : Kernel} {np : Slot} (h : k.unusedSlot = some np) :
    (k.proc np).state = .unused := by
  simpa using List.find?_some h

lemma allocSlot_self (k : Kernel) (np : Slot) :
    (k.allocSlot np).proc np = (k.proc np).allocSlot k.nextpid k.nextTid :=
  updProc_self k np (·.allocSlot k.nextpid k.nextTid)

lemma allocSlot_of_ne {k : Kernel} {np q : Slot} (h : q ≠ np) :
    (k.allocSlot np).proc q = k.proc q :=
  updProc_of_ne k (·.allocSlot k.nextpid k.nextTid) h

/-- Only the first thread is changed by the steps that create a process. -/
lemma Proc.allocSlot_pth {x : Proc} {pid tid : ℤ} {i : Tidx} (hi : i ≠ 0) :
    (x.allocSlot pid tid).pth i = x.pth i := Function.update_of_ne hi _ _

lemma Proc.allocStack_pth {x : Proc} {n : ℕ} {i : Tidx} (hi : i ≠ 0) :
    (x.allocStack n).pth i = x.pth i := Function.update_of_ne hi _ _

lemma Proc.allocFail_pth {x : Proc} {i : Tidx} (hi : i ≠ 0) : x.allocFail.pth i = x.pth i :=
  Function.update_of_ne hi _ _

lemma Proc.userinit_pth {x : Proc} {i : Tidx} (hi : i ≠ 0) : x.userinit.pth i = x.pth i :=
  Function.update_of_ne hi _ _

lemma Proc.forkFail_pth {x : Proc} {i : Tidx} (hi : i ≠ 0) : x.forkFail.pth i = x.pth i :=
  Function.update_of_ne hi _ _

lemma Proc.forkDone_pth {x : Proc} {i : Tidx} (hi : i ≠ 0) : x.forkDone.pth i = x.pth i :=
  Function.update_of_ne hi _ _

@[simp] lemma Proc.allocSlot_first (x : Proc) (pid tid : ℤ) : (x.allocSlot pid tid).pth 0 =
    { x.pth 0 with
      state := .embryo, tid := tid, cont := .user, fsOp := .out, sleeplocks := [] } := by
  simp [Proc.allocSlot]

@[simp] lemma Proc.allocStack_first (x : Proc) (n : ℕ) :
    (x.allocStack n).pth 0 = { x.pth 0 with kstack := n } := by
  simp [Proc.allocStack]

@[simp] lemma Proc.allocFail_first (x : Proc) :
    x.allocFail.pth 0 = { x.pth 0 with state := .unused } := by simp [Proc.allocFail]

@[simp] lemma Proc.userinit_first (x : Proc) :
    x.userinit.pth 0 = { x.pth 0 with state := .runnable } := by simp [Proc.userinit]

@[simp] lemma Proc.forkFail_first (x : Proc) :
    x.forkFail.pth 0 = { x.pth 0 with kstack := 0, state := .unused } := by simp [Proc.forkFail]

@[simp] lemma Proc.forkDone_first (x : Proc) :
    x.forkDone.pth 0 = { x.pth 0 with state := .runnable } := by simp [Proc.forkDone]

/-- A process whose only thread is under construction. -/
lemma procShape_embryo {x : Proc} (hs : x.state = .embryo) (h0 : (x.pth 0).state = .embryo)
    (hc : (x.pth 0).cont = .user) (h : ∀ i, i ≠ 0 → (x.pth i).state = .unused) : ProcShape x where
  unused hu := State.noConfusion (hs.symm.trans hu)
  embryo _ := ⟨⟨h0, hc⟩, h⟩
  zombie hz := State.noConfusion (hs.symm.trans hz)
  notEmbryo hne := absurd hs hne
  parent hu := State.noConfusion (hs.symm.trans hu)

lemma Shape.allocSlot {k : Kernel} (hk : Shape k) {np : Slot}
    (hnp : (k.proc np).state = .unused) : Shape (k.allocSlot np) := by
  have hun := (hk.proc np).unused hnp
  refine Shape.congr (k := k.updProc np (·.allocSlot k.nextpid k.nextTid)) ?_ rfl rfl
  have hne : ∀ i, i ≠ 0 →
      (((k.proc np).allocSlot k.nextpid k.nextTid).pth i).state = .unused := by
    intro i hi
    rw [Proc.allocSlot_pth hi]
    exact hun i
  refine hk.fresh ((hk.proc np).not_live_of_unused hnp) ?_ ?_ ?_
  · exact procShape_embryo rfl (by simp) (by simp) hne
  · intro q i hl ht
    exact State.noConfusion (hnp.symm.trans (hk.target q i np hl ht))
  · intro i hl
    by_cases hi : i = 0
    · subst hi
      simp [State.Live] at hl
    · exact absurd (hne i hi) hl.ne_unused

lemma Shape.forkAlloc {k : Kernel} (hk : Shape k) {p : Slot} (hp : k.cpu = .run p) :
    Shape (k.forkAlloc p) := by
  unfold Kernel.forkAlloc
  split
  · exact hk
  · rename_i np hnp
    have hst := unusedSlot_state hnp
    have hne : p ≠ np := by
      rintro rfl
      exact (hk.alive_current (Or.inl hp)).ne_unused hst
    have hk' := hk.allocSlot hst
    have hnot : ∀ q i, (k.allocSlot np).Live q i →
        (((k.allocSlot np).proc q).pth i).cont.target ≠ some np := by
      intro q i hl ht
      by_cases hq : q = np
      · subst hq
        refine (hk'.proc q).not_live_of_embryo ?_ i hl
        rw [allocSlot_self]
        rfl
      · rw [Kernel.Live, allocSlot_of_ne hq] at hl
        rw [allocSlot_of_ne hq] at ht
        exact State.noConfusion (hst.symm.trans (hk.target q i np hl ht))
    have ht : (Cont.forkStack np).target = some np := rfl
    refine hk'.setTarget hp ht rfl ?_ (fun q i hl ht => absurd ht (hnot q i hl)) ?_
    · rw [allocSlot_self]
      rfl
    · rintro np' (h | h)
      · obtain rfl : np = np' := by simpa using h
        rw [allocSlot_self]
        exact (hk.proc np).parent hst
      · exact absurd h (by simp)

/-- Where the current thread constructs `np`, no other thread does. -/
lemma Shape.only {k : Kernel} (hk : Shape k) {p np : Slot} (hp : k.Current p)
    (hc : (k.proc p).mypth.cont.target = some np) {q : Slot} {i : Tidx} (hl : k.Live q i)
    (ht : ((k.proc q).pth i).cont.target = some np) : q = p ∧ i = (k.proc p).onTidx :=
  let ⟨h, h'⟩ := hk.owner p _ q i np (hk.live_current hp) hl hc ht
  ⟨h.symm, h'.symm⟩

lemma Shape.target_ne {k : Kernel} (hk : Shape k) {p np : Slot} (hp : k.Current p)
    (hc : (k.proc p).mypth.cont.target = some np) : np ≠ p := by
  rintro rfl
  exact (hk.alive_current hp).ne_embryo (hk.target _ _ _ (hk.live_current hp) hc)

/-- After the current thread has given up `np`, no thread constructs it. -/
lemma Shape.no_target {k : Kernel} (hk : Shape k) {p np : Slot} (hp : k.Current p)
    (hc : (k.proc p).mypth.cont.target = some np) {c : Cont} (hcn : c.target = none) {q : Slot}
    {i : Tidx} (hl : (k.setCont p c).Live q i)
    (ht : (((k.setCont p c).proc q).pth i).cont.target = some np) : False := by
  rw [setCont_pth] at ht
  split_ifs at ht with h
  · exact absurd (hcn.symm.trans ht) (by simp)
  · exact h (hk.only hp hc (setCont_live.mp hl) ht)

/-- The end of `fork`, when it has failed: slot `np` is unused again. -/
lemma Shape.forkGiveUp {k : Kernel} (hk : Shape k) {p np : Slot} (hp : k.cpu = .run p)
    (hc : (k.proc p).mypth.cont.Unfinished np) {g : Proc → Proc}
    (hstate : (g (k.proc np)).state = .unused)
    (hparent : (g (k.proc np)).parent = (k.proc np).parent)
    (h0 : ((g (k.proc np)).pth 0).state = .unused)
    (hpth : ∀ i, i ≠ 0 → (g (k.proc np)).pth i = (k.proc np).pth i) :
    Shape ((k.updProc np g).setCont p .user) := by
  have hne := hk.target_ne (Or.inl hp) hc.target
  have hemb := hk.target _ _ _ (hk.live_current (Or.inl hp)) hc.target
  have horphan := hk.orphan _ _ _ (hk.live_current (Or.inl hp)) hc
  have hall : ∀ i, ((g (k.proc np)).pth i).state = .unused := by
    intro i
    by_cases hi : i = 0
    · rw [hi, h0]
    · rw [hpth i hi]
      exact ((hk.proc np).embryo hemb).2 i hi
  rw [updProc_setCont k hne]
  have hk' := hk.setCont hp (c := .user) rfl rfl
  have hsame : (k.setCont p .user).proc np = k.proc np := updProc_of_ne k _ hne
  refine hk'.fresh ?_ ?_ ?_ ?_
  · intro i hl
    exact (hk.proc np).not_live_of_embryo hemb i (setCont_live.mp hl)
  · rw [hsame]
    refine ⟨fun _ => hall, ?_, fun _ i hl => hl.ne_unused (hall i), fun _ i h => ?_, fun _ => ?_⟩
    · exact fun h => State.noConfusion (hstate.symm.trans h)
    · exact State.noConfusion ((hall i).symm.trans h)
    · rw [hparent, horphan]
  · intro q i hl ht
    exact (hk.no_target (Or.inl hp) hc.target rfl hl ht).elim
  · intro i hl
    rw [hsame] at hl
    exact absurd (hall i) hl.ne_unused

lemma kalloc_eq_some {k k' : Kernel} {p : Slot} {n : ℕ} : k.kalloc p n = some k' ↔
    (n ≠ 0 ∧ k.kmem n = none) ∧ k' = { k with kmem := Function.update k.kmem n (some p) } := by
  unfold Kernel.kalloc
  split_ifs with h
  · simp [h, eq_comm]
  · simp [h]

/-- `kfree` changes nothing but the allocator. -/
lemma kfreeAll_eq {k k' : Kernel} {ns : List ℕ} (h : k.kfreeAll ns = some k') :
    ∃ m b, k' = { k with kmem := m, refreed := b } := by
  induction ns generalizing k with
  | nil =>
    obtain rfl := Option.some.inj h
    exact ⟨_, _, rfl⟩
  | cons n ns ih =>
    obtain ⟨k₁, h₁, h₂⟩ := Option.bind_eq_some_iff.mp h
    obtain ⟨m, b, rfl⟩ := ih h₂
    unfold Kernel.kfree at h₁
    split_ifs at h₁
    obtain rfl := Option.some.inj h₁
    exact ⟨_, _, rfl⟩

lemma kfree_eq_some {k k' : Kernel} {n : ℕ} : k.kfree n = some k' ↔
    n ≠ 0 ∧ k' = { k with
      kmem := Function.update k.kmem n none
      refreed := k.refreed || (k.kmem n).isNone } := by
  unfold Kernel.kfree
  split_ifs with h
  · simp [h]
  · simp [h, eq_comm]

lemma calmProc_allocStack (x : Proc) (n : ℕ) : CalmProc x (x.allocStack n) := by
  refine ⟨rfl, fun h => h, Or.inl rfl, fun i => ?_, fun i => ?_, fun i => ?_⟩
  all_goals
    by_cases hi : i = 0
  · rw [hi, Proc.allocStack_first]
    exact Or.inl rfl
  · rw [Proc.allocStack_pth hi]
    exact Or.inl rfl
  · rw [hi, Proc.allocStack_first]
  · rw [Proc.allocStack_pth hi]
  · rw [hi, Proc.allocStack_first]
  · rw [Proc.allocStack_pth hi]

lemma calm_allocStack {k k' : Kernel} {np : Slot} {n : ℕ} (h : k.allocStack np n = some k') :
    Calm k k' := by
  obtain ⟨k₁, h₁, rfl⟩ := Option.map_eq_some_iff.mp h
  obtain ⟨-, rfl⟩ := kalloc_eq_some.mp h₁
  refine Calm.trans ?_ (calm_updProc (calmProc_allocStack _ n))
  exact calm_of_eq rfl rfl

lemma Shape.forkStack {k k' : Kernel} (hk : Shape k) {p np : Slot} (hp : k.cpu = .run p)
    (hc : (k.proc p).mypth.cont = .forkStack np) {page : Option ℕ}
    (h : k.forkStack p np page = some k') : Shape k' := by
  cases page with
  | none =>
    obtain rfl := Option.some.inj h
    exact hk.forkGiveUp hp (Or.inl hc) rfl rfl (by simp) fun i => Proc.allocFail_pth
  | some n =>
    obtain ⟨k₁, h₁, rfl⟩ := Option.map_eq_some_iff.mp h
    have hcalm := calm_allocStack h₁
    have hk₁ := hcalm.shape hk
    have hp₁ : k₁.cpu = .run p := hcalm.cpu.trans hp
    have hc₁ : (k₁.proc p).mypth.cont = .forkStack np := by
      rw [Proc.mypth, hcalm.onTidx, hcalm.cont]
      exact hc
    have hu : (k₁.proc p).mypth.cont.Unfinished np := Or.inl hc₁
    have hl := hk₁.live_current (Or.inl hp₁)
    have ht : (Cont.forkCopy np).target = some np := rfl
    refine hk₁.setTarget hp₁ ht rfl (hk₁.target _ _ _ hl hu.target)
      (fun q i hl' ht => hk₁.only (Or.inl hp₁) hu.target hl' ht) ?_
    rintro np' (h | h)
    · exact absurd h (by simp)
    · obtain rfl : np = np' := by simpa using h
      exact hk₁.orphan _ _ _ hl hu

lemma Shape.forkCopy {k k' : Kernel} (hk : Shape k) {p np : Slot} (hp : k.cpu = .run p)
    (hc : (k.proc p).mypth.cont = .forkCopy np) {ok : Bool}
    (h : k.forkCopy p np ok = some k') : Shape k' := by
  have hu : (k.proc p).mypth.cont.Unfinished np := Or.inr hc
  cases ok with
  | false =>
    obtain ⟨k₁, h₁, rfl⟩ := Option.map_eq_some_iff.mp h
    obtain ⟨-, rfl⟩ := kfree_eq_some.mp h₁
    set k₁ : Kernel := { k with
      kmem := Function.update k.kmem ((k.proc np).pth 0).kstack none
      refreed := k.refreed || (k.kmem ((k.proc np).pth 0).kstack).isNone } with hk₁
    have hshape : Shape k₁ := hk.congr rfl rfl
    exact hshape.forkGiveUp hp hu rfl rfl (by simp) fun i => Proc.forkFail_pth
  | true =>
    have hne := hk.target_ne (Or.inl hp) hu.target
    have hl := hk.live_current (Or.inl hp)
    have hemb := hk.target _ _ _ hl hu.target
    unfold Kernel.forkCopy at h
    rw [if_pos rfl] at h
    split_ifs at h
    obtain rfl := Option.some.inj h
    rw [updProc_setCont k hne]
    have hk' : Shape (k.setCont p (.forkDone np)) := by
      have ht : (Cont.forkDone np).target = some np := rfl
      refine hk.setTarget hp ht rfl hemb
        (fun q i hl' ht => hk.only (Or.inl hp) hu.target hl' ht) ?_
      rintro np' (h | h) <;> exact absurd h (by simp)
    have hsame : (k.setCont p (.forkDone np)).proc np = k.proc np := updProc_of_ne k _ hne
    have hnl := (hk.proc np).not_live_of_embryo hemb
    refine hk'.fresh (fun i hl' => hnl i (setCont_live.mp hl')) ?_ ?_ ?_
    · rw [hsame]
      obtain ⟨h0, hrest⟩ := (hk.proc np).embryo hemb
      exact procShape_embryo hemb h0.1 h0.2 hrest
    · intro q i hl' ht
      rw [hsame]
      refine ⟨hemb, fun hun => ?_⟩
      rw [setCont_pth] at ht hun
      split_ifs at ht hun with hqi
      · rcases hun with hun | hun <;> exact absurd hun (by simp)
      · exact absurd (hk.only (Or.inl hp) hu.target (setCont_live.mp hl') ht) hqi
    · intro i hl'
      rw [hsame] at hl'
      exact absurd hl' (hnl i)

lemma Shape.forkDone {k : Kernel} (hk : Shape k) {p np : Slot} (hp : k.cpu = .run p)
    (hc : (k.proc p).mypth.cont = .forkDone np) : Shape (k.forkDone p np) := by
  have ht : (k.proc p).mypth.cont.target = some np := by rw [hc]; rfl
  have hne := hk.target_ne (Or.inl hp) ht
  have hemb := hk.target _ _ _ (hk.live_current (Or.inl hp)) ht
  obtain ⟨h0, hrest⟩ := (hk.proc np).embryo hemb
  unfold Kernel.forkDone
  rw [updProc_setCont k hne]
  have hk' := hk.setCont hp (c := .user) rfl rfl
  have hsame : (k.setCont p .user).proc np = k.proc np := updProc_of_ne k _ hne
  have hpth : ∀ i, i ≠ 0 → ((k.proc np).forkDone.pth i).state = .unused := by
    intro i hi
    rw [Proc.forkDone_pth hi]
    exact hrest i hi
  refine hk'.fresh ?_ ?_ ?_ ?_
  · intro i hl
    exact (hk.proc np).not_live_of_embryo hemb i (setCont_live.mp hl)
  · rw [hsame]
    refine procShape_of_live (Or.inr (Or.inl rfl)) fun i => ?_
    by_cases hi : i = 0
    · subst hi
      simp
    · rw [hpth i hi]
      exact State.noConfusion
  · intro q i hl ht'
    exact (hk.no_target (Or.inl hp) ht rfl hl ht').elim
  · intro i hl
    rw [hsame] at hl ⊢
    by_cases hi : i = 0
    · subst hi
      rw [Proc.forkDone_first]
      exact ⟨rfl, h0.2⟩
    · exact absurd (hpth i hi) hl.ne_unused

lemma Shape.userinit {k k' : Kernel} (hk : Shape k) {n : ℕ} (h : k.userinit n = some k') :
    Shape k' := by
  obtain ⟨np, hnp, h⟩ := Option.bind_eq_some_iff.mp h
  obtain ⟨k₁, h₁, rfl⟩ := Option.map_eq_some_iff.mp h
  have hst := unusedSlot_state hnp
  have hun := (hk.proc np).unused hst
  obtain ⟨k₂, h₂, rfl⟩ := Option.map_eq_some_iff.mp h₁
  obtain ⟨-, rfl⟩ := kalloc_eq_some.mp h₂
  -- the three changes of slot `np` are one
  set g : Proc → Proc := fun x => ((x.allocSlot k.nextpid k.nextTid).allocStack n).userinit with hg
  have hproc : ∀ x i, i ≠ 0 → (g x).pth i = x.pth i := by
    intro x i hi
    rw [hg]
    dsimp only
    rw [Proc.userinit_pth hi, Proc.allocStack_pth hi, Proc.allocSlot_pth hi]
  have hfirst : ∀ x, ((g x).pth 0).state = .runnable ∧ ((g x).pth 0).cont = .user := by
    intro x
    simp [hg]
  have hshape : Shape (k.updProc np g) := by
    refine hk.fresh ((hk.proc np).not_live_of_unused hst) ?_ ?_ ?_
    · refine procShape_of_live (Or.inr (Or.inl rfl)) fun i => ?_
      by_cases hi : i = 0
      · rw [hi, (hfirst _).1]
        exact State.noConfusion
      · rw [hproc _ i hi, hun i]
        exact State.noConfusion
    · intro q i hl ht
      exact State.noConfusion (hst.symm.trans (hk.target q i np hl ht))
    · intro i hl
      by_cases hi : i = 0
      · rw [hi]
        exact hfirst _
      · rw [hproc _ i hi] at hl
        exact absurd (hun i) hl.ne_unused
  refine hshape.congr ?_ rfl
  funext q
  by_cases hq : q = np
  · subst hq
    simp [Kernel.updProc, Kernel.allocSlot, hg]
  · simp [Kernel.updProc, Kernel.allocSlot, hq]

/-- What the reaped slot of `wait` looks like. -/
lemma find_zombie {k : Kernel} {p q : Slot}
    (h : slots.find? (fun q => (k.proc q).parent = some p ∧ (k.proc q).state = .zombie) = some q) :
    (k.proc q).parent = some p ∧ (k.proc q).state = .zombie := by
  simpa using List.find?_some h

lemma Shape.reap {k k' : Kernel} (hk : Shape k) {q : Slot} (hq : (k.proc q).state = .zombie)
    (h : k.reap q = some k') : Shape k' := by
  obtain ⟨k₁, h₁, rfl⟩ := Option.map_eq_some_iff.mp h
  obtain ⟨m, b, rfl⟩ := kfreeAll_eq h₁
  have hk₁ : Shape { k with kmem := m, refreed := b } := hk.congr rfl rfl
  refine hk₁.updLess ?_ ?_ ?_ ?_
  · exact fun he => State.noConfusion (hq.symm.trans he)
  · exact ⟨fun _ _ => rfl, fun h => State.noConfusion h, fun h => State.noConfusion h,
      fun _ _ h => State.noConfusion h, fun _ => rfl⟩
  · exact fun i hl => absurd rfl hl.ne_unused
  · exact fun hc => absurd hq (hk.alive_current hc).ne_zombie

lemma Shape.wait {k k' : Kernel} (hk : Shape k) {p : Slot} (hp : k.Current p)
    (h : k.wait p = some k') : Shape k' := by
  unfold Kernel.wait at h
  split at h
  · rename_i q hq
    obtain ⟨k₁, h₁, rfl⟩ := Option.map_eq_some_iff.mp h
    have hk₁ := hk.reap (find_zombie hq).2 h₁
    obtain ⟨k₂, h₂, rfl⟩ := Option.map_eq_some_iff.mp h₁
    obtain ⟨m, b, rfl⟩ := kfreeAll_eq h₂
    exact hk₁.goOn hp rfl rfl
  · split_ifs at h
    · obtain rfl := Option.some.inj h
      refine hk.sleep hp (Or.inr rfl) (fun _ => rfl) fun t b hj => ?_
      exact absurd hj (by simp)
    · obtain rfl := Option.some.inj h
      exact hk.goOn hp rfl rfl

lemma Proc.initAllpth_pth (x : Proc) (i j : Tidx) : (x.initAllpth i).pth j = if j = i then x.pth j
    else { x.pth j with kstack := 0, state := .unused, tid := 0 } := rfl

lemma Shape.exec {k k' : Kernel} (hk : Shape k) {p : Slot} (hp : k.cpu = .run p) {sz : ℕ}
    (h : k.exec p sz = some k') : Shape k' := by
  have hcalm : Calm k (k.updProc p fun x => x.commit sz) :=
    calm_updProc (CalmProc.of_eq rfl rfl rfl rfl)
  obtain ⟨k₁, h₁, rfl⟩ := Option.map_eq_some_iff.mp h
  obtain ⟨m, b, rfl⟩ := kfreeAll_eq h₁
  set k₂ : Kernel := { k.updProc p fun x => x.commit sz with kmem := m, refreed := b } with hk₂
  have hs : Shape k₂ := (hcalm.shape hk).congr rfl rfl
  have hcur : k₂.Current p := Or.inl hp
  have hrun := (hs.place p hcur).1
  have halive := hs.alive_current hcur
  refine hs.updLess halive.ne_embryo (procShape_of_live halive fun j => ?_) (fun j hl => ?_)
    fun _ => ⟨?_, rfl⟩
  · rw [Proc.initAllpth_pth]
    split_ifs
    · exact hs.not_embryo hcur j
    · exact State.noConfusion
  · rw [Proc.initAllpth_pth] at hl ⊢
    split_ifs at hl ⊢
    · rfl
    · exact absurd rfl hl.ne_unused
  · exact if_pos rfl

/-- What `alloc_ustack` leaves as it is. -/
lemma Proc.allocUstack_eq {x : Proc} {i : Tidx} {avail : ℕ} {r : Bool × Proc}
    (h : x.allocUstack i avail = some r) :
    ∃ sz pgdir ustacks, r.2 = { x with sz := sz, pgdir := pgdir, ustacks := ustacks } := by
  unfold Proc.allocUstack at h
  split_ifs at h
  · obtain ⟨s, -, rfl⟩ := Option.map_eq_some_iff.mp h
    cases hs : s.1 with
    | none => exact ⟨_, _, _, rfl⟩
    | some sz => exact ⟨_, _, _, rfl⟩
  · obtain rfl := Option.some.inj h
    exact ⟨_, _, _, rfl⟩

/-- The thread in slot `i` after `thread_create`, with kernel stack `n`, when `alloc_ustack`
has succeeded or failed. -/
def Pthread.created (t : Pthread) (tid : ℤ) (n : ℕ) (ok : Bool) : Pthread :=
  if ok then { t with
    state := .runnable, tid := tid, kstack := n, cont := .user, fsOp := .out, sleeplocks := [],
    retval := 0 }
  else { t with
    state := .unused, tid := 0, kstack := 0, cont := .user, fsOp := .out, sleeplocks := [] }

/-- What `thread_create` does to process `p`. -/
structure Created (k k' : Kernel) (p : Slot) (i : Tidx) (n : ℕ) (ok : Bool) (y : Proc) : Prop where
  find : tidxs.find? (fun i => ((k.proc p).pth i).state = .unused) = some i
  page : n ≠ 0 ∧ k.kmem n = none
  kernel : k' = { k.updProc p fun _ => y with
    kmem := Function.update k.kmem n (some p)
    nextTid := (k.nextTid + 1).bmod (2 ^ 32) }
  proc : ∃ sz pgdir ustacks, y = { k.proc p with
    sz := sz
    pgdir := pgdir
    ustacks := ustacks
    pth := Function.update (k.proc p).pth i (((k.proc p).pth i).created k.nextTid n ok)
    kstacks := Function.update (k.proc p).kstacks i (if ok then n else 0) }

lemma threadCreate_created {k k' : Kernel} {p : Slot} {page : Option ℕ} {avail : ℕ}
    (h : k.threadCreate p page avail = some k') :
    ∃ i n ok y, page = some n ∧ Created k k' p i n ok y ∧
      (((k.proc p).allocpth i k.nextTid n).allocUstack i avail).map Prod.fst = some ok := by
  obtain ⟨i, hi, h⟩ := Option.bind_eq_some_iff.mp h
  obtain ⟨n, hn, h⟩ := Option.bind_eq_some_iff.mp h
  obtain ⟨k₁, h₁, h⟩ := Option.bind_eq_some_iff.mp h
  obtain ⟨r, hr, rfl⟩ := Option.map_eq_some_iff.mp h
  obtain ⟨k₂, h₂, rfl⟩ := Option.map_eq_some_iff.mp h₁
  obtain ⟨hpage, rfl⟩ := kalloc_eq_some.mp h₂
  obtain ⟨sz, pgdir, ustacks, hy⟩ := Proc.allocUstack_eq hr
  refine ⟨i, n, r.1, if r.1 then r.2.createDone i else r.2.createFail i, hn,
    ⟨hi, hpage, ?_, ?_⟩, ?_⟩
  · simp [Kernel.updProc]
  · rw [hy]
    cases r.1 with
    | true =>
      refine ⟨ustacks i, pgdir, ustacks, ?_⟩
      simp [Proc.createDone, Kernel.updProc, Proc.allocpth, Proc.updPth, Pthread.created]
    | false =>
      refine ⟨sz, pgdir, ustacks, ?_⟩
      simp [Proc.createFail, Kernel.updProc, Proc.allocpth, Proc.updPth, Pthread.created]
  · rw [updProc_self] at hr
    rw [hr]
    rfl

lemma Created.slot {k k' : Kernel} {p : Slot} {i : Tidx} {n : ℕ} {ok : Bool} {y : Proc}
    (h : Created k k' p i n ok y) : ((k.proc p).pth i).state = .unused := by
  simpa using List.find?_some h.find

lemma Created.table {k k' : Kernel} {p : Slot} {i : Tidx} {n : ℕ} {ok : Bool} {y : Proc}
    (h : Created k k' p i n ok y) : k'.proc = (k.updProc p fun _ => y).proc := by
  rw [h.kernel]

lemma Created.pth {k k' : Kernel} {p : Slot} {i : Tidx} {n : ℕ} {ok : Bool} {y : Proc}
    (h : Created k k' p i n ok y) (j : Tidx) : y.pth j = if j = i then
      ((k.proc p).pth i).created k.nextTid n ok else (k.proc p).pth j := by
  obtain ⟨sz, pgdir, ustacks, hy⟩ := h.proc
  rw [hy]
  exact Function.update_apply _ _ _ _

/-- The new thread is runnable, or its slot is unused again. -/
lemma Pthread.created_state (t : Pthread) (tid : ℤ) (n : ℕ) (ok : Bool) :
    (t.created tid n ok).state = if ok then .runnable else .unused := by
  cases ok <;> rfl

lemma Pthread.created_cont (t : Pthread) (tid : ℤ) (n : ℕ) (ok : Bool) :
    (t.created tid n ok).cont = .user := by
  cases ok <;> rfl

lemma Shape.created {k k' : Kernel} (hk : Shape k) {p : Slot} (hp : k.cpu = .run p) {i : Tidx}
    {n : ℕ} {ok : Bool} {y : Proc} (h : Created k k' p i n ok y) : Shape k' := by
  have hcur : k.Current p := Or.inl hp
  obtain ⟨sz, pgdir, ustacks, hy⟩ := h.proc
  have hrun := (hk.place p hcur).1
  have hne : y.onTidx ≠ i := by
    rw [hy]
    intro he
    have hslot := h.slot
    rw [← he] at hslot
    exact State.noConfusion (hrun.symm.trans hslot)
  have hmy : y.mypth = (k.proc p).mypth := by
    rw [Proc.mypth, h.pth, if_neg hne, hy]
    rfl
  have hnew : ∀ s, (((k.proc p).pth i).created k.nextTid n ok).state = s →
      s = .runnable ∨ s = .unused := by
    rintro s rfl
    rw [Pthread.created_state]
    split_ifs
    · exact Or.inl rfl
    · exact Or.inr rfl
  have hshape : Shape ((k.updProc p fun _ => y).setCpu (.run p)) := by
    refine hk.upd hcur (procShape_of_live ?_ fun j => ?_) ?_ ?_ ?_ ?_
    · rw [hy]
      exact hk.alive_current hcur
    · rw [h.pth]
      split_ifs
      · intro he
        rcases hnew _ he with h' | h' <;> exact State.noConfusion h'
      · exact hk.not_embryo hcur j
    · intro j hl
      rw [h.pth] at hl ⊢
      split_ifs at hl ⊢
      · refine Or.inr ?_
        rw [Pthread.created_cont]
        rfl
      · exact Or.inl ⟨hl, rfl⟩
    · intro j
      rw [h.pth]
      split_ifs
      · intro hs
        rcases hnew _ hs with h' | h' <;> exact State.noConfusion h'
      · exact hk.chan p j
    · rintro q (hq | hq)
      · obtain rfl : p = q := by simpa using hq
        refine ⟨rfl, ?_⟩
        rw [hmy, ← hp]
        exact hk.place p hcur
      · exact absurd hq (by simp)
    · intro j hj
      rw [h.pth] at hj
      split_ifs at hj
      · rcases hnew _ hj with h' | h' <;> exact State.noConfusion h'
      · refine ⟨Or.inl rfl, ?_⟩
        rw [hy]
        exact (hk.running p j hj).2
  rw [h.kernel]
  exact hshape.congr rfl hp

lemma joinScan_tid {k : Kernel} {t : ℤ} {q : Slot} {i : Tidx} (h : k.joinScan t = some (q, i)) :
    ((k.proc q).pth i).tid = t := by
  obtain ⟨r, -, hr⟩ := List.exists_of_findSome?_eq_some h
  obtain ⟨j, hj, hqj⟩ := Option.map_eq_some_iff.mp hr
  obtain ⟨rfl, rfl⟩ := Prod.mk.inj hqj
  simpa using List.find?_some hj

lemma Shape.joinPth {k : Kernel} (hk : Shape k) {q : Slot} {i : Tidx}
    (hi : ((k.proc q).pth i).state = .zombie) : Shape (k.updProc q fun x => x.joinPth i) := by
  have hq := hk.proc q
  have hpth : ∀ j, ((k.proc q).joinPth i).pth j = if j = i then
      { (k.proc q).pth i with kstack := 0, state := .unused, tid := 0, retval := 0 }
      else (k.proc q).pth j := fun j => Function.update_apply _ _ _ _
  -- a process with a zombie is neither unused nor under construction
  have hne : (k.proc q).state ≠ .embryo := by
    intro he
    obtain ⟨h0, hrest⟩ := hq.embryo he
    by_cases h : i = 0
    · rw [h, h0.1] at hi
      exact State.noConfusion hi
    · exact State.noConfusion ((hrest i h).symm.trans hi)
  have hun : (k.proc q).state ≠ .unused := fun hu =>
    State.noConfusion ((hq.unused hu i).symm.trans hi)
  refine hk.updLess hne ⟨fun h => absurd h hun, fun h => absurd h hne, ?_, ?_,
    fun h => absurd h hun⟩ ?_ ?_
  · intro hz j hl
    rw [hpth] at hl
    split_ifs at hl
    · exact hl.ne_unused rfl
    · exact hq.zombie hz j hl
  · intro _ j
    rw [hpth]
    split_ifs
    · exact State.noConfusion
    · exact hq.notEmbryo hne j
  · intro j hl
    rw [hpth] at hl ⊢
    split_ifs at hl ⊢
    · exact absurd rfl hl.ne_unused
    · rfl
  · intro hc
    refine ⟨?_, rfl⟩
    have hrun := (hk.place q hc).1
    have : (k.proc q).onTidx ≠ i := by
      rintro rfl
      exact State.noConfusion (hrun.symm.trans hi)
    exact (hpth _).trans (if_neg this)

lemma Shape.threadJoin {k : Kernel} (hk : Shape k) {p : Slot} (hp : k.Current p) (t : ℤ)
    (havepth : Bool) : Shape (k.threadJoin p t havepth).2 := by
  have hsleep : Shape (k.sleep p (.word t) (.join t true)) := by
    refine hk.sleep hp (Or.inr rfl) (fun h => absurd h (by simp)) fun t' b h => ?_
    rw [(Cont.join.inj h).1]
  unfold Kernel.threadJoin
  split
  · split_ifs with hz
    · exact (hk.joinPth hz).goOn hp rfl rfl
    · exact hsleep
  · split_ifs
    · exact hsleep
    · exact hk.goOn hp rfl rfl

lemma Shape.exitBegin {k k' : Kernel} (hk : Shape k) {p : Slot} (hp : k.cpu = .run p)
    (h : k.exitBegin p = some k') : Shape k' := by
  unfold Kernel.exitBegin at h
  split_ifs at h
  obtain rfl := Option.some.inj h
  exact hk.setCont hp rfl rfl

lemma Shape.exitFile {k : Kernel} (hk : Shape k) {p : Slot} (hp : k.cpu = .run p) (fd : ℕ) :
    Shape (k.exitFile p fd) := by
  unfold Kernel.exitFile
  split_ifs with hfd
  · have hcalm : Calm k (k.updProc p fun x =>
        { x with ofile := Function.update x.ofile ⟨fd, hfd⟩ none }) :=
      calm_updProc (CalmProc.of_eq rfl rfl rfl rfl)
    exact (hcalm.shape hk).setCont hp rfl rfl
  · have hcalm : Calm k (k.updProc p fun x => { x with cwd := none }) :=
      calm_updProc (CalmProc.of_eq rfl rfl rfl rfl)
    exact (hcalm.shape hk).setCont hp rfl rfl

/-- The rest of a `fork` is one of the three steps after the allocation. -/
lemma forkStep_eq_some {k k' : Kernel} {p : Slot} {op : Op}
    (h : forkStep k p (k.proc p).mypth.cont op = some k') :
    (∃ np page, (k.proc p).mypth.cont = .forkStack np ∧ op = .forkStack page ∧
      k.forkStack p np page = some k') ∨
    (∃ np ok, (k.proc p).mypth.cont = .forkCopy np ∧ op = .forkCopy ok ∧
      k.forkCopy p np ok = some k') ∨
    ∃ np, (k.proc p).mypth.cont = .forkDone np ∧ op = .forkDone ∧ k' = k.forkDone p np := by
  unfold forkStep at h
  split at h
  · rename_i np page hc
    exact Or.inl ⟨np, page, hc, rfl, h⟩
  · rename_i np ok hc
    exact Or.inr (Or.inl ⟨np, ok, hc, rfl, h⟩)
  · rename_i np hc
    exact Or.inr (Or.inr ⟨np, hc, rfl, (Option.some.inj h).symm⟩)
  · exact absurd h (by simp)

lemma Shape.forkStep {k k' : Kernel} (hk : Shape k) {p : Slot} (hp : k.cpu = .run p) {op : Op}
    (h : forkStep k p (k.proc p).mypth.cont op = some k') : Shape k' := by
  rcases forkStep_eq_some h with ⟨np, page, hc, -, h⟩ | ⟨np, ok, hc, -, h⟩ | ⟨np, hc, -, rfl⟩
  · exact hk.forkStack hp hc h
  · exact hk.forkCopy hp hc h
  · exact hk.forkDone hp hc

/-- The rest of an `exit` is one of its two steps. -/
lemma exitStep_eq_some {k k' : Kernel} {p : Slot} {op : Op}
    (h : exitStep k p (k.proc p).mypth.cont op = some k') :
    (∃ fd, (k.proc p).mypth.cont = .exitFile fd ∧ op = .exitFile ∧ k' = k.exitFile p fd) ∨
      (k.proc p).mypth.cont = .exitLock ∧ op = .exit ∧ k' = k.exit p := by
  unfold exitStep at h
  split at h
  · rename_i fd hc
    exact Or.inl ⟨fd, hc, rfl, (Option.some.inj h).symm⟩
  · rename_i hc
    exact Or.inr ⟨hc, rfl, (Option.some.inj h).symm⟩
  · exact absurd h (by simp)

lemma Shape.exitStep {k k' : Kernel} (hk : Shape k) {p : Slot} (hp : k.cpu = .run p) {op : Op}
    (h : exitStep k p (k.proc p).mypth.cont op = some k') : Shape k' := by
  rcases exitStep_eq_some h with ⟨fd, -, -, rfl⟩ | ⟨-, -, rfl⟩
  · exact hk.exitFile hp fd
  · exact hk.exit hp

/-- The loop of `wait` or `thread_join` is entered again. -/
lemma resumeStep_eq_some {k k' : Kernel} {p : Slot}
    (h : resumeStep k p (k.proc p).mypth.cont = some k') :
    ((k.proc p).mypth.cont = .wait ∧ k.wait p = some k') ∨
      ∃ t havepth, (k.proc p).mypth.cont = .join t havepth ∧
        k' = (k.threadJoin p t havepth).2 := by
  unfold resumeStep at h
  split at h
  · rename_i hc
    exact Or.inl ⟨hc, h⟩
  · rename_i t havepth hc
    exact Or.inr ⟨t, havepth, hc, (Option.some.inj h).symm⟩
  · exact absurd h (by simp)

lemma Shape.resumeStep {k k' : Kernel} (hk : Shape k) {p : Slot} (hp : k.Current p)
    (h : resumeStep k p (k.proc p).mypth.cont = some k') : Shape k' := by
  rcases resumeStep_eq_some h with ⟨-, h⟩ | ⟨t, havepth, -, rfl⟩
  · exact hk.wait hp h
  · exact hk.threadJoin hp t havepth

lemma Shape.beginOp {k : Kernel} (hk : Shape k) {p : Slot} (hp : k.cpu = .run p) :
    Shape (k.beginOp p) := by
  unfold Kernel.beginOp
  split_ifs
  · exact hk.sleepAddr hp _
  · exact hk.sleepAddr hp _
  · exact (calm_setFsOp k p .inside).shape hk |>.congr rfl rfl

lemma Shape.acquiresleep {k : Kernel} (hk : Shape k) {p : Slot} (hp : k.cpu = .run p) (l : ℕ) :
    Shape (k.acquiresleep p l) := by
  unfold Kernel.acquiresleep
  split_ifs
  · exact hk.sleepAddr hp _
  · exact ((calm_setSleeplocks k p _).shape hk).congr rfl rfl

/-! ### The runs -/

/-- One step keeps the shape of the table. -/
theorem Shape.step {k k' : Kernel} {op : Op} (hk : Shape k) (h : Step k op k') : Shape k' := by
  unfold Step at h
  cases op with
  | userinit n =>
    obtain ⟨-, h⟩ := Option.ite_none_right_eq_some.mp h
    exact hk.userinit h
  | pass =>
    obtain ⟨hc, h⟩ := Option.ite_none_right_eq_some.mp h
    obtain rfl := Option.some.inj h
    refine hk.pass ?_ _
    rintro q (hq | hq) <;> exact absurd (hc.symm.trans hq) (by simp)
  | schedule =>
    obtain ⟨p, hp, h⟩ := onSched_eq_some.mp h
    obtain rfl := Option.some.inj h
    exact hk.schedule hp
  | timer =>
    obtain ⟨p, hp, h⟩ := onCpu_eq_some.mp h
    obtain rfl := Option.some.inj h
    exact hk.timer hp
  | wakeup a =>
    obtain ⟨-, h⟩ := Option.ite_none_right_eq_some.mp h
    obtain rfl := Option.some.inj h
    exact (calm_wakeup1 k _).shape hk
  | sleep a =>
    obtain ⟨p, hp, h⟩ := onCpu_eq_some.mp h
    obtain rfl := Option.some.inj h
    exact hk.sleepAddr hp a
  | kill pid =>
    obtain ⟨p, -, -, h⟩ := syscall_eq_some.mp h
    obtain rfl := Option.some.inj h
    exact (calm_kill k pid).shape hk
  | forkAlloc =>
    obtain ⟨p, hp, -, h⟩ := syscall_eq_some.mp h
    obtain rfl := Option.some.inj h
    exact hk.forkAlloc hp
  | forkStack page =>
    obtain ⟨p, hp, h⟩ := onCpu_eq_some.mp h
    exact hk.forkStep hp h
  | forkCopy ok =>
    obtain ⟨p, hp, h⟩ := onCpu_eq_some.mp h
    exact hk.forkStep hp h
  | forkDone =>
    obtain ⟨p, hp, h⟩ := onCpu_eq_some.mp h
    exact hk.forkStep hp h
  | exec sz =>
    obtain ⟨p, hp, -, h⟩ := syscall_eq_some.mp h
    exact hk.exec hp (Option.ite_none_right_eq_some.mp h).2
  | sbrk n avail =>
    obtain ⟨p, -, -, h⟩ := syscall_eq_some.mp h
    exact (calm_growproc (Option.ite_none_right_eq_some.mp h).2).shape hk
  | exitBegin =>
    obtain ⟨p, hp, -, h⟩ := syscall_eq_some.mp h
    exact hk.exitBegin hp h
  | exitFile =>
    obtain ⟨p, hp, h⟩ := onCpu_eq_some.mp h
    exact hk.exitStep hp (Option.ite_none_right_eq_some.mp h).2
  | exit =>
    obtain ⟨p, hp, h⟩ := onCpu_eq_some.mp h
    exact hk.exitStep hp (Option.ite_none_right_eq_some.mp h).2
  | wait =>
    obtain ⟨p, hp, -, h⟩ := syscall_eq_some.mp h
    exact hk.wait (Or.inl hp) h
  | threadCreate page avail =>
    obtain ⟨p, hp, -, h⟩ := syscall_eq_some.mp h
    obtain ⟨i, n, ok, y, -, hy, -⟩ := threadCreate_created h
    exact hk.created hp hy
  | threadExit v =>
    obtain ⟨p, hp, -, h⟩ := syscall_eq_some.mp h
    obtain rfl := Option.some.inj h
    exact hk.threadExit hp v
  | threadJoin t =>
    obtain ⟨p, hp, -, h⟩ := syscall_eq_some.mp h
    obtain rfl := Option.some.inj h
    exact hk.threadJoin (Or.inl hp) t false
  | resume =>
    obtain ⟨p, hp, h⟩ := onResume_eq_some.mp h
    exact hk.resumeStep (Or.inr hp) h
  | fdalloc f =>
    obtain ⟨p, -, h⟩ := onCpu_eq_some.mp h
    obtain ⟨-, h⟩ := Option.ite_none_right_eq_some.mp h
    obtain rfl := Option.some.inj h
    exact (calm_fdalloc k p f).shape hk
  | close fd =>
    obtain ⟨p, -, h⟩ := onCpu_eq_some.mp h
    obtain ⟨-, h⟩ := Option.ite_none_right_eq_some.mp h
    obtain rfl := Option.some.inj h
    exact (calm_updProc (CalmProc.of_eq rfl rfl rfl rfl)).shape hk
  | chdir ip =>
    obtain ⟨p, -, h⟩ := onCpu_eq_some.mp h
    obtain ⟨-, h⟩ := Option.ite_none_right_eq_some.mp h
    obtain rfl := Option.some.inj h
    exact (calm_updProc (CalmProc.of_eq rfl rfl rfl rfl)).shape hk
  | beginOp =>
    obtain ⟨p, hp, h⟩ := onCpu_eq_some.mp h
    obtain ⟨-, h⟩ := Option.ite_none_right_eq_some.mp h
    obtain rfl := Option.some.inj h
    exact hk.beginOp hp
  | endOp =>
    obtain ⟨p, -, h⟩ := onCpu_eq_some.mp h
    exact (calm_endOp (Option.ite_none_right_eq_some.mp h).2).shape hk
  | commitDone =>
    obtain ⟨p, -, h⟩ := onCpu_eq_some.mp h
    obtain ⟨-, h⟩ := Option.ite_none_right_eq_some.mp h
    obtain rfl := Option.some.inj h
    exact (calm_commitDone k p).shape hk
  | logWrite =>
    obtain ⟨p, -, h⟩ := onCpu_eq_some.mp h
    obtain ⟨-, h⟩ := Option.ite_none_right_eq_some.mp h
    unfold Kernel.logWrite at h
    split_ifs at h
    obtain rfl := Option.some.inj h
    exact hk.congr rfl rfl
  | acquiresleep l =>
    obtain ⟨p, hp, h⟩ := onCpu_eq_some.mp h
    obtain rfl := Option.some.inj h
    exact hk.acquiresleep hp l
  | releasesleep l =>
    obtain ⟨p, -, h⟩ := onCpu_eq_some.mp h
    obtain ⟨-, h⟩ := Option.ite_none_right_eq_some.mp h
    obtain rfl := Option.some.inj h
    exact (calm_releasesleep k p l).shape hk

/-- The table before the first process. -/
lemma shape_pinit : Shape Kernel.pinit where
  proc _ := ⟨fun _ _ => rfl, fun h => State.noConfusion h, fun h => State.noConfusion h,
    fun _ _ h => State.noConfusion h, fun _ => rfl⟩
  place p hp := by rcases hp with h | h <;> exact absurd h (by simp [Kernel.pinit])
  running p i h := State.noConfusion h
  target p i np h _ := absurd rfl h.ne_unused
  owner p i q j np h _ _ _ := absurd rfl h.ne_unused
  orphan p i np h _ := absurd rfl h.ne_unused
  chan p i h := State.noConfusion h

/-- Every run keeps the shape of the table. -/
theorem Reach.shape {k : Kernel} (h : Reach k) : Shape k := by
  refine Reachable.invariant (I := Shape) ?_ (fun _ _ _ hk hs => hk.step hs) h
  rintro _ rfl
  exact shape_pinit

end Xv6Projects.Threads
