import Mathlib.Tactic
import Xv6Projects.Tree.Kernel

/-!
# Who has a grandparent

Every live process but the first has a live parent: `fork` links the child before it makes it
runnable, `exit` hands the children of the process over to `initproc` in the step that makes it a
zombie, and `wait` takes the parent of a process away only when it frees the slot.  The parent of
`initproc` is null, and so `sys_getgpid` dereferences a null pointer in the children of `initproc`,
and in these only.
-/

namespace Xv6Projects.Tree

open Library Kernel

variable {k k' : Kernel} {c i np : Slot} {p q : Proc}

/-- A process that can run or sleep. -/
def Proc.Live (p : Proc) : Prop := p.state = .sleeping ∨ p.state = .runnable ∨ p.state = .running

instance (p : Proc) : Decidable p.Live := inferInstanceAs (Decidable (_ ∨ _))

lemma Proc.Live.ne_unused (h : p.Live) : p.state ≠ .unused := by
  rcases h with h | h | h <;> simp [h]

lemma Proc.Live.ne_embryo (h : p.Live) : p.state ≠ .embryo := by
  rcases h with h | h | h <;> simp [h]

lemma Proc.Live.ne_zombie (h : p.Live) : p.state ≠ .zombie := by
  rcases h with h | h | h <;> simp [h]

lemma live_of_running (h : p.state = .running) : p.Live := Or.inr (Or.inr h)

/-- `sys_getgpid` returns the pid of the parent of the parent of `c`, and both are live. -/
def GpidRight (k : Kernel) (c : Slot) : Prop :=
  ∃ p gp, (k.proc c).parent = some p ∧ (k.proc p).Live ∧
    (k.proc p).parent = some gp ∧ (k.proc gp).Live ∧ sysGetgpid k c = some (k.proc gp).pid

/-! ### The invariant of the tree -/

/-- Parents are live, every live process but `initproc` has one, and the slots that forks in
progress hold are embryos of their own. -/
structure TreeInv (k : Kernel) : Prop where
  boot : k.initproc = none → ∀ i, (k.proc i).state = .unused
  init : ∀ r, k.initproc = some r → (k.proc r).Live ∧ (k.proc r).parent = none
  parent : ∀ i p, (k.proc i).parent = some p → (k.proc p).Live
  child : ∀ i, (k.proc i).Live → k.initproc ≠ some i → (k.proc i).parent ≠ none
  unused : ∀ i, (k.proc i).state = .unused → (k.proc i).parent = none
  alloc : ∀ c np, (k.proc c).fork = .alloc np →
    (k.proc np).state = .embryo ∧ (k.proc np).parent = none
  linked : ∀ c np, (k.proc c).fork = .linked np →
    (k.proc np).state = .embryo ∧ (k.proc np).parent = some c
  own : ∀ c c' np, (k.proc c).fork.np = some np → (k.proc c').fork.np = some np → c = c'

lemma TreeInv.embryo (h : TreeInv k) (hc : (k.proc c).fork.np = some np) :
    (k.proc np).state = .embryo := by
  cases hf : (k.proc c).fork with
  | no => simp [hf] at hc
  | alloc np' =>
    obtain rfl : np' = np := by simpa [hf] using hc
    exact (h.alloc c np' hf).1
  | linked np' =>
    obtain rfl : np' = np := by simpa [hf] using hc
    exact (h.linked c np' hf).1

lemma treeInv_pinit : TreeInv pinit where
  boot _ _ := rfl
  init _ h := absurd h (by simp [pinit])
  parent _ _ h := absurd h (by simp [pinit, Proc.zero])
  child _ h := absurd rfl h.ne_unused
  unused _ _ := rfl
  alloc _ _ h := absurd h (by simp [pinit, Proc.zero])
  linked _ _ h := absurd h (by simp [pinit, Proc.zero])
  own _ _ _ h := absurd h (by simp [pinit, Proc.zero])

/-! ### Steps that leave the tree alone -/

/-- The parent and the place in `fork` stay, and the process is live, free or an embryo as
before. -/
structure Calm (p q : Proc) : Prop where
  parent : q.parent = p.parent
  fork : q.fork = p.fork
  live : q.Live ↔ p.Live
  unused : q.state = .unused ↔ p.state = .unused
  embryo : q.state = .embryo ↔ p.state = .embryo

lemma Calm.refl (p : Proc) : Calm p p := ⟨rfl, rfl, Iff.rfl, Iff.rfl, Iff.rfl⟩

lemma Calm.of_live (hp : p.Live) (hq : q.Live) (hparent : q.parent = p.parent)
    (hfork : q.fork = p.fork) : Calm p q :=
  ⟨hparent, hfork, iff_of_true hq hp, iff_of_false hq.ne_unused hp.ne_unused,
    iff_of_false hq.ne_embryo hp.ne_embryo⟩

lemma Calm.of_state (hstate : q.state = p.state) (hparent : q.parent = p.parent)
    (hfork : q.fork = p.fork) : Calm p q := by
  refine ⟨hparent, hfork, ?_, ?_, ?_⟩
  · rw [Proc.Live, Proc.Live, hstate]
  · rw [hstate]
  · rw [hstate]

lemma TreeInv.calm (h : TreeInv k) (hcalm : ∀ i, Calm (k.proc i) (k'.proc i))
    (hinit : k'.initproc = k.initproc) : TreeInv k' where
  boot hk i := (hcalm i).unused.mpr (h.boot (hinit ▸ hk) i)
  init r hr := by
    obtain ⟨hlive, hpar⟩ := h.init r (hinit ▸ hr)
    exact ⟨(hcalm r).live.mpr hlive, (hcalm r).parent.trans hpar⟩
  parent i p hp := (hcalm p).live.mpr (h.parent i p ((hcalm i).parent ▸ hp))
  child i hi hne := by
    rw [(hcalm i).parent]
    exact h.child i ((hcalm i).live.mp hi) (hinit ▸ hne)
  unused i hi := (hcalm i).parent.trans (h.unused i ((hcalm i).unused.mp hi))
  alloc c np hc := by
    obtain ⟨he, hpar⟩ := h.alloc c np ((hcalm c).fork ▸ hc)
    exact ⟨(hcalm np).embryo.mpr he, (hcalm np).parent.trans hpar⟩
  linked c np hc := by
    obtain ⟨he, hpar⟩ := h.linked c np ((hcalm c).fork ▸ hc)
    exact ⟨(hcalm np).embryo.mpr he, (hcalm np).parent.trans hpar⟩
  own c c' np hc hc' := by
    rw [(hcalm c).fork] at hc
    rw [(hcalm c').fork] at hc'
    exact h.own c c' np hc hc'

/-- A change of one process that the tree does not see. -/
lemma TreeInv.setProc (h : TreeInv k) (hcalm : Calm (k.proc i) p) : TreeInv (k.setProc i p) := by
  refine h.calm (fun j => ?_) rfl
  by_cases hj : j = i
  · subst hj
    rwa [setProc_self]
  · rw [setProc_of_ne k p hj]
    exact Calm.refl _

lemma calm_wakeup1 (chan : Chan) (p : Proc) : Calm p (p.wakeup1 chan) := by
  rw [Proc.wakeup1]
  split_ifs with h
  · exact Calm.of_live (Or.inl h.1) (Or.inr (Or.inl rfl)) rfl rfl
  · exact Calm.refl p

lemma TreeInv.wakeup1 (h : TreeInv k) (chan : Chan) : TreeInv (k.wakeup1 chan) :=
  h.calm (fun i => calm_wakeup1 chan (k.proc i)) rfl

lemma TreeInv.sleep (h : TreeInv k) (hc : (k.proc c).Live) (chan : Chan) :
    TreeInv (k.sleep c chan) :=
  h.setProc (Calm.of_live hc (Or.inl rfl) rfl rfl)

lemma TreeInv.kill (h : TreeInv k) (pid : ℤ) : TreeInv (k.kill pid) := by
  rw [Kernel.kill]
  split
  · exact h
  · next i _ =>
    by_cases hs : (k.proc i).state = .sleeping
    · rw [if_pos hs]
      exact h.setProc (Calm.of_live (Or.inl hs) (Or.inr (Or.inl rfl)) rfl rfl)
    · rw [if_neg hs]
      exact h.setProc (Calm.of_state rfl rfl rfl)

/-! ### Births -/

lemma find_unused (h : slots.find? (fun i => (k.proc i).state = .unused) = some i) :
    (k.proc i).state = .unused := by
  simpa using List.find?_some h

/-- The first process: nothing else is in the table. -/
lemma userinit_eq_some (h : k.userinit = some k') : ∃ i, (k.proc i).state = .unused ∧
    k'.initproc = some i ∧ (k'.proc i).state = .runnable ∧
    (k'.proc i).parent = (k.proc i).parent ∧ (k'.proc i).fork = (k.proc i).fork ∧
    ∀ j, j ≠ i → k'.proc j = k.proc j := by
  rw [Kernel.userinit, allocproc] at h
  cases hfind : slots.find? (fun i => (k.proc i).state = .unused) with
  | none => simp [hfind] at h
  | some i =>
    rw [hfind] at h
    obtain rfl := Option.some.inj h
    refine ⟨i, find_unused hfind, rfl, by simp, ?_, ?_, fun j hj => ?_⟩
    · rw [setProc_self]
      simp [allocSlot]
    · rw [setProc_self]
      simp [allocSlot]
    · rw [setProc_of_ne _ _ hj]
      simp [allocSlot, Kernel.setProc, Function.update_of_ne hj]

lemma TreeInv.userinit (h : TreeInv k) (hk : k.initproc = none) (hs : k.userinit = some k') :
    TreeInv k' := by
  obtain ⟨r, -, hinit, hrun, hpar, hfork, hsame⟩ := userinit_eq_some hs
  have hfree := h.boot hk
  have hlive : ∀ i, (k'.proc i).Live → i = r := by
    intro i hi
    by_contra hne
    rw [hsame i hne] at hi
    exact hi.ne_unused (hfree i)
  have hparent : ∀ i, (k'.proc i).parent = none := by
    intro i
    by_cases hi : i = r
    · rw [hi, hpar]
      exact h.unused r (hfree r)
    · rw [hsame i hi]
      exact h.unused i (hfree i)
  -- a fork in progress would hold an embryo
  have hno : ∀ c, (k'.proc c).fork.np = none := by
    intro c
    have hc : (k'.proc c).fork = (k.proc c).fork := by
      by_cases hi : c = r
      · rw [hi, hfork]
      · rw [hsame c hi]
    rw [hc, Option.eq_none_iff_forall_ne_some]
    intro np hnp
    have he := h.embryo hnp
    rw [hfree np] at he
    exact absurd he (by simp)
  refine ⟨fun hn => ?_, fun r' hr' => ?_, fun i p hp => ?_, fun i hi hne => ?_, fun i _ => hparent i,
    fun c np hc => ?_, fun c np hc => ?_, fun c c' np hc => ?_⟩
  · rw [hinit] at hn
    exact absurd hn (by simp)
  · rw [hinit] at hr'
    obtain rfl := Option.some.inj hr'
    exact ⟨Or.inr (Or.inl hrun), hparent r⟩
  · rw [hparent i] at hp
    exact absurd hp (by simp)
  · rw [hlive i hi] at hne
    exact absurd hinit hne
  · exact absurd (hno c) (by simp [hc])
  · exact absurd (hno c) (by simp [hc])
  · exact absurd (hno c) (by simp [hc])

/-! ### Forks -/

/-- What a step of a fork changes: the state and the parent of the new process `np`, and the place
of its creator `c`. -/
structure ForkStep (k k' : Kernel) (c np : Slot) (state : ProcState) (parent : Option Slot)
    (fork : Fork) : Prop where
  initproc : k'.initproc = k.initproc
  state : ∀ i, (k'.proc i).state = if i = np then state else (k.proc i).state
  parent : ∀ i, (k'.proc i).parent = if i = np then parent else (k.proc i).parent
  fork : ∀ i, (k'.proc i).fork = if i = c then fork else (k.proc i).fork

lemma forkStep_setProc (hne : c ≠ np) {x : Proc} (hx : x.fork = (k.proc np).fork) (f : Fork) :
    ForkStep k ((k.setProc np x).setProc c { k.proc c with fork := f }) c np x.state x.parent f := by
  refine ⟨rfl, fun i => ?_, fun i => ?_, fun i => ?_⟩
  all_goals
    by_cases hc : i = c
    · subst hc
      rw [setProc_self]
      simp [hne]
    · rw [setProc_of_ne _ _ hc]
      by_cases hi : i = np
      · subst hi
        simp [hx, hc]
      · rw [setProc_of_ne _ _ hi]
        simp [hi, hc]

/-- A step of a fork keeps the tree when it gives the new process a parent no later than it makes
it runnable. -/
lemma TreeInv.forkStep {st : ProcState} {par : Option Slot} {f : Fork} (h : TreeInv k)
    (hs : ForkStep k k' c np st par f) (hc : (k.proc c).Live) (hnp : ¬(k.proc np).Live)
    (hown : ∀ c', c' ≠ c → (k.proc c').fork.np ≠ some np)
    (hfree : st = .unused → par = none) (hborn : st ≠ .unused → st ≠ .embryo → par ≠ none)
    (hpar : ∀ p, par = some p → p = c) (hf : ∀ np', f.np = some np' → np' = np)
    (halloc : f = .alloc np → st = .embryo ∧ par = none)
    (hlinked : f = .linked np → st = .embryo ∧ par = some c) : TreeInv k' := by
  have hlive : ∀ i, i ≠ np → ((k'.proc i).Live ↔ (k.proc i).Live) := by
    intro i hi
    rw [Proc.Live, Proc.Live, hs.state, if_neg hi]
  have hcnp : ∀ i, (k.proc i).Live → i ≠ np := by
    rintro i hi rfl
    exact hnp hi
  refine ⟨fun hn => ?_, fun r hr => ?_, fun i p hp => ?_, fun i hi hne => ?_, fun i hi => ?_,
    fun c' np' hc' => ?_, fun c' np' hc' => ?_, fun c₁ c₂ np' h₁ h₂ => ?_⟩
  · exact absurd (h.boot (hs.initproc ▸ hn) c) hc.ne_unused
  · obtain ⟨hl, hp⟩ := h.init r (hs.initproc ▸ hr)
    refine ⟨(hlive r (hcnp r hl)).mpr hl, ?_⟩
    rw [hs.parent, if_neg (hcnp r hl), hp]
  · have hl : (k.proc p).Live := by
      rw [hs.parent] at hp
      split_ifs at hp with hi
      · rw [hpar p hp]
        exact hc
      · exact h.parent i p hp
    exact (hlive p (hcnp p hl)).mpr hl
  · rw [hs.parent]
    split_ifs with hinp
    · have hst := hs.state i
      rw [if_pos hinp] at hst
      exact hborn (hst ▸ hi.ne_unused) (hst ▸ hi.ne_embryo)
    · exact h.child i ((hlive i hinp).mp hi) (hs.initproc ▸ hne)
  · rw [hs.state] at hi
    rw [hs.parent]
    split_ifs at hi ⊢ with hinp
    · exact hfree hi
    · exact h.unused i hi
  · rw [hs.fork] at hc'
    rw [hs.state, hs.parent]
    split_ifs at hc' with hcc
    · obtain rfl := hf np' (by rw [hc']; rfl)
      rw [if_pos rfl, if_pos rfl]
      exact halloc hc'
    · have hne : np' ≠ np := fun he => hown c' hcc (by rw [hc', he]; rfl)
      rw [if_neg hne, if_neg hne]
      exact h.alloc c' np' hc'
  · rw [hs.fork] at hc'
    rw [hs.state, hs.parent]
    split_ifs at hc' with hcc
    · obtain rfl := hf np' (by rw [hc']; rfl)
      rw [if_pos rfl, if_pos rfl, hcc]
      exact hlinked hc'
    · have hne : np' ≠ np := fun he => hown c' hcc (by rw [hc', he]; rfl)
      rw [if_neg hne, if_neg hne]
      exact h.linked c' np' hc'
  · rw [hs.fork] at h₁ h₂
    split_ifs at h₁ h₂ with hc₁ hc₂ hc₂
    · rw [hc₁, hc₂]
    · exact absurd (hf np' h₁ ▸ h₂) (hown c₂ hc₂)
    · exact absurd (hf np' h₂ ▸ h₁) (hown c₁ hc₁)
    · exact h.own c₁ c₂ np' h₁ h₂

lemma TreeInv.forkAlloc (h : TreeInv k) (hc : Ready k c) : TreeInv (k.forkAlloc c) := by
  rw [Kernel.forkAlloc, allocproc]
  cases hfind : slots.find? (fun i => (k.proc i).state = .unused) with
  | none => exact h
  | some np =>
    have hnp := find_unused hfind
    have hne : c ≠ np := by
      rintro rfl
      exact absurd (hc.1.symm.trans hnp) (by simp)
    have hs : ForkStep k ((k.allocSlot np).setProc c
        { (k.allocSlot np).proc c with fork := .alloc np }) c np .embryo none (.alloc np) := by
      have hproc : (k.allocSlot np).proc c = k.proc c := setProc_of_ne _ _ hne
      have hstep := forkStep_setProc (k := k) hne
        (x := { k.proc np with state := .embryo, pid := k.nextpid }) rfl (.alloc np)
      rw [hproc, ← h.unused np hnp]
      exact ⟨hstep.initproc, hstep.state, hstep.parent, hstep.fork⟩
    refine h.forkStep hs (live_of_running hc.1) (fun hl => hl.ne_unused hnp) (fun c' _ hc' => ?_)
      (fun _ => rfl) (fun _ he => absurd rfl he) (by simp) (by simp [eq_comm])
      (fun _ => ⟨rfl, rfl⟩) (by simp)
    exact absurd ((h.embryo hc').symm.trans hnp) (by simp)

section Pending
variable (h : TreeInv k) (hc : (k.proc c).state = .running)
include h hc

lemma TreeInv.pending_ne (hnp : (k.proc c).fork.np = some np) : c ≠ np := by
  rintro rfl
  exact absurd ((h.embryo hnp).symm.trans hc) (by simp)

/-- A step of a fork in progress. -/
lemma TreeInv.pending {x : Proc} {f : Fork} (hnp : (k.proc c).fork.np = some np)
    (hx : x.fork = (k.proc np).fork) (hfree : x.state = .unused → x.parent = none)
    (hborn : x.state ≠ .unused → x.state ≠ .embryo → x.parent ≠ none)
    (hpar : ∀ p, x.parent = some p → p = c) (hf : ∀ np', f.np = some np' → np' = np)
    (halloc : f = .alloc np → x.state = .embryo ∧ x.parent = none)
    (hlinked : f = .linked np → x.state = .embryo ∧ x.parent = some c) :
    TreeInv ((k.setProc np x).setProc c { k.proc c with fork := f }) :=
  h.forkStep (forkStep_setProc (h.pending_ne hc hnp) hx f) (live_of_running hc)
    (fun hl => hl.ne_embryo (h.embryo hnp)) (fun c' hne hc' => hne (h.own c' c np hc' hnp))
    hfree hborn hpar hf halloc hlinked

lemma TreeInv.forkFail (hf : (k.proc c).fork = .alloc np) : TreeInv (k.forkFail c np) := by
  have hpar := (h.alloc c np hf).2
  refine h.pending hc (by rw [hf]; rfl) rfl (fun _ => hpar) (fun hne => absurd rfl hne)
    (fun p hp => ?_) (by simp) (by simp) (by simp)
  exact absurd (hpar.symm.trans hp) (by simp)

lemma TreeInv.forkLink (hf : (k.proc c).fork = .alloc np) : TreeInv (k.forkLink c np) := by
  have he := (h.alloc c np hf).1
  refine h.pending hc (by rw [hf]; rfl) rfl (fun hu => ?_) (fun _ _ => by simp)
    (fun p hp => (Option.some.inj hp).symm) (by simp [eq_comm]) (by simp) (fun _ => ⟨he, rfl⟩)
  exact absurd (he.symm.trans hu) (by simp)

lemma TreeInv.forkDone (hf : (k.proc c).fork = .linked np) : TreeInv (k.forkDone c np) := by
  have hpar := (h.linked c np hf).2
  refine h.pending hc (by rw [hf]; rfl) rfl (by simp) (fun _ _ => by simp [hpar])
    (fun p hp => ?_) (by simp) (by simp) (by simp)
  exact (Option.some.inj (hpar.symm.trans hp)).symm

end Pending

/-! ### Deaths -/

/-- Process `q` is process `p` after `exit` of `c` has given the children of `c` the parent `r`. -/
structure Handed (c : Slot) (r : Option Slot) (p q : Proc) : Prop where
  parent : q.parent = if p.parent = some c then r else p.parent
  fork : q.fork = p.fork
  live : q.Live ↔ p.Live
  unused : q.state = .unused ↔ p.state = .unused
  embryo : q.state = .embryo ↔ p.state = .embryo

lemma Handed.calm {r : Option Slot} {q' : Proc} (h : Handed c r p q) (hq : Calm q q') :
    Handed c r p q' :=
  ⟨hq.parent.trans h.parent, hq.fork.trans h.fork, hq.live.trans h.live,
    hq.unused.trans h.unused, hq.embryo.trans h.embryo⟩

lemma Calm.handed {r : Option Slot} {q' : Proc} (h : Calm p q) (hq : Handed c r q q') :
    Handed c r p q' :=
  ⟨h.parent ▸ hq.parent, hq.fork.trans h.fork, hq.live.trans h.live,
    hq.unused.trans h.unused, hq.embryo.trans h.embryo⟩

lemma handed_adopt (k : Kernel) (c i : Slot) :
    Handed c k.initproc (k.proc i) ((k.adopt c).proc i) := by
  rw [adopt, mapProc_proc]
  split_ifs with hp
  · exact ⟨(if_pos hp).symm, rfl, Iff.rfl, Iff.rfl, Iff.rfl⟩
  · exact ⟨(if_neg hp).symm, rfl, Iff.rfl, Iff.rfl, Iff.rfl⟩

lemma handed_reparent (k : Kernel) (c i : Slot) :
    Handed c k.initproc (k.proc i) ((k.reparent c).proc i) := by
  rw [reparent]
  split_ifs
  · exact (handed_adopt k c i).calm (calm_wakeup1 _ _)
  · exact handed_adopt k c i

lemma exit_eq_some (h : k.exit c = some k') : k.initproc ≠ some c ∧
    k'.initproc = k.initproc ∧ (k'.proc c).state = .zombie ∧
    (∀ i, i ≠ c → Handed c k.initproc (k.proc i) (k'.proc i)) ∧
    (k'.proc c).parent = (if (k.proc c).parent = some c then k.initproc else (k.proc c).parent) ∧
    (k'.proc c).fork = (k.proc c).fork := by
  rw [Kernel.exit] at h
  split_ifs at h with hinit
  obtain rfl := Option.some.inj h
  set k₁ := k.wakeup1 (parentChan (k.proc c).parent) with hk₁
  have hand : ∀ i, Handed c k.initproc (k.proc i) ((k₁.reparent c).proc i) := fun i =>
    (calm_wakeup1 _ (k.proc i)).handed (handed_reparent k₁ c i)
  refine ⟨hinit, ?_, ?_, fun i hi => ?_, ?_, ?_⟩
  · rw [exitSlot, setProc_initproc, reparent]
    split_ifs <;> rfl
  · rw [exitSlot, setProc_self]
  · rw [exitSlot, setProc_of_ne _ _ hi]
    exact hand i
  · rw [exitSlot, setProc_self]
    exact (hand c).parent
  · rw [exitSlot, setProc_self]
    exact (hand c).fork

lemma TreeInv.exit (h : TreeInv k) (hc : Ready k c) (hs : k.exit c = some k') : TreeInv k' := by
  obtain ⟨hinit, hsame, hzombie, hand, hcpar, hcfork⟩ := exit_eq_some hs
  have hdead : ¬(k'.proc c).Live := fun hl => hl.ne_zombie hzombie
  have hlive : ∀ i, i ≠ c → ((k'.proc i).Live ↔ (k.proc i).Live) := fun i hi => (hand i hi).live
  have hparent : ∀ i, (k'.proc i).parent =
      if (k.proc i).parent = some c then k.initproc else (k.proc i).parent := by
    intro i
    by_cases hi : i = c
    · rw [hi, hcpar]
    · exact (hand i hi).parent
  have hfork : ∀ i, (k'.proc i).fork = (k.proc i).fork := by
    intro i
    by_cases hi : i = c
    · rw [hi, hcfork]
    · exact (hand i hi).fork
  -- a slot that a fork holds is not `c`, which is running
  have hemb : ∀ i, (k.proc i).state = .embryo → (k'.proc i).state = .embryo := by
    intro i hi
    refine (hand i ?_).embryo.mpr hi
    rintro rfl
    exact absurd (hc.1.symm.trans hi) (by simp)
  refine ⟨fun hn => ?_, fun r hr => ?_, fun i p hp => ?_, fun i hi hne => ?_, fun i hi => ?_,
    fun c' np hc' => ?_, fun c' np hc' => ?_, fun c₁ c₂ np h₁ h₂ => ?_⟩
  · exact absurd (h.boot (hsame ▸ hn) c) (live_of_running hc.1).ne_unused
  · rw [hsame] at hr
    obtain ⟨hl, hp⟩ := h.init r hr
    refine ⟨(hlive r ?_).mpr hl, ?_⟩
    · rintro rfl
      exact hinit hr
    · rw [hparent, hp, if_neg (by simp)]
  · rw [hparent] at hp
    split_ifs at hp with hpc
    · refine (hlive p ?_).mpr (h.init p hp).1
      rintro rfl
      exact hinit hp
    · refine (hlive p ?_).mpr (h.parent i p hp)
      rintro rfl
      exact hpc hp
  · rw [hparent]
    split_ifs with hpc
    · exact fun hn => absurd (h.boot hn c) (live_of_running hc.1).ne_unused
    · have hic : i ≠ c := by
        rintro rfl
        exact hdead hi
      exact h.child i ((hlive i hic).mp hi) (hsame ▸ hne)
  · have hic : i ≠ c := by
      rintro rfl
      exact absurd (hzombie.symm.trans hi) (by simp)
    have hp := h.unused i ((hand i hic).unused.mp hi)
    rw [hparent, hp, if_neg (by simp)]
  · rw [hfork] at hc'
    obtain ⟨he, hp⟩ := h.alloc c' np hc'
    exact ⟨hemb np he, by rw [hparent, hp, if_neg (by simp)]⟩
  · rw [hfork] at hc'
    obtain ⟨he, hp⟩ := h.linked c' np hc'
    refine ⟨hemb np he, ?_⟩
    -- `c` is not in `fork`, so the new process is not its child
    have hne : c' ≠ c := by
      rintro rfl
      exact absurd (hc.2.symm.trans hc') (by simp)
    rw [hparent, hp, if_neg (by simpa using hne)]
  · rw [hfork] at h₁ h₂
    exact h.own c₁ c₂ np h₁ h₂

lemma TreeInv.reap (h : TreeInv k) (hi : (k.proc i).state = .zombie) : TreeInv (k.reap i) := by
  have hsame : ∀ j, j ≠ i → (k.reap i).proc j = k.proc j := fun j hj => setProc_of_ne k _ hj
  have hself : (k.reap i).proc i =
      { k.proc i with state := .unused, pid := 0, parent := none, killed := false } :=
    setProc_self k i _
  have hlive : ∀ j, (k.proc j).Live → j ≠ i := by
    rintro j hj rfl
    exact hj.ne_zombie hi
  have hdead : ¬((k.reap i).proc i).Live := fun hl => hl.ne_unused (by rw [hself])
  have hfork : ∀ j, ((k.reap i).proc j).fork = (k.proc j).fork := by
    intro j
    by_cases hj : j = i
    · rw [hj, hself]
    · rw [hsame j hj]
  have hemb : ∀ np, (k.proc np).state = .embryo → np ≠ i := by
    rintro np he rfl
    exact absurd (hi.symm.trans he) (by simp)
  refine ⟨fun hn => ?_, fun r hr => ?_, fun j p hp => ?_, fun j hj hne => ?_, fun j hj => ?_,
    fun c' np hc' => ?_, fun c' np hc' => ?_, fun c₁ c₂ np h₁ h₂ => ?_⟩
  · exact absurd ((h.boot hn i).symm.trans hi) (by simp)
  · obtain ⟨hl, hp⟩ := h.init r hr
    rw [hsame r (hlive r hl)]
    exact ⟨hl, hp⟩
  · have hji : j ≠ i := by
      rintro rfl
      rw [hself] at hp
      exact absurd hp (by simp)
    rw [hsame j hji] at hp
    have hl := h.parent j p hp
    rwa [hsame p (hlive p hl)]
  · have hji : j ≠ i := by
      rintro rfl
      exact hdead hj
    rw [hsame j hji] at hj ⊢
    exact h.child j hj hne
  · by_cases hji : j = i
    · rw [hji, hself]
    · rw [hsame j hji] at hj ⊢
      exact h.unused j hj
  · rw [hfork] at hc'
    have he := h.alloc c' np hc'
    rwa [hsame np (hemb np he.1)]
  · rw [hfork] at hc'
    have he := h.linked c' np hc'
    rwa [hsame np (hemb np he.1)]
  · rw [hfork] at h₁ h₂
    exact h.own c₁ c₂ np h₁ h₂

lemma TreeInv.wait (h : TreeInv k) (hc : (k.proc c).Live) : TreeInv (k.wait c) := by
  rw [Kernel.wait]
  split
  · next i hfind =>
    have hzombie := List.find?_some hfind
    simp only [decide_eq_true_eq] at hzombie
    exact h.reap hzombie.2
  · split_ifs
    · exact h.sleep hc _
    · exact h

/-! ### The runs -/

lemma of_ite_some {P : Prop} [Decidable P] {k₁ : Kernel}
    (h : (if P then some k₁ else none) = some k') : P ∧ k₁ = k' := by
  obtain ⟨hP, h⟩ := Option.ite_none_right_eq_some.mp h
  exact ⟨hP, Option.some.inj h⟩

/-- One step keeps the tree. -/
theorem TreeInv.step {op : Op} (h : TreeInv k) (hs : Step k op k') : TreeInv k' := by
  rw [Step] at hs
  cases op with
  | userinit =>
    obtain ⟨hk, hs⟩ := Option.ite_none_right_eq_some.mp hs
    exact h.userinit hk hs
  | scheduler i =>
    obtain ⟨hi, rfl⟩ := of_ite_some hs
    exact h.setProc (Calm.of_live (Or.inr (Or.inl hi)) (live_of_running rfl) rfl rfl)
  | forkAlloc c =>
    obtain ⟨hc, rfl⟩ := of_ite_some hs
    exact h.forkAlloc hc
  | forkFail c =>
    simp only [Tree.step] at hs
    split at hs
    · next hc hf =>
      obtain rfl := Option.some.inj hs
      exact h.forkFail hc hf
    · exact absurd hs (by simp)
  | forkLink c =>
    simp only [Tree.step] at hs
    split at hs
    · next hc hf =>
      obtain rfl := Option.some.inj hs
      exact h.forkLink hc hf
    · exact absurd hs (by simp)
  | forkDone c =>
    simp only [Tree.step] at hs
    split at hs
    · next hc hf =>
      obtain rfl := Option.some.inj hs
      exact h.forkDone hc hf
    · exact absurd hs (by simp)
  | exit c =>
    obtain ⟨hc, hs⟩ := Option.ite_none_right_eq_some.mp hs
    exact h.exit hc hs
  | wait c =>
    obtain ⟨hc, rfl⟩ := of_ite_some hs
    exact h.wait (live_of_running hc.1)
  | sleep c chan =>
    obtain ⟨hc, rfl⟩ := of_ite_some hs
    exact h.sleep (live_of_running hc.1) chan
  | wakeup chan =>
    obtain rfl := Option.some.inj hs
    exact h.wakeup1 chan
  | yield c =>
    obtain ⟨hc, rfl⟩ := of_ite_some hs
    exact h.setProc (Calm.of_live (live_of_running hc) (Or.inr (Or.inl rfl)) rfl rfl)
  | kill c pid =>
    obtain ⟨-, rfl⟩ := of_ite_some hs
    exact h.kill pid

/-- Every run keeps the tree. -/
theorem treeInv_of_reach (h : Reach k) : TreeInv k := by
  refine Reachable.invariant (I := TreeInv) (fun k hk => ?_) ?_ h
  · subst hk
    exact treeInv_pinit
  · exact fun _ _ _ hk hs => hk.step hs

/-- **When `sys_getgpid` is defined.**  In every reachable state, for every live process but the
first, it is defined and returns the pid of a live grandparent if and only if the parent is not the
first process. -/
theorem gpidRight_iff (hk : Reach k) (hc : (k.proc c).Live) (hne : k.initproc ≠ some c) :
    GpidRight k c ↔ (k.proc c).parent ≠ k.initproc := by
  have h := treeInv_of_reach hk
  obtain ⟨p, hp⟩ := Option.ne_none_iff_exists'.mp (h.child c hc hne)
  have hl := h.parent c p hp
  rw [hp]
  constructor
  · rintro ⟨p', gp, hp', -, hgp, -⟩ hinit
    obtain rfl := Option.some.inj (hp.symm.trans hp')
    exact absurd ((h.init p hinit.symm).2.symm.trans hgp) (by simp)
  · intro hinit
    obtain ⟨gp, hgp⟩ := Option.ne_none_iff_exists'.mp (h.child p hl (Ne.symm hinit))
    exact ⟨p, gp, hp, hl, hgp, h.parent p gp hgp, by simp [sysGetgpid, hp, hgp]⟩

/-- A child of the first process forks: its child has a grandparent. -/
theorem gpidRight_iff_grandchild : ∃ k, Reach k ∧ (k.proc 2).pid = 3 ∧ GpidRight k 2 := by
  have hrun : ((run step pinit [.userinit, .scheduler 0, .forkAlloc 0, .forkLink 0, .forkDone 0,
      .scheduler 1, .forkAlloc 1, .forkLink 1, .forkDone 1]).any fun k =>
      decide ((k.proc 2).pid = 3 ∧ (k.proc 2).Live ∧ k.initproc ≠ some 2 ∧
        (k.proc 2).parent ≠ k.initproc)) = true := by
    decide +kernel
  obtain ⟨k, hk, hall⟩ := (Option.any_eq_true _ _).mp hrun
  obtain ⟨hpid, hlive, hne, hpar⟩ := of_decide_eq_true hall
  have hreach : Reach k := Reachable.run (fun _ _ _ h => h) (.start rfl) hk
  exact ⟨k, hreach, hpid, (gpidRight_iff hreach hlive hne).mpr hpar⟩

/-- The child of the first process, such as the shell, calls `sys_getgpid`. -/
theorem not_gpidRight : ∃ k, Reach k ∧ Ready k 1 ∧ k.initproc = some 0 ∧
    sysGetgpid k 1 = none ∧ ¬GpidRight k 1 := by
  have hrun : ((run step pinit [.userinit, .scheduler 0, .forkAlloc 0, .forkLink 0, .forkDone 0,
      .scheduler 1]).any fun k =>
      decide (Ready k 1 ∧ k.initproc = some 0 ∧ sysGetgpid k 1 = none)) = true := by
    decide +kernel
  obtain ⟨k, hk, hall⟩ := (Option.any_eq_true _ _).mp hrun
  obtain ⟨hready, hinit, hnull⟩ := of_decide_eq_true hall
  refine ⟨k, Reachable.run (fun _ _ _ h => h) (.start rfl) hk, hready, hinit, hnull, ?_⟩
  rintro ⟨p, gp, -, -, -, -, hpid⟩
  exact absurd (hnull.symm.trans hpid) (by simp)

end Xv6Projects.Tree
