import Xv6Projects.Threads.Table

/-!
# Steps that wake threads up

`wakeup1`, `kill`, the adoption of abandoned processes, and the steps of files, of the log and
of memory: they make sleepers runnable, and change nothing else that `Shape` speaks of.
-/

namespace Xv6Projects.Threads

open Library Kernel

/-- A state that stays as it is, or a sleeper that becomes runnable. -/
def Woken (s s' : State) : Prop := s' = s ∨ s = .sleeping ∧ s' = .runnable

lemma Woken.live_iff {s s' : State} (h : Woken s s') : s'.Live ↔ s.Live := by
  rcases h with rfl | ⟨rfl, rfl⟩ <;> simp [State.Live]

lemma Woken.eq_iff {s s' t : State} (h : Woken s s') (h₁ : t ≠ .sleeping) (h₂ : t ≠ .runnable) :
    s' = t ↔ s = t := by
  rcases h with rfl | ⟨rfl, rfl⟩
  · rfl
  · simp [h₁.symm, h₂.symm]

lemma Woken.sleeping {s s' : State} (h : Woken s s') (hs : s' = .sleeping) : s = .sleeping := by
  rcases h with rfl | ⟨-, rfl⟩
  · exact hs
  · exact absurd hs (by decide)

lemma Woken.trans {s s' s'' : State} (h : Woken s s') (h' : Woken s' s'') : Woken s s'' := by
  rcases h with rfl | ⟨rfl, rfl⟩
  · exact h'
  · rcases h' with rfl | ⟨h, -⟩
    · exact Or.inr ⟨rfl, rfl⟩
    · exact absurd h (by decide)

/-- Threads may have been woken up, and abandoned processes adopted; nothing else that
`Shape` speaks of has changed. -/
structure Calm (k k' : Kernel) : Prop where
  cpu : k'.cpu = k.cpu
  onTidx : ∀ p, (k'.proc p).onTidx = (k.proc p).onTidx
  parent : ∀ p, (k.proc p).parent = none → (k'.proc p).parent = none
  state : ∀ p, Woken (k.proc p).state (k'.proc p).state
  pth : ∀ p i, Woken ((k.proc p).pth i).state ((k'.proc p).pth i).state
  cont : ∀ p i, ((k'.proc p).pth i).cont = ((k.proc p).pth i).cont
  chan : ∀ p i, ((k'.proc p).pth i).chan = ((k.proc p).pth i).chan

lemma Calm.refl (k : Kernel) : Calm k k :=
  ⟨rfl, fun _ => rfl, fun _ h => h, fun _ => Or.inl rfl, fun _ _ => Or.inl rfl, fun _ _ => rfl,
    fun _ _ => rfl⟩

lemma Calm.trans {k k' k'' : Kernel} (h : Calm k k') (h' : Calm k' k'') : Calm k k'' where
  cpu := h'.cpu.trans h.cpu
  onTidx p := (h'.onTidx p).trans (h.onTidx p)
  parent p hp := h'.parent p (h.parent p hp)
  state p := (h.state p).trans (h'.state p)
  pth p i := (h.pth p i).trans (h'.pth p i)
  cont p i := (h'.cont p i).trans (h.cont p i)
  chan p i := (h'.chan p i).trans (h.chan p i)

lemma Calm.shape {k k' : Kernel} (h : Calm k k') (hk : Shape k) : Shape k' := by
  have hcur : ∀ p, k'.Current p ↔ k.Current p := by
    intro p
    rw [Kernel.Current, Kernel.Current, h.cpu]
  have hlive : ∀ p i, k'.Live p i → k.Live p i := fun p i => (h.pth p i).live_iff.mp
  constructor
  · intro p
    have hp := hk.proc p
    have hst := fun t h₁ h₂ => (h.state p).eq_iff (t := t) h₁ h₂
    have hpt := fun i t h₁ h₂ => (h.pth p i).eq_iff (t := t) h₁ h₂
    constructor
    · intro hu i
      exact (hpt i .unused (by decide) (by decide)).mpr
        (hp.unused ((hst .unused (by decide) (by decide)).mp hu) i)
    · intro he
      obtain ⟨h0, hne⟩ := hp.embryo ((hst .embryo (by decide) (by decide)).mp he)
      refine ⟨⟨(hpt 0 .embryo (by decide) (by decide)).mpr h0.1, ?_⟩, fun i hi =>
        (hpt i .unused (by decide) (by decide)).mpr (hne i hi)⟩
      rw [h.cont]
      exact h0.2
    · intro hz i hl
      exact hp.zombie ((hst .zombie (by decide) (by decide)).mp hz) i (hlive p i hl)
    · intro hne i hi
      exact hp.notEmbryo (fun he => hne ((hst .embryo (by decide) (by decide)).mpr he)) i
        ((hpt i .embryo (by decide) (by decide)).mp hi)
    · intro hu
      exact h.parent p (hp.parent ((hst .unused (by decide) (by decide)).mp hu))
  · intro p hp
    obtain ⟨hrun, hat⟩ := hk.place p ((hcur p).mp hp)
    rw [Proc.mypth, h.onTidx p, h.cont, h.cpu]
    exact ⟨((h.pth p _).eq_iff (by decide) (by decide)).mpr hrun, hat⟩
  · intro p i hi
    obtain ⟨hp, he⟩ := hk.running p i (((h.pth p i).eq_iff (by decide) (by decide)).mp hi)
    exact ⟨(hcur p).mpr hp, by rw [he, h.onTidx p]⟩
  · intro p i np hl ht
    rw [h.cont] at ht
    exact ((h.state np).eq_iff (by decide) (by decide)).mpr (hk.target p i np (hlive p i hl) ht)
  · intro p i q j np hl hl' ht ht'
    rw [h.cont] at ht ht'
    exact hk.owner p i q j np (hlive p i hl) (hlive q j hl') ht ht'
  · intro p i np hl hu
    rw [h.cont] at hu
    exact h.parent np (hk.orphan p i np (hlive p i hl) hu)
  · intro p i hs
    rw [h.cont, h.chan]
    exact hk.chan p i ((h.pth p i).sleeping hs)

lemma Proc.wakeup1_state (x : Proc) (c : Chan) : Woken x.state (x.wakeup1 c).state := by
  unfold Proc.wakeup1
  split_ifs with h
  · dsimp only
    unfold Proc.wokenState
    split_ifs with hs
    · exact Or.inr ⟨hs.1, rfl⟩
    · exact Or.inl rfl
  · exact Or.inl rfl

/-- One thread under `wakeup1`. -/
lemma Proc.wakeup1_pth (x : Proc) (c : Chan) (i : Tidx) :
    (x.wakeup1 c).pth i = x.pth i ∨
      x.AsleepOn c i ∧ (x.wakeup1 c).pth i = { x.pth i with state := .runnable } := by
  unfold Proc.wakeup1
  split_ifs with h
  · dsimp only
    unfold Proc.wokenPth
    split_ifs with hs
    · exact Or.inr ⟨hs, rfl⟩
    · exact Or.inl rfl
  · exact Or.inl rfl

@[simp] lemma Proc.wakeup1_onTidx (x : Proc) (c : Chan) : (x.wakeup1 c).onTidx = x.onTidx := by
  unfold Proc.wakeup1
  split_ifs <;> rfl

@[simp] lemma Proc.wakeup1_parent (x : Proc) (c : Chan) : (x.wakeup1 c).parent = x.parent := by
  unfold Proc.wakeup1
  split_ifs <;> rfl

@[simp] lemma Kernel.wakeup1_proc (k : Kernel) (c : Chan) (p : Slot) :
    (k.wakeup1 c).proc p = (k.proc p).wakeup1 c := rfl
@[simp] lemma Kernel.wakeup1_cpu (k : Kernel) (c : Chan) : (k.wakeup1 c).cpu = k.cpu := rfl
@[simp] lemma Kernel.wakeup1_initproc (k : Kernel) (c : Chan) :
    (k.wakeup1 c).initproc = k.initproc := rfl

/-- One process is changed in the ways that `Calm` allows. -/
structure CalmProc (x y : Proc) : Prop where
  onTidx : y.onTidx = x.onTidx
  parent : x.parent = none → y.parent = none
  state : Woken x.state y.state
  pth : ∀ i, Woken (x.pth i).state (y.pth i).state
  cont : ∀ i, (y.pth i).cont = (x.pth i).cont
  chan : ∀ i, (y.pth i).chan = (x.pth i).chan

lemma CalmProc.refl (x : Proc) : CalmProc x x :=
  ⟨rfl, fun h => h, Or.inl rfl, fun _ => Or.inl rfl, fun _ => rfl, fun _ => rfl⟩

/-- A process whose threads, state, parent and current thread stay as they are. -/
lemma CalmProc.of_eq {x y : Proc} (hon : y.onTidx = x.onTidx) (hparent : y.parent = x.parent)
    (hstate : y.state = x.state) (hpth : y.pth = x.pth) : CalmProc x y :=
  ⟨hon, fun h => by rw [hparent, h], Or.inl hstate, fun _ => Or.inl (by rw [hpth]),
    fun _ => by rw [hpth], fun _ => by rw [hpth]⟩

lemma calm_of_proc {k k' : Kernel} (hcpu : k'.cpu = k.cpu)
    (h : ∀ p, CalmProc (k.proc p) (k'.proc p)) : Calm k k' where
  cpu := hcpu
  onTidx p := (h p).onTidx
  parent p := (h p).parent
  state p := (h p).state
  pth p := (h p).pth
  cont p := (h p).cont
  chan p := (h p).chan

lemma calmProc_wakeup1 (x : Proc) (c : Chan) : CalmProc x (x.wakeup1 c) where
  onTidx := x.wakeup1_onTidx c
  parent h := by rw [Proc.wakeup1_parent, h]
  state := x.wakeup1_state c
  pth i := by
    rcases x.wakeup1_pth c i with h | ⟨hs, h⟩
    · exact Or.inl (by rw [h])
    · exact Or.inr ⟨hs.1, by rw [h]⟩
  cont i := by rcases x.wakeup1_pth c i with h | ⟨-, h⟩ <;> rw [h]
  chan i := by rcases x.wakeup1_pth c i with h | ⟨-, h⟩ <;> rw [h]

lemma calm_wakeup1 (k : Kernel) (c : Chan) : Calm k (k.wakeup1 c) :=
  calm_of_proc rfl fun p => calmProc_wakeup1 (k.proc p) c

lemma calm_updProc {k : Kernel} {p : Slot} {f : Proc → Proc}
    (h : CalmProc (k.proc p) (f (k.proc p))) : Calm k (k.updProc p f) := by
  refine calm_of_proc rfl fun q => ?_
  by_cases hq : q = p
  · subst hq
    rwa [updProc_self]
  · rw [updProc_of_ne _ _ hq]
    exact CalmProc.refl _

lemma calm_of_eq {k k' : Kernel} (hproc : k'.proc = k.proc) (hcpu : k'.cpu = k.cpu) :
    Calm k k' := by
  refine calm_of_proc hcpu fun p => ?_
  rw [hproc]
  exact CalmProc.refl _

/-- A change of the current thread that leaves its state, its place and its channel. -/
lemma calmProc_updMypth (x : Proc) (f : Pthread → Pthread)
    (hf : ∀ t, (f t).state = t.state ∧ (f t).cont = t.cont ∧ (f t).chan = t.chan) :
    CalmProc x (x.updMypth f) where
  onTidx := rfl
  parent h := h
  state := Or.inl rfl
  pth i := by
    rw [Proc.updMypth, Proc.updPth_pth]
    split_ifs with hi
    · rw [hi]
      exact Or.inl (hf _).1
    · exact Or.inl rfl
  cont i := by
    rw [Proc.updMypth, Proc.updPth_pth]
    split_ifs with hi
    · rw [hi]
      exact (hf _).2.1
    · rfl
  chan i := by
    rw [Proc.updMypth, Proc.updPth_pth]
    split_ifs with hi
    · rw [hi]
      exact (hf _).2.2
    · rfl

lemma calmProc_kill (x : Proc) : CalmProc x x.kill := by
  refine ⟨rfl, fun h => h, ?_, fun i => ?_, fun i => ?_, fun i => ?_⟩
  · dsimp only [Proc.kill]
    split_ifs with h
    · exact Or.inr ⟨h, rfl⟩
    · exact Or.inl rfl
  all_goals
    dsimp only [Proc.kill]
    split_ifs with h
  · exact Or.inr ⟨h, rfl⟩
  · exact Or.inl rfl
  all_goals rfl

lemma calm_kill (k : Kernel) (pid : ℤ) : Calm k (k.kill pid) := by
  unfold Kernel.kill
  split
  · exact Calm.refl k
  · exact calm_updProc (calmProc_kill _)

lemma calm_adopt (k : Kernel) (p : Slot) : Calm k (k.adopt p) := by
  refine calm_of_proc rfl fun q => ?_
  rw [adopt, mapProc_proc]
  split_ifs with h
  · exact ⟨rfl, fun hn => absurd (hn.symm.trans h) (by simp), Or.inl rfl, fun _ => Or.inl rfl,
      fun _ => rfl, fun _ => rfl⟩
  · exact CalmProc.refl _

lemma calm_reparent (k : Kernel) (p : Slot) : Calm k (k.reparent p) := by
  unfold reparent
  split_ifs
  · exact (calm_adopt k p).trans (calm_wakeup1 _ _)
  · exact calm_adopt k p

lemma calm_fdalloc (k : Kernel) (p : Slot) (f : ℕ) : Calm k (k.fdalloc p f) := by
  unfold fdalloc
  split
  · exact Calm.refl k
  · exact calm_updProc (CalmProc.of_eq rfl rfl rfl rfl)

lemma calm_setFsOp (k : Kernel) (p : Slot) (o : FsOp) : Calm k (k.setFsOp p o) :=
  calm_updProc (calmProc_updMypth _ _ fun _ => ⟨rfl, rfl, rfl⟩)

lemma calm_setSleeplocks (k : Kernel) (p : Slot) (ls : List ℕ) :
    Calm k (k.setSleeplocks p ls) :=
  calm_updProc (calmProc_updMypth _ _ fun _ => ⟨rfl, rfl, rfl⟩)

lemma calm_endOp {k k' : Kernel} {p : Slot} (h : k.endOp p = some k') : Calm k k' := by
  unfold endOp at h
  split_ifs at h
  · obtain rfl := Option.some.inj h
    exact (calm_setFsOp k p .commit).trans (calm_of_eq rfl rfl)
  · obtain rfl := Option.some.inj h
    refine Calm.trans ?_ (calm_wakeup1 _ _)
    exact (calm_setFsOp k p .out).trans (calm_of_eq rfl rfl)

lemma calm_commitDone (k : Kernel) (p : Slot) : Calm k (k.commitDone p) := by
  refine Calm.trans ?_ (calm_wakeup1 _ _)
  exact (calm_setFsOp k p .out).trans (calm_of_eq rfl rfl)

lemma calm_releasesleep (k : Kernel) (p : Slot) (l : ℕ) : Calm k (k.releasesleep p l) := by
  refine Calm.trans ?_ (calm_wakeup1 _ _)
  exact (calm_setSleeplocks k p _).trans (calm_of_eq rfl rfl)

lemma calm_growproc {k k' : Kernel} {p : Slot} {n avail : ℕ}
    (h : k.growproc p n avail = some k') : Calm k k' := by
  obtain ⟨y, hy, rfl⟩ := Option.map_eq_some_iff.mp h
  obtain ⟨r, -, rfl⟩ := Option.map_eq_some_iff.mp hy
  exact calm_updProc (CalmProc.of_eq rfl rfl rfl rfl)

end Xv6Projects.Threads
