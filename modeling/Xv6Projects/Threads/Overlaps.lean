import Xv6Projects.Threads.Files

/-!
# The calls on descriptors that may overlap

Which calls of the threads of one process have to stay apart for the reference counts to be right:
two `fdalloc` between the test of an entry and its store, two `sys_close` of one descriptor, a
`sys_close` and a `sys_dup` of one file, and `exit` and any other call.  When these do not overlap,
`exit` finds every entry as it has left it, and gives each of them back once.
-/

namespace Xv6Projects.Threads

open Library Files

/-! ### The calls -/

namespace FilePlace

/-- The entry that the thread has found free, and has not stored yet. -/
def stores : FilePlace → Option Fd
  | .store _ _ fd => some fd
  | _ => none

/-- The entry that `sys_close` has read, and has not cleared yet, and its file. -/
def closes : FilePlace → Option (Fd × FileId)
  | .clear fd f => some (fd, f)
  | _ => none

/-- The file that `sys_dup` has read, and has not counted yet. -/
def dups : FilePlace → Option FileId
  | .scan false f _ | .store false f _ | .filedup f _ => some f
  | _ => none

/-- The thread is in `exit`. -/
def InExit : FilePlace → Prop
  | .exitScan _ | .exitClose _ | .exitFileclose _ _ | .exitClear _ _ | .exitCwd | .exitCwdClear
  | .exitLock => True
  | _ => False

/-- The thread is outside, at the start of `sys_open`, or about to return. -/
def Idle : FilePlace → Prop
  | .user | .sysOpen | .tail => True
  | _ => False

instance (c : FilePlace) : Decidable c.InExit := by
  cases c <;> first | exact instDecidableTrue | exact instDecidableFalse

instance (c : FilePlace) : Decidable c.Idle := by
  cases c <;> first | exact instDecidableTrue | exact instDecidableFalse

/-- The number of entries that `exit` has passed. -/
def passed : FilePlace → ℕ
  | .exitScan n => n
  | .exitClose fd | .exitFileclose fd _ | .exitClear fd _ => fd
  | .exitCwd | .exitCwdClear | .exitLock => NOFILE
  | _ => 0

end FilePlace

/-- The calls of the threads of one process that have to stay apart do: `fdalloc` does not find an
entry free that another thread has found free and not yet stored; `sys_close` does not start for a
descriptor that another thread is closing, nor for a file that another thread is duplicating, and
`sys_dup` not for a file that another thread is closing; and no call starts, or comes to `fdalloc`,
while another thread is in `exit`, which starts when no thread is inside a call. -/
def CallsApart (s : Files) : Slot × Tidx × FileOp → Prop
  | (p, _, .sysDup fd) => ∀ j, ¬(s.place p j).InExit ∧
      ∀ e f, (s.place p j).closes = some (e, f) → s.ofile p fd ≠ some f
  | (p, _, .sysClose fd) => ∀ j, ¬(s.place p j).InExit ∧
      (∀ f, (s.place p j).closes ≠ some (fd, f)) ∧
      ∀ f, (s.place p j).dups = some f → s.ofile p fd ≠ some f
  | (p, _, .exit) => ∀ j, (s.place p j).Idle
  | (_, _, .sysOpen) => True
  | (p, i, .next) =>
      match s.place p i with
      | .sysOpen => ∀ j, ¬(s.place p j).InExit
      | .scan _ _ n => ∀ fd : Fd, fd = n → s.ofile p fd = none →
          ∀ j, (s.place p j).stores ≠ some fd
      | _ => True

/-! ### What the calls find -/

/-- What the threads of `p` outside `exit` rely on. -/
structure Files.TableApart (s : Files) (p : Slot) : Prop where
  /-- An entry that has been found free is free, and belongs to one thread. -/
  store : ∀ i fd, (s.place p i).stores = some fd → s.ofile p fd = none
  storeAlone : ∀ i j fd, (s.place p i).stores = some fd → (s.place p j).stores = some fd → i = j
  /-- An entry that is being closed holds the file, and belongs to one thread. -/
  clear : ∀ i fd f, (s.place p i).closes = some (fd, f) → s.ofile p fd = some f
  clearAlone : ∀ i j fd f g, (s.place p i).closes = some (fd, f) →
    (s.place p j).closes = some (fd, g) → i = j
  /-- A file that is being duplicated is held by an entry that is counted, and is not closed. -/
  dup : ∀ i f, (s.place p i).dups = some f → ∃ fd, s.ofile p fd = some f ∧ s.Settled p fd
  dupClear : ∀ i j f fd, (s.place p i).dups = some f → (s.place p j).closes ≠ some (fd, f)

/-- What a thread of `p` in `exit` relies on. -/
structure Files.ExitApart (s : Files) (p : Slot) : Prop where
  idle : ∀ i j, (s.place p i).InExit → j ≠ i → (s.place p j).Idle
  /-- The entries that `exit` has passed are null. -/
  passed : ∀ i (fd : Fd), fd < (s.place p i).passed → s.ofile p fd = none
  close : ∀ i fd, s.place p i = .exitClose fd → s.ofile p fd ≠ none
  fileclose : ∀ i fd f, s.place p i = .exitFileclose fd f → s.ofile p fd = some f
  cwd : s.cwd p = none → ∃ i, s.place p i = .exitLock

section
variable {s s' : Files} {p : Slot} {i : Tidx} {c : FilePlace} {fd : Fd} {f : FileId}

namespace FilePlace

lemma Idle.none (h : c.Idle) : c.stores = Option.none ∧ c.closes = Option.none ∧
    c.dups = Option.none ∧ c.debt = Option.none ∧ c.spare = Option.none := by
  cases c <;> first | exact ⟨rfl, rfl, rfl, rfl, rfl⟩ | exact h.elim

lemma Idle.passed (h : c.Idle) : c.passed = 0 := by
  cases c <;> first | rfl | exact h.elim

lemma InExit.none (h : c.InExit) : c.stores = Option.none ∧ c.closes = Option.none ∧
    c.dups = Option.none := by
  cases c <;> first | exact ⟨rfl, rfl, rfl⟩ | exact h.elim

lemma passed_of_not_inExit (h : ¬c.InExit) : c.passed = 0 := by
  cases c <;> first | rfl | exact absurd trivial h

lemma InExit.not_idle (h : c.InExit) : ¬c.Idle := by
  cases c <;> first | exact id | exact h.elim

lemma closes_of_dups (h : c.dups = some f) : c.closes = Option.none := by
  cases c <;> first | rfl | exact absurd h (by simp [dups])

/-- An entry is counted late by `sys_dup` and by `exit`. -/
lemma dups_of_debt (h : c.debt = some (fd, f)) : c.dups = some f ∨ c.InExit := by
  cases c with
  | filedup g e =>
    obtain ⟨-, rfl⟩ := Prod.mk.inj (Option.some.inj h)
    exact Or.inl rfl
  | exitClear e g => exact Or.inr trivial
  | _ => exact absurd h (by simp [debt])

end FilePlace

/-- Outside `exit` nothing is said about it. -/
lemma exitApart_of_not (hno : ∀ j, ¬(s.place p j).InExit) (hcwd : s.cwd p ≠ none) :
    s.ExitApart p := by
  refine ⟨fun i _ hi => absurd hi (hno i), fun i fd hfd => ?_, fun i fd hi => ?_,
    fun i fd f hi => ?_, fun h => absurd h hcwd⟩
  · rw [FilePlace.passed_of_not_inExit (hno i)] at hfd
    exact absurd hfd (Nat.not_lt_zero _)
  · exact absurd (by rw [hi]; trivial) (hno i)
  · exact absurd (by rw [hi]; trivial) (hno i)

lemma Files.ExitApart.cwd_ne (h : s.ExitApart p) (hno : ∀ j, ¬(s.place p j).InExit) :
    s.cwd p ≠ none := by
  intro hn
  obtain ⟨i, hi⟩ := h.cwd hn
  exact hno i (by rw [hi]; trivial)

/-- While a thread is in `exit`, before the end of it, the others are outside and `cwd` is set. -/
lemma Files.ExitApart.inside (h : s.ExitApart p) (hi : (s.place p i).InExit)
    (hlock : s.place p i ≠ .exitLock) :
    (∀ j, j ≠ i → (s.place p j).Idle) ∧ s.cwd p ≠ none := by
  refine ⟨fun j hj => h.idle i j hi hj, fun hn => ?_⟩
  obtain ⟨j, hj⟩ := h.cwd hn
  by_cases hji : j = i
  · exact hlock (hji ▸ hj)
  · have hidle := h.idle i j hi hji
    rw [hj] at hidle
    exact hidle

/-- No thread is in `exit` while a thread is inside another call. -/
lemma Files.ExitApart.not_inExit (h : s.ExitApart p) (hi : ¬(s.place p i).Idle)
    (hi' : ¬(s.place p i).InExit) (j : Tidx) : ¬(s.place p j).InExit := by
  intro hj
  by_cases hij : i = j
  · exact hi' (hij ▸ hj)
  · exact hi (h.idle j i hj hij)

/-- Thread `i` goes on at place `c`, and entry `d` becomes `o`. -/
structure Goes (s s' : Files) (p : Slot) (i : Tidx) (c : FilePlace) (d : Fd)
    (o : Option FileId) : Prop where
  place : ∀ j, s'.place p j = if j = i then c else s.place p j
  ofile : ∀ e, s'.ofile p e = if e = d then o else s.ofile p e

/-- The threads outside `exit` rely on what they have tested, after one of them has gone on. -/
lemma Files.TableApart.goes (h : s.TableApart p) {d : Fd} {o : Option FileId}
    (hg : Goes s s' p i c d o)
    (hstore : ∀ fd, c.stores = some fd → s'.ofile p fd = none ∧
      ∀ j, j ≠ i → (s.place p j).stores ≠ some fd)
    (hclose : ∀ fd f, c.closes = some (fd, f) → s'.ofile p fd = some f ∧
      ∀ j, j ≠ i → (∀ g, (s.place p j).closes ≠ some (fd, g)) ∧ (s.place p j).dups ≠ some f)
    (hdup : ∀ f, c.dups = some f → (∃ fd, s'.ofile p fd = some f ∧ s'.Settled p fd) ∧
      ∀ j, j ≠ i → ∀ fd, (s.place p j).closes ≠ some (fd, f))
    (hothers : ∀ j, j ≠ i → ((s.place p j).stores = some d → o = none) ∧
      (∀ g, (s.place p j).closes = some (d, g) → o = some g) ∧
      ∀ g, (s.place p j).dups = some g → ∃ fd, s'.ofile p fd = some g ∧ s'.Settled p fd) :
    s'.TableApart p := by
  have hkept : ∀ j, j ≠ i → s'.place p j = s.place p j := fun j hj => by
    rw [hg.place, if_neg hj]
  have hmine : s'.place p i = c := by rw [hg.place, if_pos rfl]
  constructor
  · intro j fd hj
    by_cases hji : j = i
    · subst hji
      rw [hmine] at hj
      exact (hstore fd hj).1
    · rw [hkept j hji] at hj
      rw [hg.ofile]
      split_ifs with hd
      · subst hd
        exact (hothers j hji).1 hj
      · exact h.store j fd hj
  · intro j l fd hj hl
    by_cases hji : j = i <;> by_cases hli : l = i
    · exact hji.trans hli.symm
    · subst hji
      rw [hmine] at hj
      rw [hkept l hli] at hl
      exact absurd hl ((hstore fd hj).2 l hli)
    · subst hli
      rw [hmine] at hl
      rw [hkept j hji] at hj
      exact absurd hj ((hstore fd hl).2 j hji)
    · rw [hkept j hji] at hj
      rw [hkept l hli] at hl
      exact h.storeAlone j l fd hj hl
  · intro j fd f hj
    by_cases hji : j = i
    · subst hji
      rw [hmine] at hj
      exact (hclose fd f hj).1
    · rw [hkept j hji] at hj
      rw [hg.ofile]
      split_ifs with hd
      · subst hd
        exact (hothers j hji).2.1 f hj
      · exact h.clear j fd f hj
  · intro j l fd f g hj hl
    by_cases hji : j = i <;> by_cases hli : l = i
    · exact hji.trans hli.symm
    · subst hji
      rw [hmine] at hj
      rw [hkept l hli] at hl
      exact absurd hl (((hclose fd f hj).2 l hli).1 g)
    · subst hli
      rw [hmine] at hl
      rw [hkept j hji] at hj
      exact absurd hj (((hclose fd g hl).2 j hji).1 f)
    · rw [hkept j hji] at hj
      rw [hkept l hli] at hl
      exact h.clearAlone j l fd f g hj hl
  · intro j f hj
    by_cases hji : j = i
    · subst hji
      rw [hmine] at hj
      exact (hdup f hj).1
    · rw [hkept j hji] at hj
      exact (hothers j hji).2.2 f hj
  · intro j l f fd hj hl
    by_cases hji : j = i <;> by_cases hli : l = i
    · -- one thread cannot do both
      rw [hji, hmine] at hj
      rw [hli, hmine, FilePlace.closes_of_dups hj] at hl
      exact absurd hl (by simp)
    · rw [hji, hmine] at hj
      rw [hkept l hli] at hl
      exact (hdup f hj).2 l hli fd hl
    · rw [hli, hmine] at hl
      rw [hkept j hji] at hj
      exact ((hclose fd f hl).2 j hji).2 hj
    · rw [hkept j hji] at hj
      rw [hkept l hli] at hl
      exact h.dupClear j l f fd hj hl

/-- A step that writes no entry, and after which the thread counts none. -/
lemma Files.TableApart.walk (h : s.TableApart p) (hplace : ∀ j, s'.place p j =
      if j = i then c else s.place p j) (hofile : ∀ e, s'.ofile p e = s.ofile p e)
    (hdebt : c.debt = none)
    (hstore : ∀ fd, c.stores = some fd → s.ofile p fd = none ∧
      ∀ j, j ≠ i → (s.place p j).stores ≠ some fd)
    (hclose : ∀ fd f, c.closes = some (fd, f) → s.ofile p fd = some f ∧
      ∀ j, j ≠ i → (∀ g, (s.place p j).closes ≠ some (fd, g)) ∧ (s.place p j).dups ≠ some f)
    (hdup : ∀ f, c.dups = some f → (∃ fd, s.ofile p fd = some f ∧ s.Settled p fd) ∧
      ∀ j, j ≠ i → ∀ fd, (s.place p j).closes ≠ some (fd, f)) : s'.TableApart p := by
  have hsettled : ∀ g, (∃ fd, s.ofile p fd = some g ∧ s.Settled p fd) →
      ∃ fd, s'.ofile p fd = some g ∧ s'.Settled p fd := by
    rintro g ⟨fd, hfd, hset⟩
    refine ⟨fd, by rw [hofile, hfd], fun j f hd => ?_⟩
    rw [hplace] at hd
    split_ifs at hd
    · rw [hdebt] at hd
      exact absurd hd (by simp)
    · exact hset j f hd
  have hg : Goes s s' p i c 0 (s.ofile p 0) := by
    refine ⟨hplace, fun e => ?_⟩
    rw [hofile]
    split_ifs with he
    · rw [he]
    · rfl
  refine h.goes hg (fun fd hfd => ?_) (fun fd f hfd => ?_) (fun f hf => ?_) fun j hj =>
    ⟨fun hs => h.store j 0 hs, fun g hc => h.clear j 0 g hc, fun g hd => hsettled g (h.dup j g hd)⟩
  · rw [hofile]
    exact hstore fd hfd
  · rw [hofile]
    exact hclose fd f hfd
  · exact ⟨hsettled f (hdup f hf).1, (hdup f hf).2⟩

/-- What the threads of `p` rely on. -/
def Files.Apart (s : Files) (p : Slot) : Prop := s.TableApart p ∧ s.ExitApart p

/-- No thread finds that what it has tested has changed. -/
lemma Files.Apart.unchanged {s₀ : Files} (h : s.Apart p) (hi : FilesInv s₀ s) :
    Unchanged s (p, i, .next) := by
  obtain ⟨ht, he⟩ := h
  have hout : ∀ {j}, (s.place p i).InExit → j ≠ i → (s.place p j).Idle := fun h hj =>
    he.idle i _ h hj
  unfold Unchanged
  dsimp only
  cases hc : s.place p i with
  | store new f fd => exact ht.store i fd (by rw [hc]; rfl)
  | filedup f fd =>
    obtain ⟨e, hentry, hset⟩ := ht.dup i f (by rw [hc]; rfl)
    exact Files.ref_pos_of_entry hi.balanced hi.owned hentry hset
  | clear fd f =>
    have hcl : (s.place p i).closes = some (fd, f) := by
      rw [hc]
      rfl
    have hentry := ht.clear i fd f hcl
    refine ⟨hentry, fun j g hd => ?_⟩
    rcases FilePlace.dups_of_debt hd with hdup | hexit
    · have hg := hi.owned.entry p j fd g hd
      rw [hentry] at hg
      obtain rfl := Option.some.inj hg
      exact ht.dupClear j i f fd hdup hcl
    · refine he.not_inExit (i := i) ?_ ?_ j hexit
      · rw [hc]
        exact id
      · rw [hc]
        exact id
  | exitClose fd => exact he.close i fd hc
  | exitFileclose fd f =>
    refine ⟨he.fileclose i fd f hc, fun j g hd => ?_⟩
    by_cases hj : j = i
    · rw [hj, hc] at hd
      exact absurd hd (by simp [FilePlace.debt])
    · rw [(hout (by rw [hc]; trivial) hj).none.2.2.2.1] at hd
      exact absurd hd (by simp)
  | exitCwd =>
    have hexit : (s.place p i).InExit := by
      rw [hc]
      trivial
    have hother : ∀ j c, s.place p j = c → c.InExit → c ≠ .exitCwd → False := by
      rintro j c hj hc' hne
      by_cases hji : j = i
      · rw [← hj, hji, hc] at hne
        exact hne rfl
      · have hidle := hout hexit hji
        rw [hj] at hidle
        exact hc'.not_idle hidle
    refine ⟨fun hn => ?_, fun j hj => hother j _ hj trivial (by simp)⟩
    obtain ⟨j, hj⟩ := he.cwd hn
    exact hother j _ hj trivial (by simp)
  | exitLock =>
    refine ⟨fun fd => he.passed i fd (by rw [hc]; exact fd.isLt), fun j => ?_⟩
    by_cases hj : j = i
    · rw [hj, hc]
      exact ⟨rfl, rfl⟩
    · have hidle := (hout (by rw [hc]; trivial) hj).none
      exact ⟨hidle.2.2.2.2, hidle.2.2.2.1⟩
  | _ => trivial

/-! ### The steps -/

/-- A thread goes on in `exit`, or enters it, when the others are outside. -/
lemma Files.Apart.exit (hidle : ∀ j, j ≠ i → (s.place p j).Idle)
    (hplace : ∀ j, s'.place p j = if j = i then c else s.place p j) (hc : c.InExit)
    (hpassed : ∀ fd : Fd, fd < c.passed → s'.ofile p fd = none)
    (hclose : ∀ fd, c = .exitClose fd → s'.ofile p fd ≠ none)
    (hfileclose : ∀ fd f, c = .exitFileclose fd f → s'.ofile p fd = some f)
    (hcwd : s'.cwd p = none → c = .exitLock) : s'.Apart p := by
  have hkept : ∀ j, j ≠ i → (s'.place p j).Idle := fun j hj => by
    rw [hplace, if_neg hj]
    exact hidle j hj
  have hmine : s'.place p i = c := by rw [hplace, if_pos rfl]
  have hnone : ∀ j, (s'.place p j).stores = none ∧ (s'.place p j).closes = none ∧
      (s'.place p j).dups = none := fun j => by
    by_cases hj : j = i
    · rw [hj, hmine]
      exact hc.none
    · have h := (hkept j hj).none
      exact ⟨h.1, h.2.1, h.2.2.1⟩
  have honly : ∀ j, ¬(s'.place p j).Idle → j = i := fun j hj => by
    by_contra hne
    exact hj (hkept j hne)
  refine ⟨⟨?_, ?_, ?_, ?_, ?_, ?_⟩, ?_, ?_, ?_, ?_, ?_⟩
  · intro j fd hj
    rw [(hnone j).1] at hj
    exact absurd hj (by simp)
  · intro j l fd hj
    rw [(hnone j).1] at hj
    exact absurd hj (by simp)
  · intro j fd f hj
    rw [(hnone j).2.1] at hj
    exact absurd hj (by simp)
  · intro j l fd f g hj
    rw [(hnone j).2.1] at hj
    exact absurd hj (by simp)
  · intro j f hj
    rw [(hnone j).2.2] at hj
    exact absurd hj (by simp)
  · intro j l f fd hj
    rw [(hnone j).2.2] at hj
    exact absurd hj (by simp)
  · intro j l hj hl
    obtain rfl := honly j hj.not_idle
    exact hkept l hl
  · intro j fd hfd
    by_cases hj : j = i
    · rw [hj, hmine] at hfd
      exact hpassed fd hfd
    · rw [(hkept j hj).passed] at hfd
      exact absurd hfd (Nat.not_lt_zero _)
  · intro j fd hj
    obtain rfl := honly j (by rw [hj]; exact id)
    exact hclose fd (hmine.symm.trans hj)
  · intro j fd f hj
    obtain rfl := honly j (by rw [hj]; exact id)
    exact hfileclose fd f (hmine.symm.trans hj)
  · intro hn
    exact ⟨i, hmine.trans (hcwd hn)⟩

/-- A thread goes on outside `exit`, when no thread is in it. -/
lemma Files.ExitApart.outside (h : s.ExitApart p) (hno : ∀ j, ¬(s.place p j).InExit)
    (hplace : ∀ j, s'.place p j = if j = i then c else s.place p j) (hc : ¬c.InExit)
    (hcwd : s'.cwd p = s.cwd p) : s'.ExitApart p := by
  refine exitApart_of_not (fun j => ?_) ?_
  · rw [hplace]
    split_ifs
    · exact hc
    · exact hno j
  · rw [hcwd]
    exact h.cwd_ne hno

/-- A thread that is outside stays so. -/
lemma Files.ExitApart.idleStep (h : s.ExitApart p) (hi : (s.place p i).Idle) (hc : c.Idle)
    (hplace : ∀ j, s'.place p j = if j = i then c else s.place p j)
    (hofile : ∀ e, s'.ofile p e = s.ofile p e) (hcwd : s'.cwd p = s.cwd p) :
    s'.ExitApart p := by
  have hexit : ∀ j, ¬(s'.place p j).Idle → j ≠ i ∧ s'.place p j = s.place p j := fun j hj => by
    rw [hplace] at hj ⊢
    split_ifs at hj ⊢ with hji
    · exact absurd hc hj
    · exact ⟨hji, rfl⟩
  refine ⟨fun j l hj hl => ?_, fun j fd hfd => ?_, fun j fd hj => ?_, fun j fd f hj => ?_,
    fun hn => ?_⟩
  · rw [(hexit j hj.not_idle).2] at hj
    rw [hplace]
    split_ifs
    · exact hc
    · exact h.idle j l hj hl
  · rw [hofile]
    rw [hplace] at hfd
    split_ifs at hfd
    · rw [hc.passed] at hfd
      exact absurd hfd (Nat.not_lt_zero _)
    · exact h.passed j fd hfd
  · rw [hofile]
    exact h.close j fd ((hexit j (by rw [hj]; exact id)).2 ▸ hj)
  · rw [hofile]
    exact h.fileclose j fd f ((hexit j (by rw [hj]; exact id)).2 ▸ hj)
  · rw [hcwd] at hn
    obtain ⟨j, hj⟩ := h.cwd hn
    refine ⟨j, ?_⟩
    rw [hplace, if_neg]
    · exact hj
    · rintro rfl
      rw [hj] at hi
      exact hi

/-- A thread goes on to a place at which it relies on nothing. -/
lemma Files.TableApart.rest (h : s.TableApart p)
    (hplace : ∀ j, s'.place p j = if j = i then c else s.place p j)
    (hofile : ∀ e, s'.ofile p e = s.ofile p e) (hdebt : c.debt = none) (hs : c.stores = none)
    (hcl : c.closes = none) (hd : c.dups = none) : s'.TableApart p := by
  refine h.walk hplace hofile hdebt (fun fd hfd => ?_) (fun fd f hfd => ?_) fun f hf => ?_
  · rw [hs] at hfd
    exact absurd hfd (by simp)
  · rw [hcl] at hfd
    exact absurd hfd (by simp)
  · rw [hd] at hf
    exact absurd hf (by simp)

lemma Files.goOn_self (s : Files) (p : Slot) (i j : Tidx) (c : FilePlace) :
    (s.goOn p i c).place p j = if j = i then c else s.place p j := by
  rw [goOn_place]
  simp only [Prod.mk.injEq, true_and]

lemma Files.setFd_self_ofile (s : Files) (p : Slot) (fd e : Fd) (o : Option FileId) :
    (s.setFd p fd o).ofile p e = if e = fd then o else s.ofile p e := by
  rw [setFd_ofile]
  simp only [Prod.mk.injEq, true_and]

/-- The next statement of a thread keeps what the threads of its process rely on. -/
lemma Files.Apart.next {s₀ : Files} (h : s.Apart p) (hi' : FilesInv s₀ s')
    (hsafe : CallsApart s (p, i, .next)) (hs : s.next p i (s.place p i) = some s')
    (hlive : s'.dead p = false) : s'.Apart p := by
  obtain ⟨ht, he⟩ := h
  unfold CallsApart at hsafe
  dsimp only at hsafe
  cases hc : s.place p i with
  | user =>
    rw [hc] at hs
    exact absurd hs (by simp [Files.next])
  | sysOpen =>
    rw [hc, Files.next] at hs
    rw [hc] at hsafe
    have hno : ∀ j, ¬(s.place p j).InExit := hsafe
    split at hs
    · obtain rfl := Option.some.inj hs
      exact ⟨ht.rest (fun j => s.goOn_self p i j .user) (fun _ => rfl) rfl rfl rfl rfl,
        he.outside hno (fun j => s.goOn_self p i j .user) id rfl⟩
    · rename_i f _
      obtain rfl := Option.some.inj hs
      exact ⟨ht.rest (fun j => s.goOn_self p i j (.scan true f 0)) (fun _ => rfl) rfl rfl rfl rfl,
        he.outside hno (fun j => s.goOn_self p i j (.scan true f 0)) id rfl⟩
  | scan new f n =>
    have hno := he.not_inExit (i := i) (by rw [hc]; exact id) (by rw [hc]; exact id)
    -- the file is still held by an entry, and is not closed
    have hdup : ∀ c : FilePlace, (∀ g, c.dups = some g → (s.place p i).dups = some g) →
        ∀ g, c.dups = some g → (∃ fd, s.ofile p fd = some g ∧ s.Settled p fd) ∧
          ∀ j, j ≠ i → ∀ fd, (s.place p j).closes ≠ some (fd, g) := fun c hcd g hg =>
      ⟨ht.dup i g (hcd g hg), fun j _ fd => ht.dupClear i j g fd (hcd g hg)⟩
    have hsame : ∀ c : FilePlace, c.stores = none → c.closes = none → c.debt = none →
        ¬c.InExit → (∀ g, c.dups = some g → (s.place p i).dups = some g) →
        (s.goOn p i c).Apart p := fun c hcs hcc hcd hce hcg =>
      ⟨ht.walk (fun j => s.goOn_self p i j c) (fun _ => rfl) hcd
        (fun fd hfd => absurd (hcs.symm.trans hfd) (by simp))
        (fun fd f hfd => absurd (hcc.symm.trans hfd) (by simp)) (hdup c hcg),
        he.outside hno (fun j => s.goOn_self p i j c) hce rfl⟩
    rw [hc, Files.next] at hs
    rw [hc] at hsafe hsame hdup
    split_ifs at hs with hlt hnone hnew
    · obtain rfl := Option.some.inj hs
      have hothers := hsafe ⟨n, hlt⟩ rfl hnone
      refine ⟨ht.walk (fun j => s.goOn_self p i j (.store new f ⟨n, hlt⟩)) (fun _ => rfl) rfl
        (fun fd hfd => ?_) (fun fd g hfd => absurd hfd (by simp [FilePlace.closes]))
        (hdup _ fun g hg => ?_), he.outside hno (fun j => s.goOn_self p i j _) id rfl⟩
      · obtain rfl := Option.some.inj hfd
        exact ⟨hnone, fun j _ => hothers j⟩
      · cases new with
        | true => exact absurd hg (by simp [FilePlace.dups])
        | false => exact hg
    · obtain rfl := Option.some.inj hs
      refine hsame _ rfl rfl rfl id fun g hg => ?_
      cases new with
      | true => exact absurd hg (by simp [FilePlace.dups])
      | false => exact hg
    · obtain rfl := Option.some.inj hs
      exact hsame _ rfl rfl rfl id fun g hg => absurd hg (by simp [FilePlace.dups])
    · obtain rfl := Option.some.inj hs
      exact hsame _ rfl rfl rfl id fun g hg => absurd hg (by simp [FilePlace.dups])
  | store new f fd =>
    have hno := he.not_inExit (i := i) (by rw [hc]; exact id) (by rw [hc]; exact id)
    have hmine : (s.place p i).stores = some fd := by
      rw [hc]
      rfl
    have hfree := ht.store i fd hmine
    rw [hc] at hs
    obtain rfl := Option.some.inj hs
    set c : FilePlace := if new then .tail else .filedup f fd with hcdef
    have hg : Goes s (((s.goOn p i c).setFd p fd (some f)).setGiven p fd (s.given p fd + 1)) p i c
        fd (some f) := ⟨fun j => s.goOn_self p i j c, fun e => s.setFd_self_ofile p fd e (some f)⟩
    -- an entry that is counted is not the one that is stored
    have hsource : ∀ g, (∃ e, s.ofile p e = some g ∧ s.Settled p e) → ∃ e,
        (((s.goOn p i c).setFd p fd (some f)).setGiven p fd (s.given p fd + 1)).ofile p e =
          some g ∧
        (((s.goOn p i c).setFd p fd (some f)).setGiven p fd (s.given p fd + 1)).Settled p e := by
      rintro g ⟨e, hentry, hset⟩
      have hne : e ≠ fd := by
        rintro rfl
        rw [hfree] at hentry
        exact absurd hentry (by simp)
      refine ⟨e, ?_, fun j g' hd => ?_⟩
      · rw [hg.ofile, if_neg hne]
        exact hentry
      · rw [hg.place] at hd
        split_ifs at hd
        · cases new with
          | true => exact absurd hd (by simp [hcdef, FilePlace.debt])
          | false =>
            obtain ⟨rfl, -⟩ := Prod.mk.inj (Option.some.inj hd)
            exact hne rfl
        · exact hset j g' hd
    refine ⟨ht.goes hg (fun e hfd => ?_) (fun e g hfd => ?_) (fun g hd => ?_) fun j hj =>
      ⟨fun hj' => absurd (ht.storeAlone j i fd hj' hmine) hj, fun g hj' => ?_,
        fun g hd => hsource g (ht.dup j g hd)⟩, he.outside hno hg.place ?_ rfl⟩
    · cases new with
      | true => exact absurd hfd (by simp [hcdef, FilePlace.stores])
      | false => exact absurd hfd (by simp [hcdef, FilePlace.stores])
    · cases new with
      | true => exact absurd hfd (by simp [hcdef, FilePlace.closes])
      | false => exact absurd hfd (by simp [hcdef, FilePlace.closes])
    · cases new with
      | true => exact absurd hd (by simp [hcdef, FilePlace.dups])
      | false =>
        have hold : (s.place p i).dups = some g := by
          rw [hc]
          exact hd
        exact ⟨hsource g (ht.dup i g hold), fun j _ e => ht.dupClear i j g e hold⟩
    · exact absurd (hfree.symm.trans (ht.clear j fd g hj')) (by simp)
    · cases new with
      | true => exact id
      | false => exact id
  | openFail f | closing f =>
    have hno := he.not_inExit (i := i) (by rw [hc]; exact id) (by rw [hc]; exact id)
    rw [hc] at hs
    obtain rfl := Option.some.inj hs
    unfold Files.fileclose at hi' ⊢
    split_ifs at hi' ⊢
    · exact absurd hi'.panicked (by simp)
    · exact ⟨ht.rest (fun j => s.goOn_self p i j .tail) (fun _ => rfl) rfl rfl rfl rfl,
        he.outside hno (fun j => s.goOn_self p i j .tail) id rfl⟩
  | filedup f fd =>
    have hno := he.not_inExit (i := i) (by rw [hc]; exact id) (by rw [hc]; exact id)
    rw [hc, Files.next] at hs
    split_ifs at hs
    · obtain rfl := Option.some.inj hs
      exact absurd hi'.panicked (by simp)
    · obtain rfl := Option.some.inj hs
      exact ⟨ht.rest (fun j => s.goOn_self p i j .tail) (fun _ => rfl) rfl rfl rfl rfl,
        he.outside hno (fun j => s.goOn_self p i j .tail) id rfl⟩
  | clear fd f =>
    have hno := he.not_inExit (i := i) (by rw [hc]; exact id) (by rw [hc]; exact id)
    have hmine : (s.place p i).closes = some (fd, f) := by
      rw [hc]
      rfl
    have hentry := ht.clear i fd f hmine
    rw [hc] at hs
    obtain rfl := Option.some.inj hs
    have hg : Goes s (((s.goOn p i (.closing f)).setFd p fd none).setGiven p fd 0) p i (.closing f)
        fd none := ⟨fun j => s.goOn_self p i j (.closing f),
          fun e => s.setFd_self_ofile p fd e none⟩
    refine ⟨ht.goes hg (fun e hfd => absurd hfd (by simp [FilePlace.stores]))
      (fun e g hfd => absurd hfd (by simp [FilePlace.closes]))
      (fun g hd => absurd hd (by simp [FilePlace.dups])) fun j hj => ⟨fun _ => rfl,
        fun g hj' => absurd (ht.clearAlone j i fd g f hj' hmine) hj, fun g hd => ?_⟩,
      he.outside hno hg.place id rfl⟩
    -- a file that is duplicated is not the one that is closed
    obtain ⟨e, he', hset⟩ := ht.dup j g hd
    have hne : e ≠ fd := by
      rintro rfl
      rw [hentry] at he'
      obtain rfl := Option.some.inj he'
      exact ht.dupClear j i f e hd hmine
    refine ⟨e, ?_, fun l g' hl => ?_⟩
    · rw [hg.ofile, if_neg hne]
      exact he'
    · rw [hg.place] at hl
      split_ifs at hl
      · exact absurd hl (by simp [FilePlace.debt])
      · exact hset l g' hl
  | tail =>
    rw [hc] at hs
    obtain rfl := Option.some.inj hs
    have hidle : (s.place p i).Idle := by
      rw [hc]
      trivial
    exact ⟨ht.rest (fun j => s.goOn_self p i j .user) (fun _ => rfl) rfl rfl rfl rfl,
      he.idleStep (c := .user) hidle trivial (fun j => s.goOn_self p i j .user) (fun _ => rfl) rfl⟩
  | exitScan n =>
    obtain ⟨hidle, hcwd⟩ := he.inside (i := i) (by rw [hc]; trivial) (by rw [hc]; simp)
    have hpast : ∀ fd : Fd, (fd : ℕ) < n → s.ofile p fd = none := fun fd hfd =>
      he.passed i fd (by rw [hc]; exact hfd)
    rw [hc, Files.next] at hs
    split_ifs at hs with hlt hnone
    · obtain rfl := Option.some.inj hs
      refine .exit hidle (fun j => s.goOn_self p i j (.exitScan (n + 1))) trivial (fun fd hfd => ?_)
        (fun fd h => absurd h (by simp)) (fun fd f h => absurd h (by simp)) fun h => absurd h hcwd
      rcases Nat.lt_succ_iff_lt_or_eq.mp hfd with hfd | rfl
      · exact hpast fd hfd
      · exact hnone
    · obtain rfl := Option.some.inj hs
      refine .exit hidle (fun j => s.goOn_self p i j (.exitClose ⟨n, hlt⟩)) trivial hpast
        (fun fd h => ?_) (fun fd f h => absurd h (by simp)) fun h => absurd h hcwd
      obtain rfl := FilePlace.exitClose.inj h
      exact hnone
    · obtain rfl := Option.some.inj hs
      exact .exit hidle (fun j => s.goOn_self p i j .exitCwd) trivial
        (fun fd _ => hpast fd (lt_of_lt_of_le fd.isLt (not_lt.mp hlt)))
        (fun fd h => absurd h (by simp)) (fun fd f h => absurd h (by simp)) fun h => absurd h hcwd
  | exitClose fd =>
    obtain ⟨hidle, hcwd⟩ := he.inside (i := i) (by rw [hc]; trivial) (by rw [hc]; simp)
    rw [hc, Files.next] at hs
    split at hs
    · obtain rfl := Option.some.inj hs
      exact absurd hi'.panicked (by simp)
    · rename_i f hf
      obtain rfl := Option.some.inj hs
      refine .exit hidle (fun j => s.goOn_self p i j (.exitFileclose fd f)) trivial
        (fun e he' => he.passed i e (by rw [hc]; exact he')) (fun e h => absurd h (by simp))
        (fun e g h => ?_) fun h => absurd h hcwd
      obtain ⟨rfl, rfl⟩ := FilePlace.exitFileclose.inj h
      exact hf
  | exitFileclose fd f =>
    obtain ⟨hidle, hcwd⟩ := he.inside (i := i) (by rw [hc]; trivial) (by rw [hc]; simp)
    rw [hc] at hs
    obtain rfl := Option.some.inj hs
    unfold Files.fileclose at hi' ⊢
    split_ifs at hi' ⊢
    · exact absurd hi'.panicked (by simp)
    · exact .exit hidle (fun j => s.goOn_self p i j (.exitClear fd f)) trivial
        (fun e he' => he.passed i e (by rw [hc]; exact he')) (fun e h => absurd h (by simp))
        (fun e g h => absurd h (by simp)) fun h => absurd h hcwd
  | exitClear fd f =>
    obtain ⟨hidle, hcwd⟩ := he.inside (i := i) (by rw [hc]; trivial) (by rw [hc]; simp)
    rw [hc] at hs
    obtain rfl := Option.some.inj hs
    refine .exit hidle (fun j => s.goOn_self p i j (.exitScan (fd + 1))) trivial (fun e he' => ?_)
      (fun e h => absurd h (by simp)) (fun e g h => absurd h (by simp)) fun h => absurd h hcwd
    refine (s.setFd_self_ofile p fd e none).trans ?_
    split_ifs with hfd
    · rfl
    · refine he.passed i e ?_
      rw [hc]
      rcases Nat.lt_succ_iff_lt_or_eq.mp he' with h | h
      · exact h
      · exact absurd (Fin.ext h) hfd
  | exitCwd =>
    obtain ⟨hidle, hcwd⟩ := he.inside (i := i) (by rw [hc]; trivial) (by rw [hc]; simp)
    rw [hc, Files.next] at hs
    split at hs
    · rename_i hnone
      exact absurd hnone hcwd
    · obtain rfl := Option.some.inj hs
      exact .exit hidle (fun j => s.goOn_self p i j .exitCwdClear) trivial
        (fun e he' => he.passed i e (by rw [hc]; exact he')) (fun e h => absurd h (by simp))
        (fun e g h => absurd h (by simp)) fun h => absurd h hcwd
  | exitCwdClear =>
    obtain ⟨hidle, -⟩ := he.inside (i := i) (by rw [hc]; trivial) (by rw [hc]; simp)
    rw [hc] at hs
    obtain rfl := Option.some.inj hs
    exact .exit hidle (fun j => s.goOn_self p i j .exitLock) trivial
      (fun e he' => he.passed i e (by rw [hc]; exact he')) (fun e h => absurd h (by simp))
      (fun e g h => absurd h (by simp)) fun _ => rfl
  | exitLock =>
    rw [hc] at hs
    obtain rfl := Option.some.inj hs
    exact absurd ((Function.update_self p true s.dead).symm.trans hlive) (by simp)

/-- A thread that enters a call finds what it relies on. -/
lemma Files.Apart.call {s₀ : Files} (h : s.Apart p) (hi : FilesInv s₀ s) {op : FileOp}
    (hu : s.place p i = .user) (hsafe : CallsApart s (p, i, op)) (hs : s.call p i op = some s') :
    s'.Apart p := by
  obtain ⟨ht, he⟩ := h
  have hidle : (s.place p i).Idle := by
    rw [hu]
    trivial
  cases op with
  | sysOpen =>
    obtain rfl := Option.some.inj hs
    exact ⟨ht.rest (fun j => s.goOn_self p i j .sysOpen) (fun _ => rfl) rfl rfl rfl rfl,
      he.idleStep (c := .sysOpen) hidle trivial (fun j => s.goOn_self p i j _) (fun _ => rfl) rfl⟩
  | sysDup fd =>
    obtain ⟨f, hf, rfl⟩ := Option.map_eq_some_iff.mp hs
    have hno : ∀ j, ¬(s.place p j).InExit := fun j => (hsafe j).1
    refine ⟨ht.walk (fun j => s.goOn_self p i j (.scan false f 0)) (fun _ => rfl) rfl
      (fun e h => absurd h (by simp [FilePlace.stores]))
      (fun e g h => absurd h (by simp [FilePlace.closes])) fun g hg => ?_,
      he.outside hno (fun j => s.goOn_self p i j _) id rfl⟩
    obtain rfl := Option.some.inj hg
    refine ⟨?_, fun j _ e hj => (hsafe j).2 e _ hj hf⟩
    -- an entry that is not counted yet is a copy of one that is
    by_cases hset : s.Settled p fd
    · exact ⟨fd, hf, hset⟩
    · simp only [Files.Settled, not_forall, not_not] at hset
      obtain ⟨j, g, hd⟩ := hset
      have hg := hi.owned.entry p j fd g hd
      rw [hf] at hg
      obtain rfl := Option.some.inj hg
      rcases FilePlace.dups_of_debt hd with hdup | hexit
      · exact ht.dup j f hdup
      · exact absurd hexit (hno j)
  | sysClose fd =>
    obtain ⟨f, hf, rfl⟩ := Option.map_eq_some_iff.mp hs
    have hno : ∀ j, ¬(s.place p j).InExit := fun j => (hsafe j).1
    refine ⟨ht.walk (fun j => s.goOn_self p i j (.clear fd f)) (fun _ => rfl) rfl
      (fun e h => absurd h (by simp [FilePlace.stores])) (fun e g h => ?_)
      (fun g h => absurd h (by simp [FilePlace.dups])),
      he.outside hno (fun j => s.goOn_self p i j _) id rfl⟩
    obtain ⟨rfl, rfl⟩ := Prod.mk.inj (Option.some.inj h)
    exact ⟨hf, fun j _ => ⟨fun g => (hsafe j).2.1 g, fun hd => (hsafe j).2.2 _ hd hf⟩⟩
  | exit =>
    obtain ⟨-, hs⟩ := Option.ite_none_left_eq_some.mp hs
    obtain rfl := Option.some.inj hs
    have hall : ∀ j, (s.place p j).Idle := hsafe
    have hcwd := he.cwd_ne fun j hj => hj.not_idle (hall j)
    exact .exit (fun j _ => hall j) (fun j => s.goOn_self p i j (.exitScan 0)) trivial
      (fun e he' => absurd he' (Nat.not_lt_zero _)) (fun e h => absurd h (by simp))
      (fun e g h => absurd h (by simp)) fun h => absurd h hcwd
  | next => exact absurd hs (by simp [Files.call])

/-- Only its threads and its tables matter to a process. -/
lemma Files.Apart.congr (h : s.Apart p) (hplace : s'.place p = s.place p)
    (hofile : s'.ofile p = s.ofile p) (hcwd : s'.cwd p = s.cwd p) : s'.Apart p := by
  obtain ⟨⟨h₁, h₂, h₃, h₄, h₅, h₆⟩, h₇, h₈, h₉, h₁₀, h₁₁⟩ := h
  unfold Files.Settled at h₅
  rw [← hplace, ← hofile] at h₁ h₃ h₅ h₈ h₉ h₁₀
  rw [← hplace] at h₂ h₄ h₆ h₇ h₁₁
  rw [← hcwd] at h₁₁
  exact ⟨⟨h₁, h₂, h₃, h₄, h₅, h₆⟩, h₇, h₈, h₉, h₁₀, h₁₁⟩

/-- The process is as it was. -/
structure Same (s s' : Files) (q : Slot) : Prop where
  place : s'.place q = s.place q
  ofile : s'.ofile q = s.ofile q
  cwd : s'.cwd q = s.cwd q
  dead : s'.dead q = s.dead q

lemma same_goOn {q : Slot} (hq : q ≠ p) (i : Tidx) (c : FilePlace) : Same s (s.goOn p i c) q :=
  ⟨Function.update_of_ne hq _ _, rfl, rfl, rfl⟩

lemma same_fileclose {q : Slot} (hq : q ≠ p) (i : Tidx) (f : FileId) (c : FilePlace) :
    Same s (s.fileclose p i f c) q := by
  unfold Files.fileclose
  split_ifs
  · exact ⟨rfl, rfl, rfl, rfl⟩
  · exact ⟨Function.update_of_ne hq _ _, rfl, rfl, rfl⟩

/-- A thread goes on and writes an entry of its process. -/
lemma same_write {q : Slot} (hq : q ≠ p) (i : Tidx) (c : FilePlace) (fd : Fd)
    (o : Option FileId) (n : ℕ) :
    Same s (((s.goOn p i c).setFd p fd o).setGiven p fd n) q :=
  ⟨Function.update_of_ne hq _ _, Function.update_of_ne hq _ _, rfl, rfl⟩

/-- A statement of a thread leaves the other processes as they are. -/
lemma same_next {q : Slot} (hq : q ≠ p) (hs : s.next p i c = some s') : Same s s' q := by
  cases c with
  | user => exact absurd hs (by simp [Files.next])
  | sysOpen =>
    rw [Files.next] at hs
    split at hs
    · obtain rfl := Option.some.inj hs
      exact same_goOn hq i _
    · obtain rfl := Option.some.inj hs
      exact ⟨Function.update_of_ne hq _ _, rfl, rfl, rfl⟩
  | scan new f n =>
    rw [Files.next] at hs
    split_ifs at hs
    all_goals
      obtain rfl := Option.some.inj hs
      exact same_goOn hq i _
  | store new f fd =>
    obtain rfl := Option.some.inj hs
    exact same_write hq i _ fd _ _
  | openFail f | closing f | exitFileclose fd f =>
    obtain rfl := Option.some.inj hs
    exact same_fileclose hq i f _
  | filedup f fd =>
    rw [Files.next] at hs
    split_ifs at hs
    · obtain rfl := Option.some.inj hs
      exact ⟨rfl, rfl, rfl, rfl⟩
    · obtain rfl := Option.some.inj hs
      exact ⟨Function.update_of_ne hq _ _, rfl, rfl, rfl⟩
  | clear fd f | exitClear fd f =>
    obtain rfl := Option.some.inj hs
    exact same_write hq i _ fd _ _
  | tail =>
    obtain rfl := Option.some.inj hs
    exact same_goOn hq i _
  | exitScan n =>
    rw [Files.next] at hs
    split_ifs at hs
    all_goals
      obtain rfl := Option.some.inj hs
      exact same_goOn hq i _
  | exitClose fd =>
    rw [Files.next] at hs
    split at hs
    · obtain rfl := Option.some.inj hs
      exact ⟨rfl, rfl, rfl, rfl⟩
    · obtain rfl := Option.some.inj hs
      exact same_goOn hq i _
  | exitCwd =>
    rw [Files.next] at hs
    split at hs
    · obtain rfl := Option.some.inj hs
      exact ⟨rfl, rfl, rfl, rfl⟩
    · obtain rfl := Option.some.inj hs
      exact ⟨Function.update_of_ne hq _ _, rfl, rfl, rfl⟩
  | exitCwdClear =>
    obtain rfl := Option.some.inj hs
    exact ⟨Function.update_of_ne hq _ _, rfl, Function.update_of_ne hq _ _, rfl⟩
  | exitLock =>
    obtain rfl := Option.some.inj hs
    exact ⟨rfl, rfl, rfl, Function.update_of_ne hq _ _⟩

lemma same_call {q : Slot} (hq : q ≠ p) {op : FileOp} (hs : s.call p i op = some s') :
    Same s s' q := by
  cases op with
  | sysOpen =>
    obtain rfl := Option.some.inj hs
    exact same_goOn hq i _
  | sysDup fd | sysClose fd =>
    obtain ⟨f, -, rfl⟩ := Option.map_eq_some_iff.mp hs
    exact same_goOn hq i _
  | exit =>
    obtain ⟨-, hs⟩ := Option.ite_none_left_eq_some.mp hs
    obtain rfl := Option.some.inj hs
    exact same_goOn hq i _
  | next => exact absurd hs (by simp [Files.call])

/-- The invariant: the references are balanced, and the threads of every process that has not
ended find what they have tested. -/
structure ApartInv (s₀ s : Files) : Prop where
  files : FilesInv s₀ s
  apart : ∀ p, s.dead p = false → s.Apart p

lemma ApartInv.step {s₀ : Files} (h : ApartInv s₀ s) {l : Slot × Tidx × FileOp}
    (hs : Files.Step s l s') (hsafe : CallsApart s l) : ApartInv s₀ s' := by
  obtain ⟨p, i, op⟩ := l
  have hstep := hs
  obtain ⟨⟨-, -, hdead⟩, hs⟩ := Option.ite_none_right_eq_some.mp hs
  have hp := h.apart p hdead
  have hunchanged : Unchanged s (p, i, op) := by
    cases op with
    | next => exact hp.unchanged h.files
    | _ => trivial
  have hfiles := h.files.step hstep hunchanged
  have hboth : (∀ q, q ≠ p → Same s s' q) ∧ (s'.dead p = false → s'.Apart p) := by
    by_cases hop : op = .next
    · subst hop
      rw [if_pos rfl] at hs
      exact ⟨fun q hq => same_next hq hs, hp.next hfiles hsafe hs⟩
    · rw [if_neg hop] at hs
      obtain ⟨hu, hs⟩ := Option.ite_none_right_eq_some.mp hs
      exact ⟨fun q hq => same_call hq hs, fun _ => hp.call h.files hu hsafe hs⟩
  refine ⟨hfiles, fun q hq => ?_⟩
  by_cases hqp : q = p
  · subst hqp
    exact hboth.2 hq
  · have hsame := hboth.1 q hqp
    rw [hsame.dead] at hq
    exact (h.apart q hq).congr hsame.place hsame.ofile hsame.cwd

lemma Files.Start.apartInv (h : s.Start) : ApartInv s s := by
  refine ⟨h.filesInv, fun p hp => ⟨?_, exitApart_of_not (fun j => ?_) (h.cwd p hp)⟩⟩
  · have hnone : ∀ j, (s.place p j).stores = none ∧ (s.place p j).closes = none ∧
        (s.place p j).dups = none := fun j => by
      rw [h.place]
      exact ⟨rfl, rfl, rfl⟩
    refine ⟨?_, ?_, ?_, ?_, ?_, ?_⟩
    · exact fun j fd hj => absurd ((hnone j).1.symm.trans hj) (by simp)
    · exact fun j l fd hj => absurd ((hnone j).1.symm.trans hj) (by simp)
    · exact fun j fd f hj => absurd ((hnone j).2.1.symm.trans hj) (by simp)
    · exact fun j l fd f g hj => absurd ((hnone j).2.1.symm.trans hj) (by simp)
    · exact fun j f hj => absurd ((hnone j).2.2.symm.trans hj) (by simp)
    · exact fun j l f fd hj => absurd ((hnone j).2.2.symm.trans hj) (by simp)
  · rw [h.place]
    exact id

end

/-! ### The result -/

/-- When the calls that have to stay apart do, `ref` counts the entries whenever no thread is
inside a call, every descriptor is given to one call, and `exit` gives back every entry, and `cwd`
once. -/
theorem filesRight_of_callsApart {s₀ s : Files} (h₀ : s₀.Start)
    (h : Reachable (· = s₀) (Guarded Files.Step CallsApart) s) : FilesRight s₀ s := by
  have hinv : ApartInv s₀ s := by
    refine h.invariant ?_ ?_
    · rintro s rfl
      exact h₀.apartInv
    · rintro s l s' hi ⟨hs, hsafe⟩
      exact hi.step hs hsafe
  exact hinv.files.filesRight

/-- One process, in slot 1, with one open file. -/
def filesStart : Files where
  ofile := fun p fd => if (p, fd) = (1, 0) then some 0 else none
  cwd := fun _ => some 1
  ref := fun f => if f = 0 then 1 else 0
  place := fun _ _ => .user
  dead := fun p => p ≠ 1
  initproc := some 0
  panicked := false
  nullIput := false
  given := fun p fd => if (p, fd) = (1, 0) then 1 else 0
  cwdPuts := fun _ => 0

lemma start_filesStart : filesStart.Start := by
  refine ⟨fun _ _ => rfl, fun f => ?_, rfl, rfl, fun p fd => ?_, fun _ => rfl, fun p _ => ?_⟩
  · have hentry : ∀ e : Slot × Fd, filesStart.ofile e.1 e.2 = some f ↔ e = (1, 0) ∧ f = 0 := by
      intro e
      show (if e = (1, 0) then some 0 else none) = some f ↔ _
      split_ifs with he
      · simp [he, eq_comm]
      · simp [he]
    rw [Files.entries]
    simp only [hentry]
    show (if f = 0 then 1 else 0) = _
    split_ifs with hf
    · simp [hf, Finset.filter_eq']
    · simp [hf]
  · have hgiven : filesStart.given p fd = if (p, fd) = (1, 0) then 1 else 0 := rfl
    have hentry : filesStart.ofile p fd = if (p, fd) = (1, 0) then some 0 else none := rfl
    rw [hgiven, hentry]
    by_cases he : (p, fd) = (1, 0)
    · rw [if_pos he, if_pos he, if_neg (by simp)]
    · rw [if_neg he, if_neg he, if_pos rfl]
  · have hcwd : filesStart.cwd p = some 1 := rfl
    rw [hcwd]
    exact Option.some_ne_none 1

/-- `CallsApart`, as a test. -/
def callsApart (s : Files) : Slot × Tidx × FileOp → Bool
  | (p, _, .sysDup fd) => tidxs.all fun j => !decide (s.place p j).InExit &&
      ((s.place p j).closes = none ∨ (s.place p j).closes.map Prod.snd ≠ s.ofile p fd)
  | (p, _, .sysClose fd) => tidxs.all fun j => !decide (s.place p j).InExit &&
      (s.place p j).closes.map Prod.fst ≠ some fd &&
      ((s.place p j).dups = none ∨ (s.place p j).dups ≠ s.ofile p fd)
  | (p, _, .exit) => tidxs.all fun j => (s.place p j).Idle
  | (_, _, .sysOpen) => true
  | (p, i, .next) =>
      match s.place p i with
      | .sysOpen => tidxs.all fun j => !decide (s.place p j).InExit
      | .scan _ _ n => (List.finRange NOFILE).all fun fd => (fd : ℕ) ≠ n ∨ s.ofile p fd ≠ none ∨
          (tidxs.all fun j => (s.place p j).stores ≠ some fd)
      | _ => true

lemma callsApart_of_eq_true {s : Files} {l : Slot × Tidx × FileOp} (h : callsApart s l = true) :
    CallsApart s l := by
  obtain ⟨p, i, op⟩ := l
  cases op with
  | sysOpen => trivial
  | sysDup fd =>
    intro j
    obtain ⟨hexit, hcl⟩ := Bool.and_eq_true_iff.mp (List.all_eq_true.mp h j (List.mem_finRange j))
    refine ⟨by simpa using hexit, fun e f hj hf => ?_⟩
    have hcl := of_decide_eq_true hcl
    rw [hj, hf] at hcl
    simp at hcl
  | sysClose fd =>
    intro j
    obtain ⟨h, hdup⟩ := Bool.and_eq_true_iff.mp (List.all_eq_true.mp h j (List.mem_finRange j))
    obtain ⟨hexit, hcl⟩ := Bool.and_eq_true_iff.mp h
    refine ⟨by simpa using hexit, fun f hj => ?_, fun f hj hf => ?_⟩
    · have hcl := of_decide_eq_true hcl
      rw [hj] at hcl
      exact hcl rfl
    · have hdup := of_decide_eq_true hdup
      rw [hj, hf] at hdup
      simp at hdup
  | exit =>
    exact fun j => of_decide_eq_true (List.all_eq_true.mp h j (List.mem_finRange j))
  | next =>
    unfold callsApart at h
    unfold CallsApart
    dsimp only at h ⊢
    cases hc : s.place p i with
    | sysOpen =>
      rw [hc] at h
      intro j
      simpa using List.all_eq_true.mp h j (List.mem_finRange j)
    | scan new f n =>
      rw [hc] at h
      intro fd hfd hnone j
      have hall := of_decide_eq_true (List.all_eq_true.mp h fd (List.mem_finRange fd))
      rcases hall with hne | hne | hall
      · exact absurd hfd hne
      · exact absurd hnone hne
      · exact of_decide_eq_true (List.all_eq_true.mp hall j (List.mem_finRange j))
    | _ => trivial

/-- One thread opens a file while another one duplicates a descriptor, and then the first one
calls `exit`. -/
def filesOps : List (Slot × Tidx × FileOp) :=
  [(1, 0, .sysOpen), (1, 0, .next), (1, 0, .next), (1, 1, .sysDup 0), (1, 0, .next),
    (1, 0, .next)] ++ List.replicate 6 (1, 1, .next) ++ [(1, 0, .next), (1, 0, .exit)] ++
    List.replicate 29 (1, 0, .next)

theorem filesRight_of_callsApart_exit : ∃ s : Files,
    Reachable (· = filesStart) (Guarded Files.Step CallsApart) s ∧ s.dead 1 = true ∧
      s.ref 0 = 0 ∧ s.cwdPuts 1 = 1 ∧ FilesRight filesStart s := by
  have hrun : ((run (guardedNext Files.step fun s l => callsApart s l = true) filesStart
      filesOps).any fun s => decide (s.dead 1 = true ∧ s.ref 0 = 0 ∧ s.cwdPuts 1 = 1)) = true := by
    decide +kernel
  obtain ⟨s, hs, hall⟩ := (Option.any_eq_true _ _).mp hrun
  have hnext : ∀ s l s', guardedNext Files.step (fun s l => callsApart s l = true) s l = some s' →
      Guarded Files.Step CallsApart s l s' := fun s l s' h =>
    ⟨(guardedNext_eq_some.mp h).1, callsApart_of_eq_true (guardedNext_eq_some.mp h).2⟩
  have hreach : Reachable (· = filesStart) (Guarded Files.Step CallsApart) s :=
    Reachable.run hnext (.start rfl) hs
  obtain ⟨hdead, href, hputs⟩ := of_decide_eq_true hall
  exact ⟨s, hreach, hdead, href, hputs, filesRight_of_callsApart start_filesStart hreach⟩

/-- Two threads of a process that has been killed are in `exit`.  The first one has called
`fileclose`, where it blocks, when the second one tests the same entry. -/
def doubleCloseOps : List (Slot × Tidx × FileOp) :=
  [(1, 0, .exit), (1, 0, .next), (1, 0, .next), (1, 0, .next), (1, 1, .exit), (1, 1, .next),
    (1, 1, .next), (1, 1, .next)]

/-- `fileclose` panics. -/
theorem not_filesRight : ∃ s : Files, Reachable (· = filesStart) Files.Step s ∧
    s.panicked = true ∧ ¬FilesRight filesStart s := by
  have hrun : ((run Files.step filesStart doubleCloseOps).any fun s => s.panicked) = true := by
    decide +kernel
  obtain ⟨s, hs, hp⟩ := (Option.any_eq_true _ _).mp hrun
  refine ⟨s, Reachable.run (fun _ _ _ h => h) (.start rfl) hs, hp, fun h => ?_⟩
  rw [h.panicked] at hp
  exact Bool.false_ne_true hp

end Xv6Projects.Threads
