import Mathlib.Algebra.BigOperators.Ring.Finset
import Mathlib.Algebra.Order.BigOperators.Group.Finset
import Mathlib.Data.Fintype.Prod
import Xv6Projects.Library.Count
import Xv6Projects.Library.Transition
import Xv6Projects.Threads.Kernel

/-!
# The descriptors of a process with several threads

The threads of a process share `ofile` and `cwd`.  `fdalloc`, `sys_dup`, `sys_close` and `exit`
test and store the entries without a lock, around calls that block.  Here a thread can be
preempted between any two statements of these functions; `filealloc`, `filedup` and the locked
part of `fileclose` are one step each.  As long as no thread finds that an entry has changed
since it has tested it, `ref` counts the entries that hold a file.  Which calls have to stay
apart for this is said in `Overlaps`.
-/

namespace Xv6Projects.Threads

open Finset Library

/-- The number of open files in the system. -/
def NFILE : ℕ := 100

instance : NeZero NFILE := ⟨by decide⟩

/-- An entry of `ftable`. -/
abbrev FileId := Fin NFILE

/-! ### Threads inside the calls -/

/-- Where a thread stands in `sys_open`, `sys_dup`, `sys_close` or `exit`. -/
inductive FilePlace
  /-- Outside. -/
  | user
  /-- In `sys_open`, before `filealloc`. -/
  | sysOpen
  /-- In `fdalloc` for `sys_open` (`new`) or `sys_dup`, before the test of entry `fd`. -/
  | scan (new : Bool) (f : FileId) (fd : ℕ)
  /-- In `fdalloc`, after the test of entry `fd`, which was null. -/
  | store (new : Bool) (f : FileId) (fd : Fd)
  /-- In `sys_open`, before `fileclose`: there was no free entry. -/
  | openFail (f : FileId)
  /-- In `sys_dup`, before `filedup`. -/
  | filedup (f : FileId) (fd : Fd)
  /-- In `sys_close`, before the entry is cleared, which held `f`. -/
  | clear (fd : Fd) (f : FileId)
  /-- In `sys_close`, before `fileclose`. -/
  | closing (f : FileId)
  /-- Before the return of the call; `iput` may block. -/
  | tail
  /-- In `exit`, before the test of entry `fd`. -/
  | exitScan (fd : ℕ)
  /-- In `exit`, after the test of entry `fd`, which was not null. -/
  | exitClose (fd : Fd)
  /-- In `exit`, in the call of `fileclose` for the file in entry `fd`. -/
  | exitFileclose (fd : Fd) (f : FileId)
  /-- In `exit`, after the locked part of `fileclose`; `iput` may block. -/
  | exitClear (fd : Fd) (f : FileId)
  /-- In `exit`, before the call of `iput`. -/
  | exitCwd
  /-- In `exit`, in `iput`, which may block, and before `cwd` is cleared. -/
  | exitCwdClear
  /-- In `exit`, before the lock is taken. -/
  | exitLock
deriving DecidableEq, Repr

/-- The tables, where the threads stand, the processes that have ended or do not exist, and what
has happened: `fileclose` or `filedup` has panicked or has followed the null pointer, `iput` has
been called with the null pointer, the number of calls that have got a descriptor since its
entry was last cleared, and the calls of `iput` for `cwd`. -/
structure Files where
  ofile : Slot → Fd → Option FileId
  cwd : Slot → Option ℕ
  ref : FileId → ℕ
  place : Slot → Tidx → FilePlace
  dead : Slot → Bool
  initproc : Option Slot
  panicked : Bool
  nullIput : Bool
  given : Slot → Fd → ℕ
  cwdPuts : Slot → ℕ

/-- What a thread does.  `next` is its next statement in a call. -/
inductive FileOp
  | sysOpen
  | sysDup (fd : Fd)
  | sysClose (fd : Fd)
  | exit
  | next
deriving DecidableEq, Repr

namespace Files

/-- Thread `i` of `p` goes on at place `c`. -/
def goOn (s : Files) (p : Slot) (i : Tidx) (c : FilePlace) : Files :=
  { s with place := Function.update s.place p (Function.update (s.place p) i c) }

/-- Write entry `fd` of `p`. -/
def setFd (s : Files) (p : Slot) (fd : Fd) (o : Option FileId) : Files :=
  { s with ofile := Function.update s.ofile p (Function.update (s.ofile p) fd o) }

/-- Write `given` for entry `fd` of `p`. -/
def setGiven (s : Files) (p : Slot) (fd : Fd) (n : ℕ) : Files :=
  { s with given := Function.update s.given p (Function.update (s.given p) fd n) }

/-- Write `ref` of file `f`. -/
def setRef (s : Files) (f : FileId) (n : ℕ) : Files :=
  { s with ref := Function.update s.ref f n }

/-- `filealloc`: the first free entry of `ftable`. -/
def filealloc (s : Files) : Option FileId := (List.finRange NFILE).find? fun f => s.ref f = 0

/-- The locked part of `fileclose`; the thread goes on at place `c`. -/
def fileclose (s : Files) (p : Slot) (i : Tidx) (f : FileId) (c : FilePlace) : Files :=
  if s.ref f < 1 then { s with panicked := true }
  else (s.goOn p i c).setRef f (s.ref f - 1)

/-- The next statement of thread `i` of `p`, which stands at a place in a call. -/
def next (s : Files) (p : Slot) (i : Tidx) : FilePlace → Option Files
  | .user => none
  | .sysOpen =>
      match s.filealloc with
      | none => some (s.goOn p i .user)
      | some f => some ((s.goOn p i (.scan true f 0)).setRef f 1)
  | .scan new f fd =>
      if h : fd < NOFILE then
        if s.ofile p ⟨fd, h⟩ = none then some (s.goOn p i (.store new f ⟨fd, h⟩))
        else some (s.goOn p i (.scan new f (fd + 1)))
      else if new then some (s.goOn p i (.openFail f))
      else some (s.goOn p i .user)
  | .store new f fd =>
      some (((s.goOn p i (if new then .tail else .filedup f fd)).setFd p fd (some f)).setGiven p fd
        (s.given p fd + 1))
  | .openFail f | .closing f => some (s.fileclose p i f .tail)
  | .filedup f _ =>
      if s.ref f < 1 then some { s with panicked := true }
      else some ((s.goOn p i .tail).setRef f (s.ref f + 1))
  | .clear fd f => some (((s.goOn p i (.closing f)).setFd p fd none).setGiven p fd 0)
  | .tail => some (s.goOn p i .user)
  | .exitScan fd =>
      if h : fd < NOFILE then
        if s.ofile p ⟨fd, h⟩ = none then some (s.goOn p i (.exitScan (fd + 1)))
        else some (s.goOn p i (.exitClose ⟨fd, h⟩))
      else some (s.goOn p i .exitCwd)
  | .exitClose fd =>
      match s.ofile p fd with
      | none => some { s with panicked := true }
      | some f => some (s.goOn p i (.exitFileclose fd f))
  | .exitFileclose fd f => some (s.fileclose p i f (.exitClear fd f))
  | .exitClear fd _ => some (((s.goOn p i (.exitScan (fd + 1))).setFd p fd none).setGiven p fd 0)
  | .exitCwd =>
      match s.cwd p with
      | none => some { s with nullIput := true }
      | some _ => some { s.goOn p i .exitCwdClear with
          cwdPuts := Function.update s.cwdPuts p (s.cwdPuts p + 1) }
  | .exitCwdClear => some { s.goOn p i .exitLock with cwd := Function.update s.cwd p none }
  | .exitLock => some { s with dead := Function.update s.dead p true }

/-- A thread at `user` enters a call. -/
def call (s : Files) (p : Slot) (i : Tidx) : FileOp → Option Files
  | .sysOpen => some (s.goOn p i .sysOpen)
  | .sysDup fd => (s.ofile p fd).map fun f => s.goOn p i (.scan false f 0)
  | .sysClose fd => (s.ofile p fd).map fun f => s.goOn p i (.clear fd f)
  -- `init exiting`
  | .exit => if s.initproc = some p then none else some (s.goOn p i (.exitScan 0))
  | .next => none

/-- Thread `i` of `p` performs an operation.  Nothing happens after a panic. -/
def step (s : Files) (l : Slot × Tidx × FileOp) : Option Files :=
  if s.panicked = false ∧ s.nullIput = false ∧ s.dead l.1 = false then
    if l.2.2 = .next then s.next l.1 l.2.1 (s.place l.1 l.2.1)
    else if s.place l.1 l.2.1 = .user then s.call l.1 l.2.1 l.2.2
    else none
  else none

/-- The operation leads from one state to the other. -/
def Step (s : Files) (l : Slot × Tidx × FileOp) (s' : Files) : Prop := s.step l = some s'

/-- The number of entries that hold file `f`. -/
def entries (s : Files) (f : FileId) : ℕ :=
  (univ.filter fun e : Slot × Fd => s.ofile e.1 e.2 = some f).card

/-- No thread is inside one of the calls, `ref` counts the entries, every descriptor in use has
been given to one call, and every process has its `cwd`. -/
structure Start (s : Files) : Prop where
  place : ∀ p i, s.place p i = .user
  ref : ∀ f, s.ref f = s.entries f
  panicked : s.panicked = false
  nullIput : s.nullIput = false
  given : ∀ p fd, s.given p fd = if s.ofile p fd = none then 0 else 1
  cwdPuts : ∀ p, s.cwdPuts p = 0
  cwd : ∀ p, s.dead p = false → s.cwd p ≠ none

end Files

/-! ### What is wanted -/

/-- `ref` counts the entries whenever no thread is inside a call, no descriptor is given to two
calls unless it has been closed in between, `fileclose` does not panic, `iput` is not called
with the null pointer, and a process that ends has given back each entry, and `cwd` once. -/
structure FilesRight (s₀ s : Files) : Prop where
  counted : (∀ p i, s.dead p = false → s.place p i = .user) → ∀ f, s.ref f = s.entries f
  given : ∀ p fd, s.given p fd ≤ 1
  panicked : s.panicked = false
  nullIput : s.nullIput = false
  exited : ∀ p, s₀.dead p = false → s.dead p = true →
    (∀ fd, s.ofile p fd = none) ∧ s.cwdPuts p = 1

namespace FilePlace

/-- The file for which the thread holds a reference that no entry holds. -/
def spare : FilePlace → Option FileId
  | .scan true f _ | .store true f _ | .openFail f | .closing f => some f
  | _ => none

/-- The entry whose file has a reference less than it should, because `sys_dup` has not called
`filedup` yet, or `exit` has called `fileclose` already. -/
def debt : FilePlace → Option (Fd × FileId)
  | .filedup f fd | .exitClear fd f => some (fd, f)
  | _ => none

end FilePlace

/-- No thread of `p` is between the two statements that write entry `fd` and count the file. -/
def Files.Settled (s : Files) (p : Slot) (fd : Fd) : Prop :=
  ∀ i f, (s.place p i).debt ≠ some (fd, f)

/-- What a statement relies on has not changed since it was tested: an entry is stored only if it
is still null, and released and cleared only if it still holds the file and no other thread is in
the middle of doing so; `filedup` is called while the file has a reference; `cwd` is put once; and
a process ends when its entries are null and its other threads hold no reference. -/
def Unchanged (s : Files) : Slot × Tidx × FileOp → Prop
  | (p, i, .next) =>
      match s.place p i with
      | .store _ _ fd => s.ofile p fd = none
      | .filedup f _ => 1 ≤ s.ref f
      | .clear fd f => s.ofile p fd = some f ∧ s.Settled p fd
      | .exitClose fd => s.ofile p fd ≠ none
      | .exitFileclose fd f => s.ofile p fd = some f ∧ s.Settled p fd
      | .exitCwd => s.cwd p ≠ none ∧ ∀ j, s.place p j ≠ .exitCwdClear
      | .exitLock => (∀ fd, s.ofile p fd = none) ∧
          ∀ j, (s.place p j).spare = none ∧ (s.place p j).debt = none
      | _ => True
  | _ => True

/-! ### Counting references -/

namespace Files

/-- One if the file is `f`. -/
def isFile (f : FileId) (o : Option FileId) : ℕ := if o = some f then 1 else 0

/-- The references to `f` that no entry holds. -/
def spares (s : Files) (f : FileId) : ℕ :=
  ∑ t : Slot × Tidx, isFile f (s.place t.1 t.2).spare

/-- The entries that hold `f` without a reference. -/
def debts (s : Files) (f : FileId) : ℕ :=
  ∑ t : Slot × Tidx, isFile f ((s.place t.1 t.2).debt.map Prod.snd)

/-- The references to every file are those of the entries and of the threads. -/
def Balanced (s : Files) : Prop := ∀ f, s.ref f + s.debts f = s.entries f + s.spares f

/-- An entry that `fileclose` or `filedup` is about to count holds the file, and no other thread is
about to count it. -/
structure Owned (s : Files) : Prop where
  entry : ∀ p i fd f, (s.place p i).debt = some (fd, f) → s.ofile p fd = some f
  alone : ∀ p i j fd f g, (s.place p i).debt = some (fd, f) → (s.place p j).debt = some (fd, g) →
    i = j

end Files

section
variable {s s' : Files} {p : Slot} {i : Tidx} {c : FilePlace} {fd : Fd} {f : FileId}

open Files

/-- One place of a table with two indices is written. -/
lemma update_update_apply {A B C : Type*} [DecidableEq A] [DecidableEq B] (g : A → B → C)
    (a a' : A) (b b' : B) (c : C) :
    Function.update g a (Function.update (g a) b c) a' b' =
      if (a', b') = (a, b) then c else g a' b' := by
  by_cases ha : a' = a
  · subst ha
    rw [Function.update_self, Function.update_apply]
    simp
  · rw [Function.update_of_ne ha, if_neg (fun h => ha (congrArg Prod.fst h))]

lemma Files.goOn_place (s : Files) (p q : Slot) (i j : Tidx) (c : FilePlace) :
    (s.goOn p i c).place q j = if (q, j) = (p, i) then c else s.place q j :=
  update_update_apply _ _ _ _ _ _

lemma Files.setFd_ofile (s : Files) (p q : Slot) (fd e : Fd) (o : Option FileId) :
    (s.setFd p fd o).ofile q e = if (q, e) = (p, fd) then o else s.ofile q e :=
  update_update_apply _ _ _ _ _ _

lemma Files.setGiven_given (s : Files) (p q : Slot) (fd e : Fd) (n : ℕ) :
    (s.setGiven p fd n).given q e = if (q, e) = (p, fd) then n else s.given q e :=
  update_update_apply _ _ _ _ _ _

lemma Files.spares_goOn (s : Files) (p : Slot) (i : Tidx) (c : FilePlace) (f : FileId) :
    (s.goOn p i c).spares f + isFile f (s.place p i).spare = s.spares f + isFile f c.spare := by
  have hsum := sum_univ_add_of_eq_off (p, i)
    (f := fun t : Slot × Tidx => isFile f ((s.goOn p i c).place t.1 t.2).spare)
    (g := fun t : Slot × Tidx => isFile f (s.place t.1 t.2).spare)
    (fun t ht => by rw [goOn_place, if_neg ht])
  rw [goOn_place, if_pos rfl] at hsum
  exact hsum

lemma Files.debts_goOn (s : Files) (p : Slot) (i : Tidx) (c : FilePlace) (f : FileId) :
    (s.goOn p i c).debts f + isFile f ((s.place p i).debt.map Prod.snd) =
      s.debts f + isFile f (c.debt.map Prod.snd) := by
  have hsum := sum_univ_add_of_eq_off (p, i)
    (f := fun t : Slot × Tidx => isFile f (((s.goOn p i c).place t.1 t.2).debt.map Prod.snd))
    (g := fun t : Slot × Tidx => isFile f ((s.place t.1 t.2).debt.map Prod.snd))
    (fun t ht => by rw [goOn_place, if_neg ht])
  rw [goOn_place, if_pos rfl] at hsum
  exact hsum

lemma Files.entries_eq_sum (s : Files) (f : FileId) :
    s.entries f = ∑ e : Slot × Fd, isFile f (s.ofile e.1 e.2) := card_filter _ _

lemma Files.entries_setFd (s : Files) (p : Slot) (fd : Fd) (o : Option FileId) (f : FileId) :
    (s.setFd p fd o).entries f + isFile f (s.ofile p fd) = s.entries f + isFile f o := by
  have hsum := sum_univ_add_of_eq_off (p, fd)
    (f := fun e : Slot × Fd => isFile f ((s.setFd p fd o).ofile e.1 e.2))
    (g := fun e : Slot × Fd => isFile f (s.ofile e.1 e.2))
    (fun e he => by rw [setFd_ofile, if_neg he])
  rw [setFd_ofile, if_pos rfl] at hsum
  rw [entries_eq_sum, entries_eq_sum]
  exact hsum

/-- Thread `i` of `p` goes on, and entry `fd` of `p` is written. -/
lemma Files.Balanced.move (h : s.Balanced) {d : Fd} {o : Option FileId}
    (hplace : s'.place = (s.goOn p i c).place) (hofile : s'.ofile = (s.setFd p d o).ofile)
    (hcount : ∀ f, s'.ref f + isFile f (c.debt.map Prod.snd) + isFile f (s.ofile p d) +
        isFile f (s.place p i).spare =
      s.ref f + isFile f ((s.place p i).debt.map Prod.snd) + isFile f o + isFile f c.spare) :
    s'.Balanced := by
  intro f
  have hspares : s'.spares f = (s.goOn p i c).spares f := by rw [spares, spares, hplace]
  have hdebts : s'.debts f = (s.goOn p i c).debts f := by rw [debts, debts, hplace]
  have hentries : s'.entries f = (s.setFd p d o).entries f := by rw [entries, entries, hofile]
  have h₁ := s.spares_goOn p i c f
  have h₂ := s.debts_goOn p i c f
  have h₃ := s.entries_setFd p d o f
  have h₄ := h f
  have h₅ := hcount f
  omega

lemma Files.setFd_self (s : Files) (p : Slot) (fd : Fd) :
    (s.setFd p fd (s.ofile p fd)).ofile = s.ofile := by
  funext q e
  rw [setFd_ofile]
  split_ifs with h
  · rw [(Prod.mk.inj h).1, (Prod.mk.inj h).2]
  · rfl

/-- Thread `i` of `p` goes on. -/
lemma Files.Balanced.goOn (h : s.Balanced) (hplace : s'.place = (s.goOn p i c).place)
    (hofile : s'.ofile = s.ofile)
    (hcount : ∀ f, s'.ref f + isFile f (c.debt.map Prod.snd) + isFile f (s.place p i).spare =
      s.ref f + isFile f ((s.place p i).debt.map Prod.snd) + isFile f c.spare) :
    s'.Balanced := by
  refine h.move (d := 0) (o := s.ofile p 0) hplace (by rw [hofile, setFd_self]) fun f => ?_
  have hf := hcount f
  omega

/-- A file has at least as many entries as there are entries without a reference. -/
lemma Files.Owned.debts_le (h : s.Owned) (f : FileId) (X : Finset (Slot × Fd))
    (hX : ∀ e ∈ X, s.ofile e.1 e.2 = some f ∧ s.Settled e.1 e.2) :
    s.debts f + X.card ≤ s.entries f := by
  obtain ⟨D, hD⟩ : ∃ D, D = univ.filter fun t : Slot × Tidx =>
    (s.place t.1 t.2).debt.map Prod.snd = some f := ⟨_, rfl⟩
  obtain ⟨E, hE⟩ : ∃ E, E = univ.filter fun e : Slot × Fd => s.ofile e.1 e.2 = some f := ⟨_, rfl⟩
  obtain ⟨g, hg⟩ : ∃ g : Slot × Tidx → Slot × Fd, ∀ t,
    g t = (t.1, ((s.place t.1 t.2).debt.map Prod.fst).getD 0) := ⟨_, fun _ => rfl⟩
  have hdebts : s.debts f = D.card := by
    rw [hD, card_filter]
    rfl
  have hentries : s.entries f = E.card := by rw [hE, entries]
  have hdebt : ∀ t ∈ D, (s.place t.1 t.2).debt = some ((g t).2, f) := by
    intro t ht
    rw [hD, mem_filter] at ht
    obtain ⟨⟨e, f'⟩, he, hf⟩ := Option.map_eq_some_iff.mp ht.2
    obtain rfl : f' = f := hf
    rw [hg, he]
    rfl
  have hinj : Set.InjOn g D := by
    intro t ht u hu heq
    have h₁ := hdebt t ht
    have h₂ := hdebt u hu
    have hp : t.1 = u.1 := by
      have hfst := congrArg Prod.fst heq
      rwa [hg, hg] at hfst
    rw [← heq, ← hp] at h₂
    exact Prod.ext hp (h.alone _ _ _ _ _ _ h₁ h₂)
  have hdisj : Disjoint (D.image g) X := by
    rw [disjoint_left]
    intro e he hX'
    obtain ⟨t, ht, rfl⟩ := mem_image.mp he
    have hnot := (hX _ hX').2 t.2 f
    rw [hg] at hnot
    have hd := hdebt t ht
    rw [hg] at hd
    exact hnot hd
  have hsub : D.image g ∪ X ⊆ E := by
    intro e he
    simp only [hE, mem_filter, mem_univ, true_and]
    rcases mem_union.mp he with he | he
    · obtain ⟨t, ht, rfl⟩ := mem_image.mp he
      have hd := h.entry _ _ _ _ (hdebt t ht)
      rw [hg] at hd ⊢
      exact hd
    · exact (hX e he).1
  calc s.debts f + X.card = (D.image g).card + X.card := by
        rw [hdebts, card_image_of_injOn hinj]
    _ = (D.image g ∪ X).card := (card_union_of_disjoint hdisj).symm
    _ ≤ s.entries f := by
        rw [hentries]
        exact card_le_card hsub

/-- A file for which a thread holds a reference has one. -/
lemma Files.ref_pos_of_spare (hb : s.Balanced) (ho : s.Owned) (h : (s.place p i).spare = some f) :
    1 ≤ s.ref f := by
  have hle := ho.debts_le f ∅ (by simp)
  have hone : isFile f (s.place p i).spare ≤ s.spares f :=
    single_le_sum (f := fun t : Slot × Tidx => isFile f (s.place t.1 t.2).spare)
      (fun _ _ => Nat.zero_le _) (mem_univ (p, i))
  rw [h, isFile, if_pos rfl] at hone
  have hf := hb f
  rw [card_empty] at hle
  omega

/-- A file in an entry that no other thread is about to count has a reference. -/
lemma Files.ref_pos_of_entry (hb : s.Balanced) (ho : s.Owned) (h : s.ofile p fd = some f)
    (hs : s.Settled p fd) : 1 ≤ s.ref f := by
  have hle := ho.debts_le f {(p, fd)} (by
    intro e he
    obtain rfl := mem_singleton.mp he
    exact ⟨h, hs⟩)
  have hf := hb f
  rw [card_singleton] at hle
  omega

/-- Thread `i` of `p` goes on, and entry `fd` of `p` is written. -/
lemma Files.Owned.move (h : s.Owned) {d : Fd} {o : Option FileId}
    (hplace : s'.place = (s.goOn p i c).place) (hofile : s'.ofile = (s.setFd p d o).ofile)
    (hkeep : ∀ j g, j ≠ i → (s.place p j).debt = some (d, g) → o = some g)
    (hnew : ∀ e g, c.debt = some (e, g) → (if e = d then o else s.ofile p e) = some g ∧
      ∀ j g', j ≠ i → (s.place p j).debt ≠ some (e, g')) : s'.Owned := by
  have hentry : ∀ q e, s'.ofile q e = if (q, e) = (p, d) then o else s.ofile q e := fun q e => by
    rw [hofile, setFd_ofile]
  have hthread : ∀ q j, s'.place q j = if (q, j) = (p, i) then c else s.place q j := fun q j => by
    rw [hplace, goOn_place]
  constructor
  · intro q j e g hd
    rw [hthread] at hd
    rw [hentry]
    by_cases hj : (q, j) = (p, i)
    · obtain ⟨rfl, rfl⟩ := Prod.mk.inj hj
      rw [if_pos rfl] at hd
      have hg := (hnew e g hd).1
      simp only [Prod.mk.injEq, true_and]
      exact hg
    · rw [if_neg hj] at hd
      split_ifs with he
      · obtain ⟨rfl, rfl⟩ := Prod.mk.inj he
        exact hkeep j g (fun h => hj (by rw [h])) hd
      · exact h.entry q j e g hd
  · intro q j l e g g' hj hl
    rw [hthread] at hj hl
    split_ifs at hj hl with h₁ h₂ h₂
    · rw [(Prod.mk.inj h₁).2, (Prod.mk.inj h₂).2]
    · obtain ⟨rfl, rfl⟩ := Prod.mk.inj h₁
      exact absurd hl ((hnew e g hj).2 l g' fun h => h₂ (by rw [h]))
    · obtain ⟨rfl, rfl⟩ := Prod.mk.inj h₂
      exact absurd hj ((hnew e g' hl).2 j g fun h => h₁ (by rw [h]))
    · exact h.alone q j l e g g' hj hl

/-- Thread `i` of `p` goes on at a place that counts no entry. -/
lemma Files.Owned.goOn (h : s.Owned) (hplace : s'.place = (s.goOn p i c).place)
    (hofile : s'.ofile = s.ofile) (hc : c.debt = none) : s'.Owned := by
  refine h.move (d := 0) (o := s.ofile p 0) hplace (by rw [hofile, setFd_self]) ?_ ?_
  · exact fun j g _ hd => h.entry p j 0 g hd
  · intro e g hd
    rw [hc] at hd
    exact absurd hd (by simp)

/-! ### The invariant -/

/-- `exit` has called `iput` for `cwd` once if a thread is behind that call, and not at all
otherwise. -/
structure Files.Put (s : Files) (p : Slot) : Prop where
  count : s.cwdPuts p = 0 ∨
    s.cwdPuts p = 1 ∧ (s.cwd p = none ∨ ∃ i, s.place p i = .exitCwdClear)
  behind : ∀ i, s.place p i = .exitCwdClear ∨ s.place p i = .exitLock → s.cwdPuts p = 1

/-- A process that has ended holds nothing. -/
structure Files.Ended (s s₀ : Files) (p : Slot) : Prop where
  threads : ∀ i, (s.place p i).spare = none ∧ (s.place p i).debt = none
  entries : s₀.dead p = false → ∀ fd, s.ofile p fd = none
  cwdPuts : s₀.dead p = false → s.cwdPuts p = 1

/-- The invariant. -/
structure FilesInv (s₀ s : Files) : Prop where
  balanced : s.Balanced
  owned : s.Owned
  given : ∀ p fd, s.given p fd ≤ 1 ∧ (s.ofile p fd = none → s.given p fd = 0)
  panicked : s.panicked = false
  nullIput : s.nullIput = false
  put : ∀ p, s.Put p
  ended : ∀ p, s.dead p = true → s.Ended s₀ p

/-- What a statement other than the last ones of `exit` leaves as it is, besides the entries. -/
structure Moved (s s' : Files) (p : Slot) (i : Tidx) (c : FilePlace) : Prop where
  place : s'.place = (s.goOn p i c).place
  cwd : s'.cwd = s.cwd
  cwdPuts : s'.cwdPuts = s.cwdPuts
  dead : s'.dead = s.dead
  panicked : s'.panicked = s.panicked
  nullIput : s'.nullIput = s.nullIput

/-- A thread goes on, and not to or from the last statements of `exit`. -/
lemma FilesInv.moved {s₀ : Files} (h : FilesInv s₀ s) (hm : Moved s s' p i c)
    (hdead : s.dead p = false) (hold : s.place p i ≠ .exitCwdClear) (hc : c ≠ .exitCwdClear)
    (hc' : c ≠ .exitLock) (hb : s'.Balanced) (ho : s'.Owned)
    (hofile : ∀ q, q ≠ p → s'.ofile q = s.ofile q)
    (hgiven : ∀ q e, s'.given q e ≤ 1 ∧ (s'.ofile q e = none → s'.given q e = 0)) :
    FilesInv s₀ s' := by
  have hthread : ∀ q j, s'.place q j = if (q, j) = (p, i) then c else s.place q j := fun q j => by
    rw [hm.place, goOn_place]
  refine ⟨hb, ho, hgiven, hm.panicked.trans h.panicked, hm.nullIput.trans h.nullIput,
    fun q => ⟨?_, fun j hj => ?_⟩, fun q hq => ?_⟩
  · rw [hm.cwdPuts, hm.cwd]
    rcases (h.put q).count with h0 | ⟨h1, hcwd | ⟨j, hj⟩⟩
    · exact Or.inl h0
    · exact Or.inr ⟨h1, Or.inl hcwd⟩
    · refine Or.inr ⟨h1, Or.inr ⟨j, ?_⟩⟩
      rw [hthread, if_neg]
      · exact hj
      · intro he
        obtain ⟨rfl, rfl⟩ := Prod.mk.inj he
        exact hold hj
  · rw [hm.cwdPuts]
    refine (h.put q).behind j ?_
    rw [hthread] at hj
    split_ifs at hj with he
    · rcases hj with hj | hj
      · exact absurd hj hc
      · exact absurd hj hc'
    · exact hj
  · rw [hm.dead] at hq
    have hne : q ≠ p := by
      rintro rfl
      rw [hdead] at hq
      exact Bool.false_ne_true hq
    have he := h.ended q hq
    have hsame : ∀ j, s'.place q j = s.place q j := fun j => by
      rw [hthread, if_neg fun h => hne (congrArg Prod.fst h)]
    refine ⟨fun j => ?_, ?_, ?_⟩
    · rw [hsame]
      exact he.threads j
    · rw [hofile q hne]
      exact he.entries
    · rw [hm.cwdPuts]
      exact he.cwdPuts

/-- A thread goes on, and no entry is written. -/
lemma FilesInv.goOn {s₀ : Files} (h : FilesInv s₀ s) (hm : Moved s s' p i c)
    (hdead : s.dead p = false) (hold : s.place p i ≠ .exitCwdClear) (hc : c ≠ .exitCwdClear)
    (hc' : c ≠ .exitLock) (hofile : s'.ofile = s.ofile) (hgiven : s'.given = s.given)
    (hdebt : c.debt = none)
    (hcount : ∀ f, s'.ref f + isFile f (s.place p i).spare =
      s.ref f + isFile f ((s.place p i).debt.map Prod.snd) + isFile f c.spare) :
    FilesInv s₀ s' := by
  refine h.moved hm hdead hold hc hc' (h.balanced.goOn hm.place hofile fun f => ?_)
    (h.owned.goOn hm.place hofile hdebt) (fun q _ => by rw [hofile]) fun q e => ?_
  · rw [hdebt]
    exact hcount f
  · rw [hgiven, hofile]
    exact h.given q e

/-! ### The steps -/

lemma isFile_none (f : FileId) : isFile f none = 0 := rfl

lemma isFile_some (f g : FileId) : isFile f (some g) = if g = f then 1 else 0 := by
  rw [isFile]
  simp

lemma Files.setRef_ref (s : Files) (f g : FileId) (n : ℕ) :
    (s.setRef f n).ref g = if g = f then n else s.ref g := Function.update_apply _ _ _ _

/-- A file gets a reference. -/
lemma Files.ref_inc (s : Files) (f g : FileId) {n : ℕ} (hn : n = s.ref f + 1) :
    (s.setRef f n).ref g = s.ref g + isFile g (some f) := by
  rw [setRef_ref, isFile_some]
  by_cases hg : g = f
  · rw [if_pos hg, if_pos hg.symm, hn, hg]
  · rw [if_neg hg, if_neg (Ne.symm hg), Nat.add_zero]

/-- A file loses a reference. -/
lemma Files.ref_dec (s : Files) (f g : FileId) (hpos : 1 ≤ s.ref f) :
    (s.setRef f (s.ref f - 1)).ref g + isFile g (some f) = s.ref g := by
  rw [setRef_ref, isFile_some]
  by_cases hg : g = f
  · rw [if_pos hg, if_pos hg.symm, hg]
    omega
  · rw [if_neg hg, if_neg (Ne.symm hg), Nat.add_zero]

/-- The locked part of `fileclose`, for a file that has a reference. -/
lemma FilesInv.fileclose {s₀ : Files} (h : FilesInv s₀ s) (hdead : s.dead p = false)
    (hpos : 1 ≤ s.ref f) (hspare : (s.place p i).spare = some f)
    (hdebt : (s.place p i).debt = none) : FilesInv s₀ (s.fileclose p i f .tail) := by
  have hold : s.place p i ≠ .exitCwdClear := by
    intro he
    rw [he] at hspare
    exact absurd hspare (by simp [FilePlace.spare])
  rw [Files.fileclose, if_neg (by omega)]
  refine h.goOn (c := .tail) ⟨rfl, rfl, rfl, rfl, rfl, rfl⟩ hdead hold (by simp) (by simp) rfl rfl
    rfl fun g => ?_
  rw [hspare, hdebt]
  exact (s.goOn p i .tail).ref_dec f g hpos

/-- A thread goes on, and holds what it has held. -/
lemma FilesInv.walk {s₀ : Files} (h : FilesInv s₀ s) (hdead : s.dead p = false)
    (hold : s.place p i ≠ .exitCwdClear) (hdebt : (s.place p i).debt = none)
    (hspare : c.spare = (s.place p i).spare) (hc : c.debt = none) (hc' : c ≠ .exitCwdClear)
    (hc'' : c ≠ .exitLock) : FilesInv s₀ (s.goOn p i c) := by
  refine h.goOn (c := c) ⟨rfl, rfl, rfl, rfl, rfl, rfl⟩ hdead hold hc' hc'' rfl rfl hc fun g => ?_
  rw [hdebt, hspare]
  rfl

/-- A thread writes an entry and goes on. -/
lemma FilesInv.write {s₀ : Files} (h : FilesInv s₀ s) (hdead : s.dead p = false)
    (hold : s.place p i ≠ .exitCwdClear) (hc : c ≠ .exitCwdClear) (hc' : c ≠ .exitLock)
    {d : Fd} {o : Option FileId} {n : ℕ} (hn : n ≤ 1 ∧ (o = none → n = 0))
    (hcount : ∀ g, isFile g (c.debt.map Prod.snd) + isFile g (s.ofile p d) +
        isFile g (s.place p i).spare =
      isFile g ((s.place p i).debt.map Prod.snd) + isFile g o + isFile g c.spare)
    (hkeep : ∀ j g, j ≠ i → (s.place p j).debt ≠ some (d, g))
    (hnew : ∀ e g, c.debt = some (e, g) → e = d ∧ o = some g) :
    FilesInv s₀ (((s.goOn p i c).setFd p d o).setGiven p d n) := by
  refine h.moved (c := c) ⟨rfl, rfl, rfl, rfl, rfl, rfl⟩ hdead hold hc hc' ?_ ?_ (fun q hq => ?_)
    fun q e => ?_
  · refine h.balanced.move (d := d) (o := o) rfl rfl fun g => ?_
    have hg := hcount g
    show s.ref g + _ + _ + _ = _
    omega
  · refine h.owned.move (d := d) (o := o) rfl rfl (fun j g hj hd => absurd hd (hkeep j g hj)) ?_
    intro e g hd
    obtain ⟨rfl, rfl⟩ := hnew e g hd
    exact ⟨if_pos rfl, fun j g' hj => hkeep j g' hj⟩
  · exact Function.update_of_ne hq _ _
  · have hg : (((s.goOn p i c).setFd p d o).setGiven p d n).given q e =
        if (q, e) = (p, d) then n else s.given q e := setGiven_given _ _ _ _ _ _
    have ho : (((s.goOn p i c).setFd p d o).setGiven p d n).ofile q e =
        if (q, e) = (p, d) then o else s.ofile q e := setFd_ofile _ _ _ _ _ _
    rw [hg, ho]
    split_ifs
    · exact hn
    · exact h.given q e

/-- A step of `exit` that concerns process `p` only, and no entry and no file. -/
lemma FilesInv.last {s₀ : Files} (h : FilesInv s₀ s) (hdead : s.dead p = false)
    (hold : (s.place p i).spare = none ∧ (s.place p i).debt = none)
    (hc : c.spare = none ∧ c.debt = none) (hplace : s'.place = (s.goOn p i c).place)
    (hofile : s'.ofile = s.ofile) (href : s'.ref = s.ref) (hgiven : s'.given = s.given)
    (hpanicked : s'.panicked = s.panicked) (hnull : s'.nullIput = s.nullIput)
    (hothers : ∀ q, q ≠ p → s'.cwd q = s.cwd q ∧ s'.cwdPuts q = s.cwdPuts q ∧
      s'.dead q = s.dead q) (hput : s'.Put p) (hended : s'.dead p = true → s'.Ended s₀ p) :
    FilesInv s₀ s' := by
  have hsame : ∀ q, q ≠ p → ∀ j, s'.place q j = s.place q j := fun q hq j => by
    rw [hplace, goOn_place, if_neg fun he => hq (congrArg Prod.fst he)]
  refine ⟨h.balanced.goOn hplace hofile fun f => ?_, h.owned.goOn hplace hofile hc.2, ?_,
    hpanicked.trans h.panicked, hnull.trans h.nullIput, fun q => ?_, fun q hq => ?_⟩
  · rw [href, hold.1, hold.2, hc.1, hc.2]
  · rw [hgiven, hofile]
    exact h.given
  · by_cases hq : q = p
    · rw [hq]
      exact hput
    · obtain ⟨hcwd, hputs, -⟩ := hothers q hq
      constructor
      · rw [hputs, hcwd]
        simp only [hsame q hq]
        exact (h.put q).count
      · rw [hputs]
        simp only [hsame q hq]
        exact (h.put q).behind
  · by_cases hqp : q = p
    · subst hqp
      exact hended hq
    · obtain ⟨-, hputs, hd⟩ := hothers q hqp
      rw [hd] at hq
      have he := h.ended q hq
      refine ⟨fun j => ?_, ?_, ?_⟩
      · rw [hsame q hqp]
        exact he.threads j
      · rw [hofile]
        exact he.entries
      · rw [hputs]
        exact he.cwdPuts

/-- The invariant is kept by the next statement of a thread that finds what it has tested. -/
lemma FilesInv.next {s₀ : Files} (h : FilesInv s₀ s) (hdead : s.dead p = false)
    (hsafe : Unchanged s (p, i, .next)) (hs : s.next p i (s.place p i) = some s') :
    FilesInv s₀ s' := by
  unfold Unchanged at hsafe
  dsimp only at hsafe
  have hpos := fun f => Files.ref_pos_of_spare (p := p) (i := i) (f := f) h.balanced h.owned
  cases hc : s.place p i with
  | user =>
    rw [hc] at hs
    exact absurd hs (by simp [Files.next])
  | sysOpen =>
    rw [hc, Files.next] at hs
    have hold : s.place p i ≠ .exitCwdClear := by simp [hc]
    split at hs
    · obtain rfl := Option.some.inj hs
      refine h.walk hdead hold ?_ ?_ rfl (by simp) (by simp) <;> rw [hc] <;> rfl
    · rename_i f hf
      obtain rfl := Option.some.inj hs
      have hfree : s.ref f = 0 := by simpa using List.find?_some hf
      refine h.goOn (c := .scan true f 0) ⟨rfl, rfl, rfl, rfl, rfl, rfl⟩ hdead hold (by simp)
        (by simp) rfl rfl rfl fun g => ?_
      rw [hc]
      exact (s.goOn p i (.scan true f 0)).ref_inc f g (congrArg (· + 1) hfree.symm)
  | scan new f fd =>
    rw [hc, Files.next] at hs
    have hold : s.place p i ≠ .exitCwdClear := by simp [hc]
    have hdebt : (s.place p i).debt = none := by rw [hc]; rfl
    split_ifs at hs with hlt hnone hnew
    · obtain rfl := Option.some.inj hs
      refine h.walk hdead hold hdebt ?_ rfl (by simp) (by simp)
      rw [hc]
      cases new <;> rfl
    · obtain rfl := Option.some.inj hs
      refine h.walk hdead hold hdebt ?_ rfl (by simp) (by simp)
      rw [hc]
      cases new <;> rfl
    · obtain rfl := Option.some.inj hs
      refine h.walk hdead hold hdebt ?_ rfl (by simp) (by simp)
      rw [hc, hnew]
      rfl
    · obtain rfl := Option.some.inj hs
      refine h.walk hdead hold hdebt ?_ rfl (by simp) (by simp)
      rw [hc, Bool.eq_false_iff.mpr hnew]
      rfl
  | store new f fd =>
    rw [hc] at hs hsafe
    have hnull : s.ofile p fd = none := hsafe
    obtain rfl := Option.some.inj hs
    have hkeep : ∀ j g, j ≠ i → (s.place p j).debt ≠ some (fd, g) := by
      intro j g _ hd
      have he := h.owned.entry p j fd g hd
      rw [hnull] at he
      exact absurd he (by simp)
    have hgiven := (h.given p fd).2 hnull
    refine h.write (d := fd) (o := some f) hdead (by simp [hc]) (by cases new <;> simp)
      (by cases new <;> simp) ⟨by omega, by simp⟩ (fun g => ?_) hkeep ?_
    · rw [hc, hnull]
      cases new with
      | true => simp [FilePlace.debt, FilePlace.spare, isFile_none]
      | false => simp [FilePlace.debt, FilePlace.spare, isFile_none]
    · intro e g hd
      cases new with
      | true => exact absurd hd (by simp [FilePlace.debt])
      | false =>
        obtain ⟨rfl, rfl⟩ := Prod.mk.inj (Option.some.inj hd)
        exact ⟨rfl, rfl⟩
  | openFail f =>
    rw [hc] at hs
    obtain rfl := Option.some.inj hs
    refine h.fileclose hdead (hpos f ?_) ?_ ?_ <;> rw [hc] <;> rfl
  | filedup f fd =>
    rw [hc] at hs hsafe
    have href : 1 ≤ s.ref f := hsafe
    rw [Files.next, if_neg (by omega)] at hs
    obtain rfl := Option.some.inj hs
    refine h.goOn (c := .tail) ⟨rfl, rfl, rfl, rfl, rfl, rfl⟩ hdead (by simp [hc]) (by simp)
      (by simp) rfl rfl rfl fun g => ?_
    rw [hc]
    exact (s.goOn p i .tail).ref_inc f g rfl
  | clear fd f =>
    rw [hc] at hs hsafe
    obtain ⟨hslot, hset⟩ := hsafe
    obtain rfl := Option.some.inj hs
    refine h.write (d := fd) (o := none) hdead (by simp [hc]) (by simp) (by simp)
      ⟨Nat.zero_le _, fun _ => rfl⟩ (fun g => ?_) (fun j g _ => hset j g) ?_
    · rw [hc, hslot]
      simp [FilePlace.debt, FilePlace.spare, isFile_none]
    · exact fun e g hd => absurd hd (by simp [FilePlace.debt])
  | closing f =>
    rw [hc] at hs
    obtain rfl := Option.some.inj hs
    refine h.fileclose hdead (hpos f ?_) ?_ ?_ <;> rw [hc] <;> rfl
  | tail =>
    rw [hc] at hs
    obtain rfl := Option.some.inj hs
    refine h.walk hdead (by simp [hc]) ?_ ?_ rfl (by simp) (by simp) <;> rw [hc] <;> rfl
  | exitScan fd =>
    rw [hc, Files.next] at hs
    have hold : s.place p i ≠ .exitCwdClear := by simp [hc]
    split_ifs at hs
    all_goals
      obtain rfl := Option.some.inj hs
      refine h.walk hdead hold ?_ ?_ rfl (by simp) (by simp) <;> rw [hc] <;> rfl
  | exitClose fd =>
    rw [hc] at hs hsafe
    have hslot : s.ofile p fd ≠ none := hsafe
    rw [Files.next] at hs
    split at hs
    · rename_i hnone
      exact absurd hnone hslot
    · obtain rfl := Option.some.inj hs
      refine h.walk hdead (by simp [hc]) ?_ ?_ rfl (by simp) (by simp) <;> rw [hc] <;> rfl
  | exitFileclose fd f =>
    rw [hc] at hs hsafe
    obtain ⟨hslot, hset⟩ := hsafe
    have href : 1 ≤ s.ref f := Files.ref_pos_of_entry h.balanced h.owned hslot hset
    rw [Files.next, Files.fileclose, if_neg (by omega)] at hs
    obtain rfl := Option.some.inj hs
    refine h.moved (c := .exitClear fd f) ⟨rfl, rfl, rfl, rfl, rfl, rfl⟩ hdead (by simp [hc])
      (by simp) (by simp) ?_ ?_ (fun _ _ => rfl) h.given
    · refine h.balanced.goOn (c := .exitClear fd f) rfl rfl fun g => ?_
      rw [hc]
      exact (s.goOn p i (.exitClear fd f)).ref_dec f g href
    · refine h.owned.move (c := .exitClear fd f) (d := fd) (o := some f) rfl ?_
        (fun j g _ hd => absurd hd (hset j g)) ?_
      · rw [← hslot]
        exact (setFd_self s p fd).symm
      · intro e g hd
        obtain ⟨rfl, rfl⟩ := Prod.mk.inj (Option.some.inj hd)
        exact ⟨if_pos rfl, fun j g' _ => hset j g'⟩
  | exitClear fd f =>
    rw [hc] at hs
    obtain rfl := Option.some.inj hs
    have hdebt : (s.place p i).debt = some (fd, f) := by
      rw [hc]
      rfl
    refine h.write (d := fd) (o := none) hdead (by simp [hc]) (by simp) (by simp)
      ⟨Nat.zero_le _, fun _ => rfl⟩ (fun g => ?_) (fun j g hj hd => ?_) ?_
    · rw [hc, h.owned.entry p i fd f hdebt]
      simp [FilePlace.debt, FilePlace.spare, isFile_none]
    · exact hj (h.owned.alone p j i fd g f hd hdebt)
    · exact fun e g hd => absurd hd (by simp [FilePlace.debt])
  | exitCwd =>
    rw [hc] at hs hsafe
    obtain ⟨hcwd, hothers⟩ := hsafe
    rw [Files.next] at hs
    split at hs
    · rename_i hnone
      exact absurd hnone hcwd
    · obtain rfl := Option.some.inj hs
      -- no thread is behind the call of `iput`
      have hzero : s.cwdPuts p = 0 := by
        rcases (h.put p).count with h0 | ⟨-, hn | ⟨j, hj⟩⟩
        · exact h0
        · exact absurd hn hcwd
        · exact absurd hj (hothers j)
      have hone : Function.update s.cwdPuts p (s.cwdPuts p + 1) p = 1 := by
        rw [Function.update_self, hzero]
      refine h.last (c := .exitCwdClear) hdead (by rw [hc]; exact ⟨rfl, rfl⟩) ⟨rfl, rfl⟩ rfl rfl rfl
        rfl rfl rfl (fun q hq => ⟨rfl, Function.update_of_ne hq _ _, rfl⟩) ⟨?_, fun _ _ => hone⟩ ?_
      · refine Or.inr ⟨hone, Or.inr ⟨i, ?_⟩⟩
        exact (goOn_place s p p i i .exitCwdClear).trans (if_pos rfl)
      · intro hd
        exact absurd (hdead.symm.trans hd) Bool.false_ne_true
  | exitCwdClear =>
    rw [hc] at hs
    obtain rfl := Option.some.inj hs
    have hone := (h.put p).behind i (Or.inl hc)
    refine h.last (c := .exitLock) hdead (by rw [hc]; exact ⟨rfl, rfl⟩) ⟨rfl, rfl⟩ rfl rfl rfl rfl
      rfl rfl (fun q hq => ⟨Function.update_of_ne hq _ _, rfl, rfl⟩) ⟨?_, fun _ _ => hone⟩ ?_
    · exact Or.inr ⟨hone, Or.inl (Function.update_self _ _ _)⟩
    · intro hd
      exact absurd (hdead.symm.trans hd) Bool.false_ne_true
  | exitLock =>
    rw [hc] at hs hsafe
    obtain ⟨hentries, hthreads⟩ := hsafe
    obtain rfl := Option.some.inj hs
    have hone := (h.put p).behind i (Or.inr hc)
    have hstay : (s.goOn p i .exitLock).place = s.place := by
      funext q j
      rw [goOn_place]
      split_ifs with he
      · rw [(Prod.mk.inj he).1, (Prod.mk.inj he).2, hc]
      · rfl
    exact h.last (c := .exitLock) hdead (by rw [hc]; exact ⟨rfl, rfl⟩) ⟨rfl, rfl⟩ hstay.symm rfl rfl
      rfl rfl rfl (fun q hq => ⟨rfl, rfl, Function.update_of_ne hq _ _⟩)
      ⟨(h.put p).count, (h.put p).behind⟩
      fun _ => ⟨hthreads, fun _ => hentries, fun _ => hone⟩

/-- A thread enters a call. -/
lemma FilesInv.call {s₀ : Files} (h : FilesInv s₀ s) (hdead : s.dead p = false)
    (hu : s.place p i = .user) {op : FileOp} (hs : s.call p i op = some s') : FilesInv s₀ s' := by
  have hwalk : ∀ c : FilePlace, c.spare = none → c.debt = none → c ≠ .exitCwdClear →
      c ≠ .exitLock → FilesInv s₀ (s.goOn p i c) := by
    intro c hspare hdebt hc hc'
    refine h.walk hdead (by simp [hu]) ?_ ?_ hdebt hc hc'
    · rw [hu]
      rfl
    · rw [hspare, hu]
      rfl
  cases op with
  | sysOpen =>
    obtain rfl := Option.some.inj hs
    exact hwalk _ rfl rfl (by simp) (by simp)
  | sysDup fd | sysClose fd =>
    obtain ⟨f, -, rfl⟩ := Option.map_eq_some_iff.mp hs
    exact hwalk _ rfl rfl (by simp) (by simp)
  | exit =>
    obtain ⟨-, hs⟩ := Option.ite_none_left_eq_some.mp hs
    obtain rfl := Option.some.inj hs
    exact hwalk _ rfl rfl (by simp) (by simp)
  | next => exact absurd hs (by simp [Files.call])

lemma FilesInv.step {s₀ : Files} (h : FilesInv s₀ s) {l : Slot × Tidx × FileOp}
    (hs : Files.Step s l s') (hsafe : Unchanged s l) : FilesInv s₀ s' := by
  obtain ⟨p, i, op⟩ := l
  obtain ⟨⟨-, -, hdead⟩, hs⟩ := Option.ite_none_right_eq_some.mp hs
  by_cases hop : op = .next
  · subst hop
    rw [if_pos rfl] at hs
    exact h.next hdead hsafe hs
  · rw [if_neg hop] at hs
    obtain ⟨hu, hs⟩ := Option.ite_none_right_eq_some.mp hs
    exact h.call hdead hu hs

/-- A state in which no thread is inside a call is balanced when `ref` counts the entries. -/
lemma Files.Start.filesInv (h : s.Start) : FilesInv s s := by
  refine ⟨fun f => ?_, ⟨fun p i fd f hd => ?_, fun p i j fd f g hd => ?_⟩, fun p fd => ?_,
    h.panicked, h.nullIput, fun p => ⟨Or.inl (h.cwdPuts p), fun i hi => ?_⟩,
    fun p hp => ⟨fun i => ?_, ?_, ?_⟩⟩
  · have hspares : s.spares f = 0 := by
      refine sum_eq_zero fun t _ => ?_
      rw [h.place]
      rfl
    have hdebts : s.debts f = 0 := by
      refine sum_eq_zero fun t _ => ?_
      rw [h.place]
      rfl
    rw [hspares, hdebts, h.ref f]
  · rw [h.place] at hd
    exact absurd hd (by simp [FilePlace.debt])
  · rw [h.place] at hd
    exact absurd hd (by simp [FilePlace.debt])
  · rw [h.given]
    split_ifs with hnone
    · exact ⟨Nat.zero_le _, fun _ => rfl⟩
    · exact ⟨le_rfl, fun hn => absurd hn hnone⟩
  · rw [h.place] at hi
    rcases hi with hi | hi <;> exact absurd hi (by simp)
  · rw [h.place]
    exact ⟨rfl, rfl⟩
  · exact fun hf => absurd (hf.symm.trans hp) Bool.false_ne_true
  · exact fun hf => absurd (hf.symm.trans hp) Bool.false_ne_true

lemma FilesInv.filesRight {s₀ : Files} (h : FilesInv s₀ s) : FilesRight s₀ s := by
  refine ⟨fun hout f => ?_, fun p fd => (h.given p fd).1, h.panicked, h.nullIput, fun p h₀ hd =>
    ⟨(h.ended p hd).entries h₀, (h.ended p hd).cwdPuts h₀⟩⟩
  have hnone : ∀ t : Slot × Tidx,
      (s.place t.1 t.2).spare = none ∧ (s.place t.1 t.2).debt = none := by
    intro t
    by_cases hd : s.dead t.1 = true
    · exact (h.ended t.1 hd).threads t.2
    · rw [hout t.1 t.2 (Bool.eq_false_iff.mpr hd)]
      exact ⟨rfl, rfl⟩
  have hspares : s.spares f = 0 := by
    refine sum_eq_zero fun t _ => ?_
    rw [(hnone t).1]
    rfl
  have hdebts : s.debts f = 0 := by
    refine sum_eq_zero fun t _ => ?_
    rw [(hnone t).2]
    rfl
  have hf := h.balanced f
  omega

end

end Xv6Projects.Threads
