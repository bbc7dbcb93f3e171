import Mathlib.Algebra.BigOperators.Ring.Finset
import Mathlib.Algebra.Order.BigOperators.Group.Finset
import Xv6Projects.Library.Count
import Xv6Projects.Library.Transition

/-!
# Copy-on-write faults on several CPUs (project04)

Several processes map pages that they share, each with one entry, and take write faults and
exit at the same time on different CPUs.  The steps are those of the code: `CoW_handler` reads
the reference count without a lock, copies the page, writes the entry and lowers the count, one
after the other; `kfree` holds `kmem.lock`, under which `kalloc` is one step.  `none` stands for
a panic.
-/

namespace Xv6Projects.Cow

open Finset Library

/-- Where a process stands in `CoW_handler`, or its parent in the `kfree` of its page. -/
inductive SmpPlace
  /-- Outside. -/
  | user
  /-- In `CoW_handler`, before `get_refc`. -/
  | getRefc (f : ℕ)
  /-- The count of `f` was larger than one; before `kalloc`. -/
  | kalloc (f : ℕ)
  /-- `kalloc` has returned page `m`. -/
  | memmove (f m : ℕ)
  /-- Page `m` is a copy of `f`. -/
  | writePte (f m : ℕ)
  /-- The entry maps the copy; before `decr_refc`. -/
  | decrRefc (f : ℕ)
  /-- The count of `f` was one; before the entry is made writable. -/
  | setW (f : ℕ)
  /-- In `kfree`, which holds `kmem.lock`, before the first `get_refc`. -/
  | kfreeTest (f : ℕ)
  /-- In `kfree`, before `decr_refc`. -/
  | kfreeDecr (f : ℕ)
  /-- In `kfree`, before the last `get_refc`. -/
  | kfreeZero (f : ℕ)
  /-- In `deallocuvm`, after `kfree` and before the entry is cleared. -/
  | clearPte (f : ℕ)
deriving DecidableEq, Repr

/-- The entries of the processes, with the page they map and `PTE_W`, the allocator, the contents
of the pages, and where the processes stand.  `own` is what a process has last written, or what
its page held at the start; `faulted` tells whether it has taken a fault. -/
structure Smp (ι V : Type) where
  pte : ι → Option (ℕ × Bool)
  ref : ℕ → ℕ
  freelist : List ℕ
  lock : Option ι
  page : ℕ → V
  place : ι → SmpPlace
  own : ι → V
  faulted : ι → Bool

/-- What a process does.  `next` is its next step in the kernel. -/
inductive SmpOp (V : Type)
  | store (v : V)
  | fault
  | exit
  | next

namespace Smp

variable {ι V : Type} [DecidableEq ι] [Inhabited V]

/-- Process `i` goes on at place `c`. -/
def goOn (s : Smp ι V) (i : ι) (c : SmpPlace) : Smp ι V :=
  { s with place := Function.update s.place i c }

/-- Write the entry of process `i`. -/
def setPte (s : Smp ι V) (i : ι) (e : Option (ℕ × Bool)) : Smp ι V :=
  { s with pte := Function.update s.pte i e }

/-- Write the count of page `f`. -/
def setRef (s : Smp ι V) (f n : ℕ) : Smp ι V := { s with ref := Function.update s.ref f n }

/-- Write page `f`. -/
def setPage (s : Smp ι V) (f : ℕ) (v : V) : Smp ι V :=
  { s with page := Function.update s.page f v }

/-- `decr_refc`. -/
def decr (s : Smp ι V) (f : ℕ) : Option (Smp ι V) :=
  -- `can't decrease pgRef`
  if s.ref f = 0 then none else some (s.setRef f (s.ref f - 1))

/-- `kalloc`, when the lock is free. -/
def alloc (s : Smp ι V) : Option (ℕ × Smp ι V) :=
  if s.lock = none then
    match s.freelist with
    -- `CoW_handler: kalloc`
    | [] => none
    -- `kalloc: not freelist`
    | m :: fs => if s.ref m = 0 then some (m, { s with freelist := fs }.setRef m 1) else none
  else none

/-- Page `f`, filled with junk, is put on the free list when its count is zero. -/
def push (s : Smp ι V) (f : ℕ) : Smp ι V :=
  if s.ref f = 0 then { s.setPage f default with freelist := f :: s.freelist } else s

/-- The next step of process `i`, which stands at a place in the kernel. -/
def next (s : Smp ι V) (i : ι) : SmpPlace → Option (Smp ι V)
  | .user => none
  | .getRefc f =>
      if 1 < s.ref f then some (s.goOn i (.kalloc f))
      else if s.ref f = 1 then some (s.goOn i (.setW f))
      else some (s.goOn i .user)
  | .kalloc f => s.alloc.map fun r => r.2.goOn i (.memmove f r.1)
  | .memmove f m => some ((s.setPage m (s.page f)).goOn i (.writePte f m))
  | .writePte f m => some ((s.setPte i (some (m, true))).goOn i (.decrRefc f))
  | .decrRefc f => (s.decr f).map fun s => s.goOn i .user
  | .setW _ => some ((s.setPte i ((s.pte i).map fun e => (e.1, true))).goOn i .user)
  | .kfreeTest f => some (s.goOn i (if 0 < s.ref f then .kfreeDecr f else .kfreeZero f))
  | .kfreeDecr f => (s.decr f).map fun s => s.goOn i (.kfreeZero f)
  | .kfreeZero f => some ({ s.push f with lock := none }.goOn i (.clearPte f))
  | .clearPte _ => some ((s.setPte i none).goOn i .user)

/-- A process outside the kernel, with entry `e`, starts something. -/
def call (s : Smp ι V) (i : ι) (e : ℕ × Bool) : SmpOp V → Option (Smp ι V)
  | .store v => if e.2 then some { s.setPage e.1 v with own := Function.update s.own i v } else none
  | .fault =>
      if e.2 then none
      else some { s.goOn i (.getRefc e.1) with faulted := Function.update s.faulted i true }
  | .exit =>
      if s.lock = none then some ({ s with lock := some i }.goOn i (.kfreeTest e.1)) else none
  | .next => none

/-- Process `i` performs an operation. -/
def step (s : Smp ι V) : ι × SmpOp V → Option (Smp ι V)
  | (i, .next) => s.next i (s.place i)
  | (i, op) => if s.place i = .user then (s.pte i).bind fun e => s.call i e op else none

/-- The operation leads from one state to the other. -/
def Step (s : Smp ι V) (l : ι × SmpOp V) (s' : Smp ι V) : Prop := s.step l = some s'

variable [Fintype ι]

/-- The number of entries that map page `f`. -/
def count (s : Smp ι V) (f : ℕ) : ℕ := (univ.filter fun i => (s.pte i).map Prod.fst = some f).card

/-- No process is in the kernel, a page is counted as often as it is mapped, only pages that are
mapped once are writable, and free pages are not mapped. -/
structure Start (s : Smp ι V) : Prop where
  place : ∀ i, s.place i = .user
  faulted : ∀ i, s.faulted i = false
  ref : ∀ f, f ∈ s.freelist ∨ 0 < s.count f → s.ref f = s.count f
  writable : ∀ i f, s.pte i = some (f, true) → s.ref f = 1
  own : ∀ i f w, s.pte i = some (f, w) → s.page f = s.own i
  free : ∀ f ∈ s.freelist, s.count f = 0
  nodup : s.freelist.Nodup

end Smp

section
variable {ι V : Type} [DecidableEq ι] [Inhabited V] [Fintype ι]

/-- What is wanted when no process is in the kernel: a process that has faulted and survived has
a writable page of its own with the right contents; the count of a page that was shared is the
number of entries that map it; and without one it is free. -/
structure SharedRight (s₀ s : Smp ι V) : Prop where
  survivor : ∀ i f w, s.faulted i = true → s.pte i = some (f, w) →
    w = true ∧ s.page f = s.own i ∧ ∀ j, j ≠ i → (s.pte j).map Prod.fst ≠ some f
  count : ∀ f, 0 < s₀.count f → s.ref f = s.count f
  free : ∀ f, 0 < s₀.count f → s.count f = 0 → f ∈ s.freelist

/-- `CoW_handler` does not lower a count to zero, unless a `kfree` of that page is about to read
it. -/
def SmpSafe (s : Smp ι V) : ι × SmpOp V → Prop
  | (i, .next) => ∀ f, s.place i = .decrRefc f → 2 ≤ s.ref f ∨ ∃ j, s.place j = .kfreeZero f
  | _ => True

end

/-! ### What a process contributes to the counts -/

namespace SmpPlace

/-- The page that the entry of a process at this place maps. -/
def source : SmpPlace → Option ℕ
  | .getRefc f | .kalloc f | .memmove f _ | .writePte f _ | .setW f => some f
  | .kfreeTest f | .kfreeDecr f | .kfreeZero f | .clearPte f => some f
  | .user | .decrRefc _ => none

/-- A page that is counted for the process besides the one its entry maps. -/
def spare : SmpPlace → Option ℕ
  | .memmove _ m | .writePte _ m => some m
  | .decrRefc f => some f
  | _ => none

/-- Whether the entry of the process is no longer counted. -/
def debt : SmpPlace → Bool
  | .kfreeZero _ | .clearPte _ => true
  | _ => false

/-- A page that the process takes for its own. -/
def claim : SmpPlace → Option ℕ
  | .setW f => some f
  | .memmove _ m | .writePte _ m => some m
  | _ => none

/-- Whether the process holds `kmem.lock`. -/
def locked : SmpPlace → Bool
  | .kfreeTest _ | .kfreeDecr _ | .kfreeZero _ => true
  | _ => false

/-- Whether the fault of the process, if there was one, has been resolved. -/
def resolved : SmpPlace → Bool
  | .user | .decrRefc _ => true
  | _ => false

end SmpPlace

/-- What a process with entry `e` at place `c` contributes to the count of page `f`. -/
def held (e : Option (ℕ × Bool)) (c : SmpPlace) (f : ℕ) : ℕ :=
  (if e.map Prod.fst = some f ∧ c.debt = false then 1 else 0) + if c.spare = some f then 1 else 0

section
variable {ι V : Type}

/-- What process `i` contributes to the count of page `f`. -/
def Smp.hold (s : Smp ι V) (i : ι) (f : ℕ) : ℕ := held (s.pte i) (s.place i) f

/-- Process `i` relies on being the only one that uses page `f`. -/
def Smp.Claims (s : Smp ι V) (i : ι) (f : ℕ) : Prop :=
  s.pte i = some (f, true) ∧ (s.place i).debt = false ∨ (s.place i).claim = some f

/-- Process `i` maps page `f`, or is about to. -/
def Smp.Names (s : Smp ι V) (i : ι) (f : ℕ) : Prop :=
  (s.pte i).map Prod.fst = some f ∨ (s.place i).spare = some f

/-- What holds of one process at all times. -/
structure Smp.SiteOk (s : Smp ι V) (i : ι) : Prop where
  source : ∀ f, (s.place i).source = some f → (s.pte i).map Prod.fst = some f
  lock : (s.place i).locked = true → s.lock = some i
  claim : ∀ f, s.Claims i f → s.ref f = 1
  entry : ∀ f w, s.pte i = some (f, w) → (s.place i).debt = false → s.page f = s.own i
  copy : ∀ f m, s.place i = .writePte f m → s.page m = s.own i
  resolved : s.faulted i = true → (s.place i).resolved = true →
    ∀ f w, s.pte i = some (f, w) → w = true

variable {s s' : Smp ι V} {i j : ι} {f m : ℕ}

lemma held_pos {e : Option (ℕ × Bool)} {c : SmpPlace} (he : e.map Prod.fst = some f)
    (hc : c.debt = false) : 0 < held e c f := by
  rw [held, if_pos ⟨he, hc⟩]
  omega

lemma Smp.hold_pos_of_spare (h : (s.place i).spare = some f) : 0 < s.hold i f := by
  rw [hold, held, if_pos h]
  omega

/-- A process is counted on the pages that it relies on. -/
lemma Smp.SiteOk.hold_pos (h : s.SiteOk i) (hf : s.Claims i f) : 0 < s.hold i f := by
  rcases hf with ⟨he, hd⟩ | hc
  · exact held_pos (by rw [he]; rfl) hd
  · cases hp : s.place i with
    | setW g =>
      rw [hp] at hc
      obtain rfl : g = f := Option.some.inj hc
      exact held_pos (h.source g (by rw [hp]; rfl)) (by rw [hp]; rfl)
    | memmove g m | writePte g m =>
      rw [hp] at hc
      exact hold_pos_of_spare (by rw [hp]; exact hc)
    | _ => simp [hp, SmpPlace.claim] at hc

/-- A step of another process leaves a process as it was, if it keeps the pages on which that
process is counted. -/
lemma Smp.SiteOk.frame (h : s.SiteOk j) (hpte : s'.pte j = s.pte j)
    (hplace : s'.place j = s.place j) (hown : s'.own j = s.own j)
    (hfaulted : s'.faulted j = s.faulted j) (hlock : s.lock = some j → s'.lock = some j)
    (hkeep : ∀ f, 0 < s.hold j f → s'.page f = s.page f ∧ (s.ref f = 1 → s'.ref f = 1)) :
    s'.SiteOk j := by
  constructor
  · rw [hplace, hpte]
    exact h.source
  · rw [hplace]
    exact fun hl => hlock (h.lock hl)
  · intro f hf
    have hf : s.Claims j f := by rwa [Claims, hpte, hplace] at hf
    exact (hkeep f (h.hold_pos hf)).2 (h.claim f hf)
  · intro f w he hd
    rw [hpte] at he
    rw [hplace] at hd
    rw [(hkeep f (held_pos (by rw [he]; rfl) hd)).1, hown]
    exact h.entry f w he hd
  · intro f m hp
    rw [hplace] at hp
    rw [(hkeep m (hold_pos_of_spare (by rw [hp]; rfl))).1, hown]
    exact h.copy f m hp
  · rw [hfaulted, hplace, hpte]
    exact h.resolved

end

/-! ### The invariant -/

section
variable {ι V : Type} [Fintype ι]

/-- The pages that are shared or free at the start. -/
def Smp.Within [DecidableEq ι] (s : Smp ι V) (f : ℕ) : Prop := f ∈ s.freelist ∨ 0 < s.count f

/-- What holds of every run in which no page is lost. -/
structure SmpInv [DecidableEq ι] (s₀ s : Smp ι V) : Prop where
  site : ∀ i, s.SiteOk i
  balance : ∀ f, s₀.Within f → s.ref f = ∑ i, s.hold i f
  names : ∀ i f, s.Names i f → s₀.Within f
  free : ∀ f ∈ s.freelist, s₀.Within f
  listed : ∀ f, s₀.Within f → s.ref f = 0 → f ∈ s.freelist ∨ ∃ i, s.place i = .kfreeZero f

variable [DecidableEq ι] {s s' s₀ : Smp ι V} {i j : ι} {f m : ℕ} {c : SmpPlace}

omit [Fintype ι] [DecidableEq ι] in
lemma Smp.names_of_hold_pos (h : 0 < s.hold i f) : s.Names i f := by
  by_cases he : (s.pte i).map Prod.fst = some f
  · exact .inl he
  · by_cases hc : (s.place i).spare = some f
    · exact .inr hc
    · rw [hold, held, if_neg (fun h => he h.1), if_neg hc] at h
      omega

namespace SmpInv

/-- A page on which a process is counted has at least that count. -/
lemma hold_le (h : SmpInv s₀ s) (hf : 0 < s.hold i f) : s.hold i f ≤ s.ref f := by
  rw [h.balance f (h.names i f (Smp.names_of_hold_pos hf))]
  exact single_le_sum (f := fun i => s.hold i f) (fun _ _ => Nat.zero_le _) (mem_univ i)

lemma hold_add_le (h : SmpInv s₀ s) (hf : 0 < s.hold i f) (hj : j ≠ i) :
    s.hold i f + s.hold j f ≤ s.ref f := by
  rw [h.balance f (h.names i f (Smp.names_of_hold_pos hf))]
  calc s.hold i f + s.hold j f
      = ∑ k ∈ {i, j}, s.hold k f := (sum_pair (f := fun k => s.hold k f) hj.symm).symm
    _ ≤ ∑ k, s.hold k f := sum_le_sum_of_subset (f := fun k => s.hold k f) (subset_univ {i, j})

/-- No other process is counted on a page that a process relies on. -/
lemma sole (h : SmpInv s₀ s) (hf : s.Claims i f) (hj : j ≠ i) : s.hold j f = 0 := by
  have hpos := (h.site i).hold_pos hf
  have hle := h.hold_add_le hpos hj
  have hone := (h.site i).claim f hf
  omega

/-- A step of process `i` that says what it does to the counts and to the process. -/
lemma moved (h : SmpInv s₀ s)
    (hframe : ∀ j, j ≠ i → s'.pte j = s.pte j ∧ s'.place j = s.place j ∧ s'.own j = s.own j ∧
      s'.faulted j = s.faulted j)
    (hlock : ∀ j, j ≠ i → s.lock = some j → s'.lock = some j)
    (hcount : ∀ f, s'.ref f + s.hold i f = s.ref f + s'.hold i f)
    (hkeep : ∀ j f, j ≠ i → 0 < s.hold j f →
      s'.page f = s.page f ∧ (s.ref f = 1 → s'.ref f = 1))
    (hsite : s'.SiteOk i) (hnames : ∀ f, s'.Names i f → s₀.Within f)
    (hfree : ∀ f ∈ s'.freelist, s₀.Within f)
    (hlisted : ∀ f, s₀.Within f → s'.ref f = 0 →
      f ∈ s'.freelist ∨ ∃ i, s'.place i = .kfreeZero f) : SmpInv s₀ s' := by
  refine ⟨fun j => ?_, fun f hf => ?_, fun j f hj => ?_, hfree, hlisted⟩
  · by_cases hj : j = i
    · rw [hj]
      exact hsite
    · obtain ⟨hpte, hplace, hown, hfaulted⟩ := hframe j hj
      exact (h.site j).frame hpte hplace hown hfaulted (hlock j hj) fun f => hkeep j f hj
  · have hsum := sum_univ_add_of_eq_off i (f := fun k => s'.hold k f) (g := fun k => s.hold k f)
      fun j hj => by rw [Smp.hold, Smp.hold, (hframe j hj).1, (hframe j hj).2.1]
    have hold := h.balance f hf
    have hc := hcount f
    omega
  · by_cases hj' : j = i
    · exact hnames f (hj' ▸ hj)
    · rw [Smp.Names, (hframe j hj').1, (hframe j hj').2.1] at hj
      exact h.names j f hj

/-- A step that writes no count and no page of another process. -/
lemma quiet (h : SmpInv s₀ s)
    (hframe : ∀ j, j ≠ i → s'.pte j = s.pte j ∧ s'.place j = s.place j ∧ s'.own j = s.own j ∧
      s'.faulted j = s.faulted j)
    (hlock : ∀ j, j ≠ i → s.lock = some j → s'.lock = some j)
    (hglobal : s'.ref = s.ref ∧ s'.freelist = s.freelist)
    (hpage : ∀ f, ¬ s.Claims i f → s'.page f = s.page f)
    (hhold : ∀ f, s'.hold i f = s.hold i f) (hzero : ∀ f, s.place i ≠ .kfreeZero f)
    (hsite : s'.SiteOk i) (hnames : ∀ f, s'.Names i f → s.Names i f) : SmpInv s₀ s' := by
  obtain ⟨href, hfree⟩ := hglobal
  refine h.moved hframe hlock (fun f => by rw [href, hhold]) (fun j f hj hf => ⟨?_, ?_⟩) hsite
    (fun f hf => h.names i f (hnames f hf)) (by rw [hfree]; exact h.free) ?_
  · exact hpage f fun hc => hf.ne' (h.sole hc hj)
  · rw [href]
    exact id
  · intro f hf hz
    rw [href] at hz
    rw [hfree]
    refine (h.listed f hf hz).imp_right fun ⟨k, hk⟩ => ⟨k, ?_⟩
    have hki : k ≠ i := fun e => hzero f (e ▸ hk)
    rw [(hframe k hki).2.1, hk]

end SmpInv

lemma Smp.Start.inv (h : s₀.Start) : SmpInv s₀ s₀ := by
  have hhold : ∀ i f, s₀.hold i f = if (s₀.pte i).map Prod.fst = some f then 1 else 0 := by
    intro i f
    simp [hold, held, h.place i, SmpPlace.debt, SmpPlace.spare]
  have hmaps : ∀ i f, (s₀.pte i).map Prod.fst = some f → 0 < s₀.count f := fun i f hi =>
    card_pos.mpr ⟨i, mem_filter.mpr ⟨mem_univ i, hi⟩⟩
  refine ⟨fun i => ⟨?_, ?_, ?_, ?_, ?_, ?_⟩, fun f hf => ?_, fun i f hi => ?_, fun f hf => .inl hf,
    fun f hf hz => ?_⟩
  · simp [h.place i, SmpPlace.source]
  · simp [h.place i, SmpPlace.locked]
  · rintro f (⟨he, -⟩ | hc)
    · exact h.writable i f he
    · simp [h.place i, SmpPlace.claim] at hc
  · exact fun f w he _ => h.own i f w he
  · simp [h.place i]
  · simp [h.faulted i]
  · rw [h.ref f hf, count, card_filter]
    exact sum_congr rfl fun i _ => (hhold i f).symm
  · rcases hi with he | hc
    · exact .inr (hmaps i f he)
    · simp [h.place i, SmpPlace.spare] at hc
  · have href := h.ref f hf
    refine .inl (hf.resolve_right ?_)
    omega

/-! ### One step -/

omit [Fintype ι] in
lemma Smp.goOn_frame (s : Smp ι V) (c : SmpPlace) (hj : j ≠ i) :
    (s.goOn i c).pte j = s.pte j ∧ (s.goOn i c).place j = s.place j ∧
      (s.goOn i c).own j = s.own j ∧ (s.goOn i c).faulted j = s.faulted j :=
  ⟨rfl, Function.update_of_ne hj _ _, rfl, rfl⟩

omit [Fintype ι] in
lemma Smp.goOn_place_self (s : Smp ι V) (i : ι) (c : SmpPlace) : (s.goOn i c).place i = c :=
  Function.update_self _ _ _

omit [Fintype ι] [DecidableEq ι] in
lemma Smp.decr_eq_some (h : s.decr f = some s') : 0 < s.ref f ∧ s' = s.setRef f (s.ref f - 1) := by
  rw [decr] at h
  by_cases hz : s.ref f = 0
  · simp [hz] at h
  · rw [if_neg hz] at h
    exact ⟨Nat.pos_of_ne_zero hz, (Option.some.inj h).symm⟩

namespace SmpInv

/-- A step to another place, before the fault is resolved. -/
lemma goOn (h : SmpInv s₀ s) (hdebt : c.debt = (s.place i).debt)
    (hspare : c.spare = (s.place i).spare) (hsource : c.source = (s.place i).source)
    (hlocked : c.locked = (s.place i).locked) (hclaim : ∀ f, c.claim = some f → s.ref f = 1)
    (hcopy : ∀ f m, c ≠ .writePte f m) (hresolved : c.resolved = false)
    (hzero : ∀ f, s.place i ≠ .kfreeZero f) : SmpInv s₀ (s.goOn i c) := by
  have hself := s.goOn_place_self i c
  have hi := h.site i
  refine h.quiet (fun j hj => s.goOn_frame c hj) (fun _ _ hl => hl) ⟨rfl, rfl⟩ (fun _ _ => rfl)
    (fun f => ?_) hzero ⟨?_, ?_, ?_, ?_, ?_, ?_⟩ (fun f hf => ?_)
  · rw [Smp.hold, Smp.hold, hself, held, held, hdebt, hspare]
    rfl
  · rw [hself, hsource]
    exact hi.source
  · rw [hself, hlocked]
    exact hi.lock
  · intro f hf
    rw [Smp.Claims, hself, hdebt] at hf
    rcases hf with hf | hf
    · exact hi.claim f (.inl hf)
    · exact hclaim f hf
  · rw [hself, hdebt]
    exact hi.entry
  · intro f m hp
    rw [hself] at hp
    exact absurd hp (hcopy f m)
  · rw [hself, hresolved]
    exact fun _ hr => absurd hr (by simp)
  · rw [Smp.Names, hself, hspare] at hf
    exact hf

/-- A process that maps a page and whose entry is counted contributes to its count. -/
lemma ref_pos (h : SmpInv s₀ s) (hsource : (s.place i).source = some f)
    (hdebt : (s.place i).debt = false) : 0 < s.ref f := by
  have hpos : 0 < s.hold i f := held_pos ((h.site i).source f hsource) hdebt
  have hle := h.hold_le hpos
  omega

variable [Inhabited V]

lemma getRefc (h : SmpInv s₀ s) (hp : s.place i = .getRefc f)
    (hs : s.next i (s.place i) = some s') : SmpInv s₀ s' := by
  have hpos := h.ref_pos (i := i) (f := f) (by rw [hp]; rfl) (by rw [hp]; rfl)
  rw [hp, Smp.next] at hs
  by_cases hmany : 1 < s.ref f
  · rw [if_pos hmany] at hs
    obtain rfl := Option.some.inj hs
    exact h.goOn (by rw [hp]; rfl) (by rw [hp]; rfl) (by rw [hp]; rfl) (by rw [hp]; rfl)
      (by simp [SmpPlace.claim]) (by simp) rfl (by simp [hp])
  · rw [if_neg hmany, if_pos (by omega)] at hs
    obtain rfl := Option.some.inj hs
    refine h.goOn (by rw [hp]; rfl) (by rw [hp]; rfl) (by rw [hp]; rfl) (by rw [hp]; rfl)
      (fun g hg => ?_) (by simp) rfl (by simp [hp])
    obtain rfl := Option.some.inj hg
    omega

lemma kfreeTest (h : SmpInv s₀ s) (hp : s.place i = .kfreeTest f)
    (hs : s.next i (s.place i) = some s') : SmpInv s₀ s' := by
  have hpos := h.ref_pos (i := i) (f := f) (by rw [hp]; rfl) (by rw [hp]; rfl)
  rw [hp, Smp.next, if_pos hpos] at hs
  obtain rfl := Option.some.inj hs
  exact h.goOn (by rw [hp]; rfl) (by rw [hp]; rfl) (by rw [hp]; rfl) (by rw [hp]; rfl)
    (by simp [SmpPlace.claim]) (by simp) rfl (by simp [hp])

/-- The copy is made on a page that nobody else uses. -/
lemma memmove (h : SmpInv s₀ s) (hp : s.place i = .memmove f m)
    (hs : s.next i (s.place i) = some s') : SmpInv s₀ s' := by
  rw [hp, Smp.next] at hs
  obtain rfl := Option.some.inj hs
  have hi := h.site i
  have hself : ((s.setPage m (s.page f)).goOn i (.writePte f m)).place i = .writePte f m :=
    Smp.goOn_place_self _ _ _
  have hmine : s.Claims i m := .inr (by rw [hp]; rfl)
  have hsource : (s.pte i).map Prod.fst = some f := hi.source f (by rw [hp]; rfl)
  have hpage : ∀ g, g ≠ m → ((s.setPage m (s.page f)).goOn i (.writePte f m)).page g = s.page g :=
    fun g hg => Function.update_of_ne hg _ _
  have hcopy : ((s.setPage m (s.page f)).goOn i (.writePte f m)).page m = s.page f :=
    Function.update_self _ _ _
  have hown : s.page f = s.own i := by
    obtain ⟨⟨g, w⟩, he, hg⟩ := Option.map_eq_some_iff.mp hsource
    obtain rfl : g = f := hg
    exact hi.entry g w he (by rw [hp]; rfl)
  refine h.quiet (fun j hj => Smp.goOn_frame _ _ hj) (fun _ _ hl => hl) ⟨rfl, rfl⟩
    (fun g hg => hpage g fun e => hg (e ▸ hmine)) (fun g => ?_) (by simp [hp])
    ⟨?_, ?_, ?_, ?_, ?_, ?_⟩ (fun g hg => ?_)
  · rw [Smp.hold, Smp.hold, hself, hp]
    rfl
  · rw [hself]
    rintro g ⟨⟩
    exact hsource
  · rw [hself]
    simp [SmpPlace.locked]
  · intro g hg
    refine hi.claim g ?_
    rw [Smp.Claims, hself] at hg
    rw [Smp.Claims, hp]
    exact hg
  · intro g w he _
    by_cases hg : g = m
    · rw [hg, hcopy]
      exact hown
    · rw [hpage g hg]
      exact hi.entry g w he (by rw [hp]; rfl)
  · intro f' m' hplace
    rw [hself] at hplace
    obtain ⟨rfl, rfl⟩ := SmpPlace.writePte.inj hplace
    rw [hcopy]
    exact hown
  · rw [hself]
    simp [SmpPlace.resolved]
  · rw [Smp.Names, hself] at hg
    rw [Smp.Names, hp]
    exact hg

lemma writePte (h : SmpInv s₀ s) (hp : s.place i = .writePte f m)
    (hs : s.next i (s.place i) = some s') : SmpInv s₀ s' := by
  rw [hp, Smp.next] at hs
  obtain rfl := Option.some.inj hs
  have hi := h.site i
  have hself : ((s.setPte i (some (m, true))).goOn i (.decrRefc f)).place i = .decrRefc f :=
    Smp.goOn_place_self _ _ _
  have hpte : ((s.setPte i (some (m, true))).goOn i (.decrRefc f)).pte i = some (m, true) :=
    Function.update_self _ _ _
  have hsource : (s.pte i).map Prod.fst = some f := hi.source f (by rw [hp]; rfl)
  have hone : s.ref m = 1 := hi.claim m (.inr (by rw [hp]; rfl))
  refine h.quiet (fun j hj => ⟨Function.update_of_ne hj _ _, Function.update_of_ne hj _ _, rfl,
    rfl⟩) (fun _ _ hl => hl) ⟨rfl, rfl⟩ (fun _ _ => rfl) (fun g => ?_) (by simp [hp])
    ⟨?_, ?_, ?_, ?_, ?_, ?_⟩ (fun g hg => ?_)
  · -- the entry and the spare page change places
    rw [Smp.hold, Smp.hold, hself, hpte, hp, held, held, hsource]
    simp [SmpPlace.debt, SmpPlace.spare, Nat.add_comm]
  · rw [hself]
    simp [SmpPlace.source]
  · rw [hself]
    simp [SmpPlace.locked]
  · intro g hg
    rw [Smp.Claims, hself, hpte] at hg
    obtain ⟨he, -⟩ := hg.resolve_right (by simp [SmpPlace.claim])
    obtain ⟨rfl, -⟩ := Prod.mk.inj (Option.some.inj he)
    exact hone
  · intro g w he _
    rw [hpte] at he
    obtain ⟨rfl, -⟩ := Prod.mk.inj (Option.some.inj he)
    exact hi.copy f m hp
  · rw [hself]
    simp
  · intro _ _ g w he
    rw [hpte] at he
    exact (Prod.mk.inj (Option.some.inj he)).2.symm
  · rw [Smp.Names, hself, hpte] at hg
    rw [Smp.Names, hp, hsource]
    exact hg.symm

/-- The entry of a page that nobody else uses is made writable. -/
lemma setW (h : SmpInv s₀ s) (hp : s.place i = .setW f)
    (hs : s.next i (s.place i) = some s') : SmpInv s₀ s' := by
  rw [hp, Smp.next] at hs
  obtain rfl := Option.some.inj hs
  have hi := h.site i
  obtain ⟨⟨g, w⟩, he, hg⟩ := Option.map_eq_some_iff.mp (hi.source f (by rw [hp]; rfl))
  obtain rfl : g = f := hg
  rw [he, Option.map_some]
  have hself : ((s.setPte i (some (g, true))).goOn i .user).place i = .user :=
    Smp.goOn_place_self _ _ _
  have hpte : ((s.setPte i (some (g, true))).goOn i .user).pte i = some (g, true) :=
    Function.update_self _ _ _
  refine h.quiet (fun j hj => ⟨Function.update_of_ne hj _ _, Function.update_of_ne hj _ _, rfl,
    rfl⟩) (fun _ _ hl => hl) ⟨rfl, rfl⟩ (fun _ _ => rfl) (fun f => ?_) (by simp [hp])
    ⟨?_, ?_, ?_, ?_, ?_, ?_⟩ (fun f hf => ?_)
  · rw [Smp.hold, Smp.hold, hself, hpte, hp, held, held, he]
    rfl
  · rw [hself]
    simp [SmpPlace.source]
  · rw [hself]
    simp [SmpPlace.locked]
  · intro f hf
    rw [Smp.Claims, hself, hpte] at hf
    obtain ⟨hf, -⟩ := hf.resolve_right (by simp [SmpPlace.claim])
    obtain ⟨rfl, -⟩ := Prod.mk.inj (Option.some.inj hf)
    exact hi.claim g (.inr (by rw [hp]; rfl))
  · intro f w' hf _
    rw [hpte] at hf
    obtain ⟨rfl, -⟩ := Prod.mk.inj (Option.some.inj hf)
    exact hi.entry g w he (by rw [hp]; rfl)
  · rw [hself]
    simp
  · intro _ _ f w' hf
    rw [hpte] at hf
    exact (Prod.mk.inj (Option.some.inj hf)).2.symm
  · rw [Smp.Names, hself, hpte] at hf
    rw [Smp.Names, he]
    exact .inl (hf.resolve_right (by simp [SmpPlace.spare]))

lemma clearPte (h : SmpInv s₀ s) (hp : s.place i = .clearPte f)
    (hs : s.next i (s.place i) = some s') : SmpInv s₀ s' := by
  rw [hp, Smp.next] at hs
  obtain rfl := Option.some.inj hs
  have hself : ((s.setPte i none).goOn i .user).place i = .user := Smp.goOn_place_self _ _ _
  have hpte : ((s.setPte i none).goOn i .user).pte i = none := Function.update_self _ _ _
  refine h.quiet (fun j hj => ⟨Function.update_of_ne hj _ _, Function.update_of_ne hj _ _, rfl,
    rfl⟩) (fun _ _ hl => hl) ⟨rfl, rfl⟩ (fun _ _ => rfl) (fun g => ?_) (by simp [hp])
    ⟨?_, ?_, ?_, ?_, ?_, ?_⟩ (fun g hg => ?_)
  · rw [Smp.hold, Smp.hold, hself, hpte, hp, held, held]
    simp [SmpPlace.debt, SmpPlace.spare]
  · simp [hself, SmpPlace.source]
  · simp [hself, SmpPlace.locked]
  · simp [Smp.Claims, hself, hpte, SmpPlace.claim]
  · simp [hpte]
  · simp [hself]
  · simp [hpte]
  · simp [Smp.Names, hself, hpte, SmpPlace.spare] at hg

/-! ### The steps that change a count -/

/-- `kalloc` takes a page that nobody uses. -/
lemma kalloc (h : SmpInv s₀ s) (hp : s.place i = .kalloc f)
    (hs : s.next i (s.place i) = some s') : SmpInv s₀ s' := by
  rw [hp, Smp.next] at hs
  obtain ⟨⟨m, s₁⟩, halloc, hs⟩ := Option.map_eq_some_iff.mp hs
  obtain ⟨fs, hfs, hzero, rfl⟩ : ∃ fs, s.freelist = m :: fs ∧ s.ref m = 0 ∧
      s₁ = ({ s with freelist := fs }).setRef m 1 := by
    rw [Smp.alloc] at halloc
    by_cases hl : s.lock = none
    · rw [if_pos hl] at halloc
      cases hfs : s.freelist with
      | nil => simp [hfs] at halloc
      | cons m' fs =>
        rw [hfs] at halloc
        by_cases hz : s.ref m' = 0
        · simp only [if_pos hz, Option.some.injEq, Prod.mk.injEq] at halloc
          obtain ⟨rfl, rfl⟩ := halloc
          exact ⟨fs, rfl, hz, rfl⟩
        · simp [hz] at halloc
    · simp [hl] at halloc
  subst hs
  have hi := h.site i
  have hself : ((({ s with freelist := fs }).setRef m 1).goOn i (.memmove f m)).place i =
    .memmove f m := Smp.goOn_place_self _ _ _
  have href : ∀ g, ((({ s with freelist := fs }).setRef m 1).goOn i (.memmove f m)).ref g =
      if g = m then 1 else s.ref g := fun g => Function.update_apply _ _ _ _
  -- a page that is counted is not the new one
  have hne : ∀ j g, 0 < s.hold j g → g ≠ m := by
    rintro j g hpos rfl
    have hle := h.hold_le hpos
    omega
  refine h.moved (fun j hj => Smp.goOn_frame _ _ hj) (fun _ _ hl => hl) (fun g => ?_)
    (fun j g _ hg => ⟨rfl, fun h1 => by rw [href, if_neg (hne j g hg), h1]⟩)
    ⟨?_, ?_, ?_, ?_, ?_, ?_⟩ (fun g hg => ?_)
    (fun g hg => h.free g (by rw [hfs]; exact List.mem_cons_of_mem m hg)) (fun g hg hz => ?_)
  · rw [href, Smp.hold, Smp.hold, hself, hp, held, held]
    show _ + ((if _ ∧ SmpPlace.debt _ = false then 1 else 0) + if none = some g then 1 else 0) =
      _ + (_ + if some m = some g then 1 else 0)
    by_cases hgm : g = m
    · subst hgm
      simp [hzero, SmpPlace.debt, Smp.goOn, Smp.setRef]
      omega
    · simp [hgm, Ne.symm hgm, SmpPlace.debt, Smp.goOn, Smp.setRef]
  · rw [hself]
    rintro g ⟨⟩
    exact hi.source f (by rw [hp]; rfl)
  · simp [hself, SmpPlace.locked]
  · intro g hg
    rw [href]
    rw [Smp.Claims, hself] at hg
    by_cases hgm : g = m
    · rw [if_pos hgm]
    · rw [if_neg hgm]
      rcases hg with hg | hg
      · exact hi.claim g (.inl ⟨hg.1, by rw [hp]; rfl⟩)
      · exact absurd (Option.some.inj hg).symm hgm
  · exact fun g w he _ => hi.entry g w he (by rw [hp]; rfl)
  · simp [hself]
  · simp [hself, SmpPlace.resolved]
  · rw [Smp.Names, hself] at hg
    rcases hg with hg | hg
    · exact h.names i g (.inl hg)
    · obtain rfl := Option.some.inj hg
      exact h.free m (by rw [hfs]; exact List.mem_cons_self)
  · rw [href] at hz
    have hgm : g ≠ m := by
      rintro rfl
      simp at hz
    rw [if_neg hgm] at hz
    rcases h.listed g hg hz with hmem | ⟨k, hk⟩
    · rw [hfs] at hmem
      exact .inl ((List.mem_cons.mp hmem).resolve_left hgm)
    · have hki : k ≠ i := by
        rintro rfl
        simp [hp] at hk
      exact .inr ⟨k, by rw [(Smp.goOn_frame _ _ hki).2.1]; exact hk⟩

omit [Inhabited V] in
/-- A process that goes on to a place where it is counted once less on page `f`, whose count it
lowers. -/
lemma lowered (h : SmpInv s₀ s) (hpos : 0 < s.ref f) (hc : c.claim = none)
    (hsource : ∀ g, c.source = some g → (s.pte i).map Prod.fst = some g)
    (hlocked : c.locked = true → s.lock = some i)
    (hhold : ∀ g, s.hold i g = held (s.pte i) c g + if g = f then 1 else 0)
    (hentry : c.debt = false → (s.place i).debt = false)
    (hresolved : c.resolved = true → (s.place i).resolved = true)
    (hspare : c.spare = none) (hzero : ∀ g, s.place i ≠ .kfreeZero g)
    (hlisted : s.ref f = 1 → ∃ j, ((s.setRef f (s.ref f - 1)).goOn i c).place j = .kfreeZero f) :
    SmpInv s₀ ((s.setRef f (s.ref f - 1)).goOn i c) := by
  have hi := h.site i
  have hself : ((s.setRef f (s.ref f - 1)).goOn i c).place i = c := Smp.goOn_place_self _ _ _
  have href : ∀ g, ((s.setRef f (s.ref f - 1)).goOn i c).ref g =
      if g = f then s.ref f - 1 else s.ref g := fun g => Function.update_apply _ _ _ _
  have hmine : 0 < s.hold i f := by
    rw [hhold, if_pos rfl]
    omega
  -- a count that is one, of a page that another process uses, is not the one that is lowered
  have hother : ∀ j, j ≠ i → 0 < s.hold j f → s.ref f ≠ 1 := by
    intro j hj hjf hone
    have hle := h.hold_add_le hmine hj
    omega
  refine h.moved (fun j hj => Smp.goOn_frame _ _ hj) (fun _ _ hl => hl) (fun g => ?_)
    (fun j g hj hg => ⟨rfl, fun h1 => ?_⟩) ⟨?_, ?_, ?_, ?_, ?_, ?_⟩ (fun g hg => ?_) h.free
    (fun g hg hz => ?_)
  · have hnew : ((s.setRef f (s.ref f - 1)).goOn i c).hold i g = held (s.pte i) c g := by
      rw [Smp.hold, hself]
      rfl
    rw [href, hnew, hhold]
    split_ifs with hgf
    · rw [hgf]
      omega
    · omega
  · have hgf : g ≠ f := fun e => hother j hj (e ▸ hg) (e ▸ h1)
    rw [href, if_neg hgf, h1]
  · rw [hself]
    exact hsource
  · rw [hself]
    exact hlocked
  · intro g hg
    rw [Smp.Claims, hself, hc] at hg
    obtain ⟨he, hd⟩ := hg.resolve_right (by simp)
    have hpte : s.pte i = some (g, true) := he
    have hg : s.Claims i g := .inl ⟨he, hentry hd⟩
    have hone := hi.claim g hg
    have hgf : g ≠ f := by
      rintro rfl
      have hle := h.hold_le hmine
      have hnew : 0 < held (s.pte i) c g := held_pos (by rw [hpte]; rfl) hd
      rw [hhold, if_pos rfl] at hle
      omega
    rw [href, if_neg hgf, hone]
  · intro g w he hd
    rw [hself] at hd
    exact hi.entry g w he (hentry hd)
  · intro g m hg
    rw [hself] at hg
    rw [hg] at hc
    exact absurd hc (by simp [SmpPlace.claim])
  · rw [hself]
    exact fun hf hr => hi.resolved hf (hresolved hr)
  · rw [Smp.Names, hself, hspare] at hg
    exact h.names i g (.inl (hg.resolve_right (by simp)))
  · rw [href] at hz
    by_cases hgf : g = f
    · rw [hgf]
      rw [if_pos hgf] at hz
      exact .inr (hlisted (by omega))
    · rw [if_neg hgf] at hz
      refine (h.listed g hg hz).imp_right fun ⟨k, hk⟩ => ⟨k, ?_⟩
      have hki : k ≠ i := fun e => hzero g (e ▸ hk)
      rw [(Smp.goOn_frame _ _ hki).2.1]
      exact hk

/-- `CoW_handler` lowers the count of the page that it has copied. -/
lemma decrRefc (h : SmpInv s₀ s) (hp : s.place i = .decrRefc f)
    (hsafe : 2 ≤ s.ref f ∨ ∃ j, s.place j = .kfreeZero f)
    (hs : s.next i (s.place i) = some s') : SmpInv s₀ s' := by
  rw [hp, Smp.next] at hs
  obtain ⟨s₁, hdecr, rfl⟩ := Option.map_eq_some_iff.mp hs
  obtain ⟨hpos, rfl⟩ := Smp.decr_eq_some hdecr
  refine h.lowered hpos rfl (by simp [SmpPlace.source]) (by simp [SmpPlace.locked]) (fun g => ?_)
    (fun _ => by rw [hp]; rfl) (fun _ => by rw [hp]; rfl) rfl (by simp [hp]) (fun hone => ?_)
  · rw [Smp.hold, hp, held, held]
    simp only [SmpPlace.debt, SmpPlace.spare, Option.some.injEq, reduceCtorEq, if_false, add_zero,
      eq_comm (a := f)]
  · obtain ⟨j, hj⟩ := hsafe.resolve_left (by omega)
    have hji : j ≠ i := by
      rintro rfl
      simp [hp] at hj
    exact ⟨j, by rw [(Smp.goOn_frame _ _ hji).2.1]; exact hj⟩

/-- `kfree` lowers the count of a page whose entry is about to be cleared. -/
lemma kfreeDecr (h : SmpInv s₀ s) (hp : s.place i = .kfreeDecr f)
    (hs : s.next i (s.place i) = some s') : SmpInv s₀ s' := by
  rw [hp, Smp.next] at hs
  obtain ⟨s₁, hdecr, rfl⟩ := Option.map_eq_some_iff.mp hs
  obtain ⟨hpos, rfl⟩ := Smp.decr_eq_some hdecr
  have hsource : (s.pte i).map Prod.fst = some f := (h.site i).source f (by rw [hp]; rfl)
  have hlock : s.lock = some i := (h.site i).lock (by rw [hp]; rfl)
  refine h.lowered hpos rfl (fun g hg => ?_) (fun _ => hlock) (fun g => ?_)
    (by simp [SmpPlace.debt]) (by simp [SmpPlace.resolved]) rfl (by simp [hp])
    (fun _ => ⟨i, Smp.goOn_place_self _ _ _⟩)
  · obtain rfl := Option.some.inj hg
    exact hsource
  · rw [Smp.hold, hp, held, held, hsource]
    simp [SmpPlace.debt, SmpPlace.spare, eq_comm]

omit [Inhabited V] in
/-- At the end of `kfree` the lock is released; a page that nobody uses may have been written and
put on the free list. -/
lemma freed (h : SmpInv s₀ s) (hp : s.place i = .kfreeZero f)
    (hpage : ∀ g, 0 < s.ref g → s'.page g = s.page g) (hpte : s'.pte = s.pte)
    (hplace : s'.place = (s.goOn i (.clearPte f)).place) (href : s'.ref = s.ref)
    (hown : s'.own = s.own) (hfaulted : s'.faulted = s.faulted)
    (hfree : ∀ g ∈ s'.freelist, g = f ∨ g ∈ s.freelist)
    (hlisted : ∀ g, s.ref g = 0 → g = f ∨ g ∈ s.freelist → g ∈ s'.freelist) : SmpInv s₀ s' := by
  have hi := h.site i
  have hself : s'.place i = .clearPte f := by rw [hplace, Smp.goOn_place_self]
  have hsource : (s.pte i).map Prod.fst = some f := hi.source f (by rw [hp]; rfl)
  have hlock : s.lock = some i := hi.lock (by rw [hp]; rfl)
  have hmove : ∀ j, j ≠ i → s'.place j = s.place j := fun j hj => by
    rw [hplace, (Smp.goOn_frame s _ hj).2.1]
  refine h.moved (fun j hj => ⟨by rw [hpte], hmove j hj, by rw [hown], by rw [hfaulted]⟩)
    (fun j hj hl => absurd (Option.some.inj (hl.symm.trans hlock)) hj) (fun g => ?_)
    (fun j g _ hg => ⟨hpage g ?_, by rw [href]; exact id⟩) ⟨?_, ?_, ?_, ?_, ?_, ?_⟩
    (fun g hg => ?_) (fun g hg => ?_) (fun g hg hz => ?_)
  · rw [href, Smp.hold, Smp.hold, hself, hpte, hp]
    rfl
  · have hle := h.hold_le hg
    omega
  · rw [hself, hpte]
    rintro g ⟨⟩
    exact hsource
  · simp [hself, SmpPlace.locked]
  · simp [Smp.Claims, hself, SmpPlace.claim, SmpPlace.debt]
  · simp [hself, SmpPlace.debt]
  · simp [hself]
  · simp [hself, SmpPlace.resolved]
  · rw [Smp.Names, hself, hpte] at hg
    exact h.names i g (.inl (hg.resolve_right (by simp [SmpPlace.spare])))
  · rcases hfree g hg with rfl | hg
    · exact h.names i g (.inl hsource)
    · exact h.free g hg
  · rw [href] at hz
    rcases h.listed g hg hz with hmem | ⟨k, hk⟩
    · exact .inl (hlisted g hz (.inr hmem))
    · by_cases hki : k = i
      · rw [hki, hp] at hk
        exact .inl (hlisted g hz (.inl (SmpPlace.kfreeZero.inj hk).symm))
      · exact .inr ⟨k, by rw [hmove k hki, hk]⟩

/-- `kfree` puts a page on the free list that nobody uses. -/
lemma kfreeZero (h : SmpInv s₀ s) (hp : s.place i = .kfreeZero f)
    (hs : s.next i (s.place i) = some s') : SmpInv s₀ s' := by
  rw [hp, Smp.next] at hs
  obtain rfl := Option.some.inj hs
  by_cases hz : s.ref f = 0
  · rw [Smp.push, if_pos hz]
    refine h.freed hp (fun g hg => Function.update_of_ne ?_ _ _) rfl rfl rfl rfl rfl
      (fun g hg => List.mem_cons.mp hg) (fun g _ hg => List.mem_cons.mpr hg)
    rintro rfl
    omega
  · rw [Smp.push, if_neg hz]
    refine h.freed hp (fun _ _ => rfl) rfl rfl rfl rfl rfl (fun _ hg => .inr hg)
      (fun g hg hf => hf.resolve_left ?_)
    rintro rfl
    exact hz hg

/-! ### What a process starts -/

omit [Inhabited V] in
/-- A process outside the kernel writes its page. -/
lemma store (h : SmpInv s₀ s) {v : V} (hp : s.place i = .user) (he : s.pte i = some (f, true)) :
    SmpInv s₀ { s.setPage f v with own := Function.update s.own i v } := by
  have hi := h.site i
  have hmine : s.Claims i f := .inl ⟨he, by rw [hp]; rfl⟩
  refine h.quiet (i := i) (fun j hj => ⟨rfl, rfl, Function.update_of_ne hj _ _, rfl⟩)
    (fun _ _ hl => hl) ⟨rfl, rfl⟩
    (fun g hg => Function.update_of_ne (by rintro rfl; exact hg hmine) _ _) (fun _ => rfl)
    (by simp [hp])
    ⟨hi.source, hi.lock, hi.claim, fun g w hg _ => ?_, ?_, hi.resolved⟩ (fun _ hg => hg)
  · obtain ⟨rfl, -⟩ := Prod.mk.inj (Option.some.inj (he.symm.trans hg))
    show Function.update s.page f v f = Function.update s.own i v i
    rw [Function.update_self, Function.update_self]
  · intro g m hg
    exact absurd (hp.symm.trans hg) (by simp)

omit [Inhabited V] in
lemma fault {w : Bool} (h : SmpInv s₀ s) (hp : s.place i = .user) (he : s.pte i = some (f, w)) :
    SmpInv s₀ { s.goOn i (.getRefc f) with faulted := Function.update s.faulted i true } := by
  have hi := h.site i
  have hself : (s.goOn i (.getRefc f)).place i = .getRefc f := Smp.goOn_place_self _ _ _
  refine h.quiet (i := i)
    (fun j hj => ⟨rfl, (Smp.goOn_frame s _ hj).2.1, rfl, Function.update_of_ne hj _ _⟩)
    (fun _ _ hl => hl) ⟨rfl, rfl⟩ (fun _ _ => rfl) (fun g => ?_) (by simp [hp])
    ⟨?_, ?_, ?_, ?_, ?_, ?_⟩ (fun g hg => ?_)
  · show held (s.pte i) ((s.goOn i (.getRefc f)).place i) g = held (s.pte i) (s.place i) g
    rw [hself, hp]
    rfl
  · show ∀ g, ((s.goOn i (.getRefc f)).place i).source = some g → _
    rw [hself]
    rintro g ⟨⟩
    show (s.pte i).map Prod.fst = some f
    rw [he]
    rfl
  · show ((s.goOn i (.getRefc f)).place i).locked = true → _
    simp [hself, SmpPlace.locked]
  · rintro g (⟨hg, -⟩ | hg)
    · exact hi.claim g (.inl ⟨hg, by rw [hp]; rfl⟩)
    · rw [show _ = SmpPlace.getRefc f from hself] at hg
      simp [SmpPlace.claim] at hg
  · exact fun g w' hg _ => hi.entry g w' hg (by rw [hp]; rfl)
  · intro g m hg
    exact absurd (hself.symm.trans hg) (by simp)
  · show _ → ((s.goOn i (.getRefc f)).place i).resolved = true → _
    simp [hself, SmpPlace.resolved]
  · rcases hg with hg | hg
    · exact .inl hg
    · rw [show _ = SmpPlace.getRefc f from hself] at hg
      simp [SmpPlace.spare] at hg

omit [Inhabited V] in
lemma exit {w : Bool} (h : SmpInv s₀ s) (hp : s.place i = .user) (he : s.pte i = some (f, w))
    (hlock : s.lock = none) : SmpInv s₀ ({ s with lock := some i }.goOn i (.kfreeTest f)) := by
  have hi := h.site i
  have hself : ({ s with lock := some i }.goOn i (.kfreeTest f)).place i = .kfreeTest f :=
    Smp.goOn_place_self _ _ _
  refine h.quiet (i := i) (fun j hj => Smp.goOn_frame { s with lock := some i } _ hj)
    (fun j _ hl => absurd (hl.symm.trans hlock) (by simp)) ⟨rfl, rfl⟩ (fun _ _ => rfl)
    (fun g => ?_) (by simp [hp]) ⟨?_, fun _ => rfl, ?_, ?_, ?_, ?_⟩ (fun g hg => ?_)
  · rw [Smp.hold, Smp.hold, hself, hp]
    rfl
  · rw [hself]
    rintro g ⟨⟩
    show (s.pte i).map Prod.fst = some f
    rw [he]
    rfl
  · intro g hg
    rw [Smp.Claims, hself] at hg
    exact hi.claim g (.inl ⟨(hg.resolve_right (by simp [SmpPlace.claim])).1, by rw [hp]; rfl⟩)
  · exact fun g w' hg _ => hi.entry g w' hg (by rw [hp]; rfl)
  · simp [hself]
  · simp [hself, SmpPlace.resolved]
  · rw [Smp.Names, hself] at hg
    exact .inl (hg.resolve_right (by simp [SmpPlace.spare]))

/-- A step that does not lower a count to zero in `CoW_handler` keeps the invariant. -/
theorem step {op : SmpOp V} (h : SmpInv s₀ s) (hs : s.step (i, op) = some s')
    (hsafe : SmpSafe s (i, op)) : SmpInv s₀ s' := by
  have hcall : ∀ op, (if s.place i = .user then (s.pte i).bind fun e => s.call i e op else none) =
      some s' → ∃ e, s.place i = .user ∧ s.pte i = some e ∧ s.call i e op = some s' := by
    intro op hs
    by_cases hp : s.place i = .user
    · rw [if_pos hp] at hs
      obtain ⟨e, he, hs⟩ := Option.bind_eq_some_iff.mp hs
      exact ⟨e, hp, he, hs⟩
    · rw [if_neg hp] at hs
      exact absurd hs (by simp)
  cases op with
  | next =>
    rw [Smp.step] at hs
    cases hp : s.place i with
    | user =>
      rw [hp, Smp.next] at hs
      exact absurd hs (by simp)
    | getRefc f => exact h.getRefc hp hs
    | kalloc f => exact h.kalloc hp hs
    | memmove f m => exact h.memmove hp hs
    | writePte f m => exact h.writePte hp hs
    | decrRefc f => exact h.decrRefc hp (hsafe f hp) hs
    | setW f => exact h.setW hp hs
    | kfreeTest f => exact h.kfreeTest hp hs
    | kfreeDecr f => exact h.kfreeDecr hp hs
    | kfreeZero f => exact h.kfreeZero hp hs
    | clearPte f => exact h.clearPte hp hs
  | store v =>
    obtain ⟨⟨f, w⟩, hp, he, hs⟩ := hcall _ hs
    cases w with
    | false => exact absurd hs (by simp [Smp.call])
    | true =>
      obtain rfl := Option.some.inj hs
      exact h.store hp he
  | fault =>
    obtain ⟨⟨f, w⟩, hp, he, hs⟩ := hcall _ hs
    cases w with
    | true => exact absurd hs (by simp [Smp.call])
    | false =>
      obtain rfl := Option.some.inj hs
      exact h.fault hp he
  | exit =>
    obtain ⟨⟨f, w⟩, hp, he, hs⟩ := hcall _ hs
    rw [Smp.call] at hs
    by_cases hl : s.lock = none
    · rw [if_pos hl] at hs
      obtain rfl := Option.some.inj hs
      exact h.exit hp he hl
    · rw [if_neg hl] at hs
      exact absurd hs (by simp)

omit [Inhabited V] in
/-- When every process has left the kernel the pages are as wanted. -/
theorem right (h : SmpInv s₀ s) (hp : ∀ i, s.place i = .user) : SharedRight s₀ s := by
  have hhold : ∀ i f, s.hold i f = if (s.pte i).map Prod.fst = some f then 1 else 0 := by
    intro i f
    simp [Smp.hold, held, hp i, SmpPlace.debt, SmpPlace.spare]
  have hcount : ∀ f, 0 < s₀.count f → s.ref f = s.count f := by
    intro f hf
    rw [h.balance f (.inr hf), Smp.count, card_filter]
    exact sum_congr rfl fun i _ => hhold i f
  refine ⟨fun i f w hfault he => ?_, hcount, fun f hf hz => ?_⟩
  · have hi := h.site i
    have hw : w = true := hi.resolved hfault (by rw [hp i]; rfl) f w he
    refine ⟨hw, hi.entry f w he (by rw [hp i]; rfl), fun j hj hmap => ?_⟩
    have hsole := h.sole (.inl ⟨hw ▸ he, by rw [hp i]; rfl⟩) hj
    rw [hhold, if_pos hmap] at hsole
    exact one_ne_zero hsole
  · refine (h.listed f (.inr hf) (by rw [hcount f hf, hz])).resolve_right ?_
    rintro ⟨i, hi⟩
    exact absurd ((hp i).symm.trans hi) (by simp)

end SmpInv

end

/-! ### Every run -/

section
variable {ι V : Type} [DecidableEq ι] [Inhabited V] [Fintype ι]

/-- Faults and exits on any number of CPUs in any order leave the shared pages as they should be,
if no `CoW_handler` lowers the count of its page to zero. -/
theorem sharedRight_of_smpSafe {s₀ s : Smp ι V} (hstart : s₀.Start)
    (h : Reachable (fun k => k = s₀) (Guarded Smp.Step SmpSafe) s)
    (hp : ∀ i, s.place i = .user) : SharedRight s₀ s := by
  have hinv : SmpInv s₀ s := h.invariant (I := fun k => SmpInv s₀ k)
    (by rintro k rfl; exact hstart.inv) fun k l k' hk hstep => hk.step hstep.1 hstep.2
  exact hinv.right hp

instance (s : Smp ι V) : ∀ l, Decidable (SmpSafe s l)
  | (i, .next) =>
      match h : s.place i with
      | .decrRefc f => decidable_of_iff (2 ≤ s.ref f ∨ ∃ j, s.place j = .kfreeZero f)
          ⟨fun hf g hg => SmpPlace.decrRefc.inj (h.symm.trans hg) ▸ hf, fun hf => hf f h⟩
      | .user | .getRefc _ | .kalloc _ | .memmove _ _ | .writePte _ _ | .setW _
      | .kfreeTest _ | .kfreeDecr _ | .kfreeZero _ | .clearPte _ =>
          isTrue fun f hf => by simp [h] at hf
  | (_, .store _) | (_, .fault) | (_, .exit) => isTrue trivial

end

/-- Two processes share page 10; pages 20 and 21 are free. -/
def twoSharers : Smp (Fin 2) ℕ where
  pte := fun _ => some (10, false)
  ref := fun f => if f = 10 then 2 else 0
  freelist := [20, 21]
  lock := none
  page := fun _ => 0
  place := fun _ => .user
  own := fun _ => 0
  faulted := fun _ => false

lemma twoSharers_count (f : ℕ) : twoSharers.count f = if f = 10 then 2 else 0 := by
  show (univ.filter fun _ : Fin 2 => some 10 = some f).card = _
  by_cases hf : f = 10
  · subst hf
    simp
  · simp [hf, Ne.symm hf]

lemma start_twoSharers : twoSharers.Start := by
  refine ⟨fun _ => rfl, fun _ => rfl, fun f _ => (twoSharers_count f).symm, fun i f hf => ?_,
    fun _ _ _ _ => rfl, fun f hf => ?_, by decide⟩
  · exact absurd (Prod.mk.inj (Option.some.inj hf)).2 (by simp)
  · rw [twoSharers_count]
    have hne : f ≠ 10 := by
      rintro rfl
      exact absurd hf (by decide)
    rw [if_neg hne]

/-- The first process copies the page, and the second one takes it over. -/
def copyThenTake : List (Fin 2 × SmpOp ℕ) :=
  [(0, .fault), (0, .next), (0, .next), (0, .next), (0, .next), (0, .next), (1, .fault), (1, .next),
    (1, .next), (0, .store 5), (1, .store 6)]

theorem sharedRight_of_smpSafe_twoSharers : ∃ s : Smp (Fin 2) ℕ,
    Reachable (· = twoSharers) (Guarded Smp.Step SmpSafe) s ∧ (∀ i, s.place i = .user) ∧
      s.pte 0 = some (20, true) ∧ s.pte 1 = some (10, true) ∧ SharedRight twoSharers s := by
  have hrun : ((run (guardedNext Smp.step SmpSafe) twoSharers copyThenTake).any fun s =>
      decide ((∀ i, s.place i = .user) ∧ s.pte 0 = some (20, true) ∧
        s.pte 1 = some (10, true))) = true := by
    decide +kernel
  obtain ⟨s, hs, hall⟩ := (Option.any_eq_true _ _).mp hrun
  have hnext : ∀ (s : Smp (Fin 2) ℕ) l s', guardedNext Smp.step SmpSafe s l = some s' →
      Guarded Smp.Step SmpSafe s l s' := fun _ _ _ h => guardedNext_eq_some.mp h
  have hreach : Reachable (· = twoSharers) (Guarded Smp.Step SmpSafe) s :=
    Reachable.run hnext (.start rfl) hs
  obtain ⟨hp, h₀, h₁⟩ := of_decide_eq_true hall
  exact ⟨s, hreach, hp, h₀, h₁, sharedRight_of_smpSafe start_twoSharers hreach hp⟩

/-- Both processes read the count before one of them lowers it. -/
def bothCopy : List (Fin 2 × SmpOp ℕ) :=
  [(0, .fault), (0, .next), (1, .fault), (1, .next)] ++ List.replicate 4 (0, .next) ++
    List.replicate 4 (1, .next)

/-- The page that both have copied is lost. -/
theorem not_sharedRight : ∃ s : Smp (Fin 2) ℕ, Reachable (· = twoSharers) Smp.Step s ∧
    (∀ i, s.place i = .user) ∧ s.ref 10 = 0 ∧ ¬SharedRight twoSharers s := by
  have hrun : ((run Smp.step twoSharers bothCopy).any fun s =>
      decide ((∀ i, s.place i = .user) ∧ s.ref 10 = 0 ∧ s.count 10 = 0 ∧ 10 ∉ s.freelist)) =
        true := by
    decide +kernel
  obtain ⟨s, hs, hall⟩ := (Option.any_eq_true _ _).mp hrun
  obtain ⟨hp, href, hcount, hfree⟩ := of_decide_eq_true hall
  refine ⟨s, Reachable.run (fun _ _ _ h => h) (.start rfl) hs, hp, href, fun h => ?_⟩
  exact hfree (h.free 10 (by rw [twoSharers_count]; decide) hcount)

end Xv6Projects.Cow
