import Mathlib
import Xv6Projects.Library.Transition
import Xv6Projects.Threads.Table
import Xv6Projects.Vm.Mapping

/-!
# Growing one address space from several threads

`sys_sbrk` and `growproc` read `sz`, map the new pages one by one and store the new `sz` without
a lock, and `thread_create` does the same under `ptable.lock`.  Here a thread can be preempted
between any two statements of `sys_sbrk`, `growproc`, `allocuvm` and `mappages`; there are
always pages.  Calls that do not overlap leave no page mapped twice and hand out disjoint
ranges.
-/

namespace Xv6Projects.Threads

open Library Vm

/-! ### Threads inside sbrk -/

/-- Where a thread stands in `sys_sbrk` with argument `n`; `addr` is what it returns. -/
inductive Place
  /-- Outside. -/
  | user
  /-- In `sys_sbrk`, before `sz` is read for the value it returns. -/
  | sbrk (n : ℕ)
  /-- In `growproc`, before `sz` is read. -/
  | growproc (addr n : ℕ)
  /-- In the loop of `allocuvm`, before page `v`. -/
  | loop (addr n oldsz v : ℕ)
  /-- `kalloc` has returned the memory for page `v`. -/
  | mappages (addr n oldsz v : ℕ)
  /-- `mappages` has seen that page `v` is not present. -/
  | setPte (addr n oldsz v : ℕ)
  /-- `allocuvm` has returned `newsz`. -/
  | storeSz (addr n newsz : ℕ)
deriving DecidableEq, Repr

/-- A range that a call has handed out, and what it has skipped to reach a page boundary. -/
structure Grant where
  addr : ℕ
  size : ℕ
  rounding : ℕ
deriving DecidableEq, Repr

/-- The addresses of the range. -/
def Grant.range (g : Grant) : Set ℕ := Set.Ico g.addr (g.addr + g.size)

/-- What the call adds to `sz`. -/
def Grant.increment (g : Grant) : ℕ := g.rounding + g.size

/-- A process, where its threads stand, whether `mappages` has panicked, the pages in the order
in which they were mapped, and the ranges that were handed out, each with the last one first.  A
thread that does not run stands outside. -/
structure Growth where
  proc : Proc
  place : Tidx → Place
  remap : Bool
  mapped : List ℕ
  grants : List Grant

/-- What a thread does.  `next` is its next statement in `sys_sbrk`. -/
inductive GrowOp
  | sbrk (n : ℕ)
  | next
  /-- `thread_create`, which gets a thread id and a page for the kernel stack. -/
  | threadCreate (tid : ℤ) (page : ℕ)
  | threadExit (v : UInt32)
  /-- `thread_join`, which finds slot `j`. -/
  | threadJoin (j : Tidx)
deriving DecidableEq, Repr

namespace Growth

/-- Thread `i` goes on at place `c`. -/
def goOn (s : Growth) (i : Tidx) (c : Place) : Growth :=
  { s with place := Function.update s.place i c }

/-- The next statement of thread `i`, which stands at a place in `sys_sbrk`. -/
def next (s : Growth) (i : Tidx) : Place → Option Growth
  | .user => none
  | .sbrk n => some (s.goOn i (.growproc s.proc.sz n))
  | .growproc addr n =>
      -- the sum does not overflow, and is not less than `sz`
      if KERNBASE ≤ s.proc.sz + n then some (s.goOn i .user)
      else some (s.goOn i (.loop addr n s.proc.sz (PGROUNDUP s.proc.sz)))
  | .loop addr n oldsz v =>
      if v * PGSIZE < oldsz + n then some (s.goOn i (.mappages addr n oldsz v))
      else some (s.goOn i (.storeSz addr n (oldsz + n)))
  | .mappages addr n oldsz v =>
      if s.proc.pgdir v then some { s with remap := true }
      else some (s.goOn i (.setPte addr n oldsz v))
  | .setPte addr n oldsz v =>
      some { s.goOn i (.loop addr n oldsz (v + 1)) with
        proc := { s.proc with pgdir := Function.update s.proc.pgdir v true }
        mapped := v :: s.mapped }
  | .storeSz addr n newsz =>
      some { s.goOn i .user with
        proc := { s.proc with sz := newsz }
        grants := ⟨addr, n, 0⟩ :: s.grants }

/-- The slot that `allocpth` finds. -/
def slot (s : Growth) : Option Tidx := tidxs.find? fun j => (s.proc.pth j).state = .unused

/-- The start of the page that `alloc_ustack` maps. -/
def stackBase (s : Growth) : ℕ := PGROUNDUP s.proc.sz * PGSIZE

/-- `thread_create` for slot `j`. -/
def create (s : Growth) (tid : ℤ) (page : ℕ) (j : Tidx) : Growth :=
  match (s.proc.allocpth j tid page).allocUstack j 1 with
  | none => { s with remap := true }
  | some (false, y) => { s with proc := y.createFail j }
  | some (true, y) =>
      if s.proc.ustacks j = 0 then
        { s with
          proc := y.createDone j
          mapped := PGROUNDUP s.proc.sz :: s.mapped
          grants := ⟨s.stackBase, PGSIZE, s.stackBase - s.proc.sz⟩ :: s.grants }
      else { s with proc := y.createDone j }

/-- A thread at `user` does something else than go on. -/
def call (s : Growth) (i : Tidx) : GrowOp → Option Growth
  | .sbrk n => if 0 < n ∧ n < 2 ^ 31 then some (s.goOn i (.sbrk n)) else none
  | .next => none
  | .threadCreate tid page => s.slot.map fun j => s.create tid page j
  | .threadExit v => some { s with proc := ({ s.proc with onTidx := i } : Proc).threadExit v }
  | .threadJoin j =>
      if (s.proc.pth j).state = .zombie then some { s with proc := s.proc.joinPth j } else none

/-- Thread `i` performs an operation.  Nothing happens after a panic. -/
def step (s : Growth) (l : Tidx × GrowOp) : Option Growth :=
  if s.remap = false ∧ (s.proc.pth l.1).state.Live then
    if l.2 = .next then s.next l.1 (s.place l.1)
    else if s.place l.1 = .user then s.call l.1 l.2
    else none
  else none

/-- The operation leads from one state to the other. -/
def Step (s : Growth) (l : Tidx × GrowOp) (s' : Growth) : Prop := s.step l = some s'

/-- A process with no thread inside `sys_sbrk`, in which the pages below `sz` are mapped. -/
structure Start (s : Growth) : Prop where
  place : ∀ i, s.place i = .user
  remap : s.remap = false
  mapped : s.mapped = List.range (PGROUNDUP s.proc.sz)
  pgdir : ∀ v, s.proc.pgdir v = decide (v < PGROUNDUP s.proc.sz)
  grants : s.grants = []

end Growth

/-! ### What is wanted -/

/-- No page is mapped twice, the ranges are disjoint, and when all calls have returned, `sz` is
what they have added to its value in `s₀`. -/
structure GrowthRight (s₀ s : Growth) : Prop where
  remap : s.remap = false
  mapped : s.mapped.Nodup
  ranges : s.grants.Pairwise fun g h => Disjoint g.range h.range
  sz : (∀ i, s.place i = .user) → s.proc.sz = s₀.proc.sz + (s.grants.map Grant.increment).sum

/-- A thread at this place has read `sz`, and is going to store a new one. -/
def Place.Growing (sz : ℕ) : Place → Prop
  | .user | .sbrk _ => False
  | .growproc _ n => sz + n < KERNBASE
  | _ => True

instance (sz : ℕ) : DecidablePred (Place.Growing sz) := fun c => by
  cases c <;> dsimp only [Place.Growing] <;> infer_instance

/-- No thread is about to store `sz`. -/
def Growth.Quiet (s : Growth) : Prop := ∀ i, ¬(s.place i).Growing s.proc.sz

/-- The calls do not overlap: `sz` is not read for a call that is going to store it, and no
stack is allocated, while a thread is about to store `sz`; and a stack that is used again is at
the top of the memory. -/
def GrowSafe (s : Growth) : Tidx × GrowOp → Prop
  | (i, .next) => ∀ n, s.place i = .sbrk n → s.proc.sz + n < KERNBASE → s.Quiet
  | (_, .threadCreate _ _) => ∀ j, s.slot = some j →
      (s.proc.ustacks j = 0 → s.stackBase + PGSIZE < KERNBASE → s.Quiet) ∧
      (s.proc.ustacks j ≠ 0 → s.proc.ustacks j = s.proc.sz)
  | _ => True

/-! ### The invariant -/

/-- The mapped pages are those below page `f`. -/
def Below (x : Proc) (f : ℕ) : Prop := ∀ v, x.pgdir v = decide (v < f)

/-- What the only thread that is about to store `sz` knows. -/
def Place.Holds (x : Proc) : Place → Prop
  | .user | .sbrk _ => False
  | .growproc addr _ => addr = x.sz ∧ Below x (PGROUNDUP x.sz)
  | .loop addr n oldsz v => addr = x.sz ∧ oldsz = x.sz ∧ v ≤ PGROUNDUP (x.sz + n) ∧ Below x v
  | .mappages addr n oldsz v | .setPte addr n oldsz v =>
      addr = x.sz ∧ oldsz = x.sz ∧ v * PGSIZE < x.sz + n ∧ Below x v
  | .storeSz addr n newsz => addr = x.sz ∧ newsz = x.sz + n ∧ Below x (PGROUNDUP newsz)

/-- At most one thread is about to store `sz`, and the mapped pages are where it stands. -/
structure Tidy (s : Growth) : Prop where
  quiet : s.Quiet → Below s.proc (PGROUNDUP s.proc.sz)
  holds : ∀ i, (s.place i).Growing s.proc.sz → (s.place i).Holds s.proc
  alone : ∀ i j, (s.place i).Growing s.proc.sz → (s.place j).Growing s.proc.sz → i = j

/-- The pages and the ranges are accounted for. -/
structure Ledger (s₀ s : Growth) : Prop where
  remap : s.remap = false
  mem : ∀ v, v ∈ s.mapped ↔ s.proc.pgdir v = true
  nodup : s.mapped.Nodup
  below : ∀ g ∈ s.grants, g.addr + g.size ≤ s.proc.sz
  ranges : s.grants.Pairwise fun g h => Disjoint g.range h.range
  sz : s.proc.sz = s₀.proc.sz + (s.grants.map Grant.increment).sum

/-- The invariant. -/
structure GrowInv (s₀ s : Growth) : Prop where
  tidy : Tidy s
  ledger : Ledger s₀ s

section
variable {s₀ s s' : Growth} {i : Tidx} {c : Place}

lemma goOn_place (s : Growth) (i j : Tidx) (c : Place) :
    (s.goOn i c).place j = if j = i then c else s.place j :=
  Function.update_apply _ _ _ _

/-- The places and the memory are the same. -/
lemma Tidy.congr (h : Tidy s) (hplace : s'.place = s.place) (hsz : s'.proc.sz = s.proc.sz)
    (hpgdir : s'.proc.pgdir = s.proc.pgdir) : Tidy s' := by
  have hbelow : ∀ f, Below s'.proc f ↔ Below s.proc f := fun f => by
    rw [Below, Below, hpgdir]
  have hholds : ∀ c : Place, c.Holds s'.proc ↔ c.Holds s.proc := fun c => by
    cases c <;> simp only [Place.Holds, hsz, hbelow]
  constructor
  · intro hq
    rw [hbelow, hsz]
    refine h.quiet fun i => ?_
    have hi := hq i
    rwa [hplace, hsz] at hi
  · intro i hi
    rw [hplace, hsz] at hi
    rw [hplace, hholds]
    exact h.holds i hi
  · intro i j hi hj
    rw [hplace, hsz] at hi hj
    exact h.alone i j hi hj

/-- A thread that is not going to store `sz` moves. -/
lemma Tidy.move (h : Tidy s) (hi : ¬(s.place i).Growing s.proc.sz)
    (hc : ¬c.Growing s.proc.sz) : Tidy (s.goOn i c) := by
  have hsame : ∀ j, ((s.goOn i c).place j).Growing s.proc.sz →
      j ≠ i ∧ (s.place j).Growing s.proc.sz := by
    intro j hj
    rw [goOn_place] at hj
    split_ifs at hj with hji
    · exact absurd hj hc
    · exact ⟨hji, hj⟩
  constructor
  · intro hq
    refine h.quiet fun j hj => ?_
    refine hq j ?_
    rw [goOn_place, if_neg]
    · exact hj
    · rintro rfl
      exact hi hj
  · intro j hj
    obtain ⟨hji, hg⟩ := hsame j hj
    rw [goOn_place, if_neg hji]
    exact h.holds j hg
  · intro j l hj hl
    exact h.alone j l (hsame j hj).2 (hsame l hl).2

/-- The other threads are not going to store `sz`, and thread `i` is. -/
lemma tidy_owner (hplace : s'.place = Function.update s.place i c)
    (hothers : ∀ j, j ≠ i → ¬(s.place j).Growing s'.proc.sz) (hc : c.Growing s'.proc.sz)
    (hh : c.Holds s'.proc) : Tidy s' := by
  have hp : ∀ j, s'.place j = if j = i then c else s.place j := fun j => by
    rw [hplace]
    exact Function.update_apply _ _ _ _
  have honly : ∀ j, (s'.place j).Growing s'.proc.sz → j = i := by
    intro j hj
    by_contra hji
    rw [hp, if_neg hji] at hj
    exact hothers j hji hj
  constructor
  · intro hq
    refine absurd hc ?_
    have hi := hq i
    rwa [hp, if_pos rfl] at hi
  · intro j hj
    rw [hp, if_pos (honly j hj)]
    exact hh
  · intro j l hj hl
    rw [honly j hj, honly l hl]

/-- No thread is going to store `sz`, which is larger than before. -/
lemma tidy_done (hplace : ∀ j, s'.place j = .user ∨ s'.place j = s.place j ∧
    ¬(s.place j).Growing s.proc.sz) (hsz : s.proc.sz ≤ s'.proc.sz)
    (hbelow : Below s'.proc (PGROUNDUP s'.proc.sz)) : Tidy s' := by
  have hquiet : s'.Quiet := by
    intro j hj
    rcases hplace j with hu | ⟨he, hn⟩
    · rw [hu] at hj
      exact hj
    · rw [he] at hj
      refine hn ?_
      cases hc : s.place j with
      | growproc addr n =>
        rw [hc] at hj
        exact lt_of_le_of_lt (Nat.add_le_add_right hsz n) hj
      | user | sbrk =>
        rw [hc] at hj
        exact hj
      | _ => trivial
  exact ⟨fun _ => hbelow, fun j hj => absurd hj (hquiet j), fun j _ hj _ => absurd hj (hquiet j)⟩

lemma Ledger.congr (h : Ledger s₀ s) (hremap : s'.remap = s.remap) (hmapped : s'.mapped = s.mapped)
    (hgrants : s'.grants = s.grants) (hsz : s'.proc.sz = s.proc.sz)
    (hpgdir : s'.proc.pgdir = s.proc.pgdir) : Ledger s₀ s' := by
  refine ⟨hremap.trans h.remap, fun v => ?_, ?_, fun g hg => ?_, ?_, ?_⟩
  · rw [hmapped, hpgdir]
    exact h.mem v
  · rw [hmapped]
    exact h.nodup
  · rw [hgrants] at hg
    rw [hsz]
    exact h.below g hg
  · rw [hgrants]
    exact h.ranges
  · rw [hsz, hgrants]
    exact h.sz

/-- Page `v`, which is not mapped, is mapped. -/
lemma Ledger.map (h : Ledger s₀ s) {v : ℕ} (hv : s.proc.pgdir v = false)
    (hremap : s'.remap = s.remap) (hmapped : s'.mapped = v :: s.mapped)
    (hgrants : s'.grants = s.grants) (hsz : s'.proc.sz = s.proc.sz)
    (hpgdir : s'.proc.pgdir = Function.update s.proc.pgdir v true) : Ledger s₀ s' := by
  refine ⟨hremap.trans h.remap, fun w => ?_, ?_, fun g hg => ?_, ?_, ?_⟩
  · rw [hmapped, hpgdir, List.mem_cons, Function.update_apply, h.mem w]
    split_ifs with hw
    · simp [hw]
    · simp [hw]
  · rw [hmapped, List.nodup_cons]
    refine ⟨fun hmem => ?_, h.nodup⟩
    rw [h.mem v, hv] at hmem
    exact absurd hmem (by simp)
  · rw [hgrants] at hg
    rw [hsz]
    exact h.below g hg
  · rw [hgrants]
    exact h.ranges
  · rw [hsz, hgrants]
    exact h.sz

/-- A range from `sz` on, or from the next page boundary on, is handed out. -/
lemma Ledger.grant (h : Ledger s₀ s) {g : Grant} (hg : g.addr = s.proc.sz + g.rounding)
    (hremap : s'.remap = s.remap) (hmapped : s'.mapped = s.mapped)
    (hgrants : s'.grants = g :: s.grants) (hsz : s'.proc.sz = s.proc.sz + g.increment)
    (hpgdir : s'.proc.pgdir = s.proc.pgdir) : Ledger s₀ s' := by
  rw [Grant.increment] at hsz
  refine ⟨hremap.trans h.remap, fun v => ?_, ?_, fun g' hg' => ?_, ?_, ?_⟩
  · rw [hmapped, hpgdir]
    exact h.mem v
  · rw [hmapped]
    exact h.nodup
  · rw [hgrants, List.mem_cons] at hg'
    rcases hg' with rfl | hg'
    · omega
    · have hle := h.below g' hg'
      omega
  · rw [hgrants, List.pairwise_cons]
    refine ⟨fun g' hg' => ?_, h.ranges⟩
    have hle := h.below g' hg'
    rw [Grant.range, Grant.range, Set.disjoint_left]
    rintro a ⟨ha, -⟩ ⟨-, ha'⟩
    omega
  · rw [hgrants, List.map_cons, List.sum_cons, Grant.increment, hsz, h.sz]
    omega

/-! ### The statements of `sys_sbrk` -/

lemma Below.update {x y : Proc} {v : ℕ} (h : Below x v)
    (hpgdir : y.pgdir = Function.update x.pgdir v true) : Below y (v + 1) := by
  intro w
  rw [hpgdir, Function.update_apply]
  split_ifs with hw
  · simp [hw]
  · rw [h w]
    exact decide_eq_decide.mpr (by omega)

lemma PGROUNDUP_le_of_le_mul {a v : ℕ} (h : a ≤ v * PGSIZE) : PGROUNDUP a ≤ v := by
  have hpos : 0 < PGSIZE := by decide
  rw [PGROUNDUP, Nat.div_le_iff_le_mul_add_pred hpos, Nat.mul_comm]
  omega

lemma lt_PGROUNDUP_of_mul_lt {a v : ℕ} (h : v * PGSIZE < a) : v + 1 ≤ PGROUNDUP a := by
  have hpos : 0 < PGSIZE := by decide
  rw [PGROUNDUP, Nat.le_div_iff_mul_le hpos, Nat.add_mul]
  omega

/-- The invariant is kept by the next statement of a thread. -/
lemma GrowInv.next (h : GrowInv s₀ s) (hsafe : GrowSafe s (i, .next))
    (hs : s.next i (s.place i) = some s') : GrowInv s₀ s' := by
  have hothers : (s.place i).Growing s.proc.sz →
      ∀ j, j ≠ i → ¬(s.place j).Growing s.proc.sz := fun hg j hji hj =>
    hji (h.tidy.alone j i hj hg)
  cases hc : s.place i with
  | user =>
    rw [hc] at hs
    exact absurd hs (by simp [Growth.next])
  | sbrk n =>
    rw [hc] at hs
    obtain rfl := Option.some.inj hs
    refine ⟨?_, h.ledger.congr rfl rfl rfl rfl rfl⟩
    -- a call that does not fit will change nothing
    by_cases hlt : s.proc.sz + n < KERNBASE
    · have hq := hsafe n hc hlt
      exact tidy_owner rfl (fun j _ => hq j) hlt ⟨rfl, h.tidy.quiet hq⟩
    · refine h.tidy.move ?_ hlt
      rw [hc]
      exact fun hf => hf
  | growproc addr n =>
    rw [hc] at hs
    rw [Growth.next] at hs
    split_ifs at hs with hlt
    · obtain rfl := Option.some.inj hs
      refine ⟨h.tidy.move ?_ (fun hf => hf), h.ledger.congr rfl rfl rfl rfl rfl⟩
      rw [hc]
      exact not_lt.mpr hlt
    · obtain rfl := Option.some.inj hs
      have hg : (s.place i).Growing s.proc.sz := by
        rw [hc]
        exact not_le.mp hlt
      have hh := h.tidy.holds i hg
      rw [hc] at hh
      exact ⟨tidy_owner rfl (hothers hg) trivial
        ⟨hh.1, rfl, PGROUNDUP_mono (Nat.le_add_right _ _), hh.2⟩,
        h.ledger.congr rfl rfl rfl rfl rfl⟩
  | loop addr n oldsz v =>
    have hg : (s.place i).Growing s.proc.sz := by
      rw [hc]
      trivial
    have hh := h.tidy.holds i hg
    rw [hc] at hs hh
    obtain ⟨haddr, rfl, hv, hbelow⟩ := hh
    rw [Growth.next] at hs
    split_ifs at hs with hlt
    · obtain rfl := Option.some.inj hs
      exact ⟨tidy_owner rfl (hothers hg) trivial ⟨haddr, rfl, hlt, hbelow⟩,
        h.ledger.congr rfl rfl rfl rfl rfl⟩
    · obtain rfl := Option.some.inj hs
      -- the loop ends at the page after the last byte
      have hend : PGROUNDUP (s.proc.sz + n) = v :=
        le_antisymm (PGROUNDUP_le_of_le_mul (not_lt.mp hlt)) hv
      refine ⟨tidy_owner rfl (hothers hg) trivial ⟨haddr, rfl, ?_⟩,
        h.ledger.congr rfl rfl rfl rfl rfl⟩
      rw [hend]
      exact hbelow
  | mappages addr n oldsz v =>
    have hg : (s.place i).Growing s.proc.sz := by
      rw [hc]
      trivial
    have hh := h.tidy.holds i hg
    rw [hc] at hs hh
    -- no other call has mapped the page since this one began
    have hfree : s.proc.pgdir v = false := by
      rw [hh.2.2.2 v]
      simp
    rw [Growth.next, hfree] at hs
    obtain rfl := Option.some.inj hs
    exact ⟨tidy_owner rfl (hothers hg) trivial hh, h.ledger.congr rfl rfl rfl rfl rfl⟩
  | setPte addr n oldsz v =>
    have hg : (s.place i).Growing s.proc.sz := by
      rw [hc]
      trivial
    have hh := h.tidy.holds i hg
    rw [hc] at hs hh
    obtain ⟨haddr, rfl, hlt, hbelow⟩ := hh
    have hfree : s.proc.pgdir v = false := by
      rw [hbelow v]
      simp
    obtain rfl := Option.some.inj hs
    exact ⟨tidy_owner rfl (hothers hg) trivial
      ⟨haddr, rfl, lt_PGROUNDUP_of_mul_lt hlt, hbelow.update rfl⟩,
      h.ledger.map hfree rfl rfl rfl rfl rfl⟩
  | storeSz addr n newsz =>
    have hg : (s.place i).Growing s.proc.sz := by
      rw [hc]
      trivial
    have hh := h.tidy.holds i hg
    rw [hc] at hs hh
    obtain ⟨haddr, rfl, hbelow⟩ := hh
    obtain rfl := Option.some.inj hs
    refine ⟨tidy_done (fun j => ?_) (Nat.le_add_right _ _) hbelow,
      h.ledger.grant (g := ⟨addr, n, 0⟩) haddr rfl rfl rfl ?_ rfl⟩
    · rw [goOn_place]
      split_ifs with hji
      · exact Or.inl rfl
      · exact Or.inr ⟨rfl, hothers hg j hji⟩
    · rw [Grant.increment, Nat.zero_add]

/-! ### The other operations -/

/-- `allocuvm` for one page, which can be had. -/
lemma allocuvm_page (pgdir : ℕ → Bool) (v : ℕ) :
    allocuvm pgdir (v * PGSIZE) (v * PGSIZE + PGSIZE) 1 =
      if KERNBASE ≤ v * PGSIZE + PGSIZE then some (none, pgdir)
      else if pgdir v then none
      else some (some (v * PGSIZE + PGSIZE), Function.update pgdir v true) := by
  have hlt : ¬v * PGSIZE + PGSIZE < v * PGSIZE := by omega
  have hone : v + 1 - v = 0 + 1 := by omega
  rw [allocuvm, if_neg hlt, PGROUNDUP_mul, PGROUNDUP_mul_add, hone, allocLoop]
  split_ifs with hfull hv
  · rfl
  · rfl
  · rw [allocLoop]
    rfl

/-- `alloc_ustack` maps the page above the memory. -/
lemma Growth.allocUstack_new (s : Growth) (tid : ℤ) (page : ℕ) {j : Tidx}
    (hu : s.proc.ustacks j = 0) : (s.proc.allocpth j tid page).allocUstack j 1 =
      (allocuvm s.proc.pgdir s.stackBase (s.stackBase + PGSIZE) 1).map fun r =>
        match r.1 with
        | none => (false, { s.proc.allocpth j tid page with pgdir := r.2 })
        | some sz => (true, { s.proc.allocpth j tid page with
            pgdir := r.2, ustacks := Function.update s.proc.ustacks j sz, sz := sz }) := by
  rw [Proc.allocUstack]
  exact if_pos hu

/-- The stack does not fit below `KERNBASE`. -/
lemma Growth.create_full (s : Growth) {tid : ℤ} {page : ℕ} {j : Tidx}
    (hu : s.proc.ustacks j = 0) (hfull : KERNBASE ≤ s.stackBase + PGSIZE) :
    s.create tid page j = { s with proc := (s.proc.allocpth j tid page).createFail j } := by
  have hx := s.allocUstack_new tid page hu
  rw [Growth.stackBase, allocuvm_page, ← Growth.stackBase, if_pos hfull] at hx
  rw [Growth.create, hx]
  rfl

/-- The stack is a new page. -/
lemma Growth.create_new (s : Growth) {tid : ℤ} {page : ℕ} {j : Tidx}
    (hu : s.proc.ustacks j = 0) (hfull : ¬KERNBASE ≤ s.stackBase + PGSIZE)
    (hfree : s.proc.pgdir (PGROUNDUP s.proc.sz) = false) :
    s.create tid page j = { s with
      proc := ({ s.proc.allocpth j tid page with
        pgdir := Function.update s.proc.pgdir (PGROUNDUP s.proc.sz) true
        ustacks := Function.update s.proc.ustacks j (s.stackBase + PGSIZE)
        sz := s.stackBase + PGSIZE } : Proc).createDone j
      mapped := PGROUNDUP s.proc.sz :: s.mapped
      grants := ⟨s.stackBase, PGSIZE, s.stackBase - s.proc.sz⟩ :: s.grants } := by
  have hx := s.allocUstack_new tid page hu
  rw [Growth.stackBase, allocuvm_page, ← Growth.stackBase, if_neg hfull, hfree,
    if_neg Bool.false_ne_true] at hx
  rw [Growth.create, hx]
  dsimp only [Option.map_some]
  rw [if_pos hu]

/-- The stack of an earlier thread is used again. -/
lemma Growth.create_old (s : Growth) {tid : ℤ} {page : ℕ} {j : Tidx}
    (hu : s.proc.ustacks j ≠ 0) :
    s.create tid page j = { s with proc := (s.proc.allocpth j tid page).createDone j } := by
  have hx : (s.proc.allocpth j tid page).allocUstack j 1 =
      some (true, s.proc.allocpth j tid page) := by
    rw [Proc.allocUstack]
    exact if_neg hu
  rw [Growth.create, hx]
  dsimp only
  rw [if_neg hu]

lemma Growth.sz_le_stackBase (s : Growth) : s.proc.sz ≤ s.stackBase := by
  have hpos : 0 < PGSIZE := by decide
  have hlt : s.proc.sz + PGSIZE - 1 < (PGROUNDUP s.proc.sz + 1) * PGSIZE :=
    (Nat.div_lt_iff_lt_mul hpos).mp (Nat.lt_succ_self _)
  rw [Nat.succ_mul] at hlt
  rw [Growth.stackBase]
  omega

/-- `thread_create` keeps the invariant. -/
lemma GrowInv.create (h : GrowInv s₀ s) {tid : ℤ} {page : ℕ} {j : Tidx}
    (hnew : s.proc.ustacks j = 0 → s.stackBase + PGSIZE < KERNBASE → s.Quiet)
    (hold : s.proc.ustacks j ≠ 0 → s.proc.ustacks j = s.proc.sz) :
    GrowInv s₀ (s.create tid page j) := by
  by_cases hu : s.proc.ustacks j = 0
  · by_cases hfull : KERNBASE ≤ s.stackBase + PGSIZE
    · have hsz : ((s.proc.allocpth j tid page).createFail j).sz = s.proc.sz := rfl
      have hpgdir : ((s.proc.allocpth j tid page).createFail j).pgdir = s.proc.pgdir := rfl
      rw [s.create_full hu hfull]
      exact ⟨h.tidy.congr rfl hsz hpgdir, h.ledger.congr rfl rfl rfl hsz hpgdir⟩
    · have hq := hnew hu (not_le.mp hfull)
      have hbelow := h.tidy.quiet hq
      have hfree : s.proc.pgdir (PGROUNDUP s.proc.sz) = false := by
        rw [hbelow]
        simp
      rw [s.create_new hu hfull hfree]
      set pgdir := Function.update s.proc.pgdir (PGROUNDUP s.proc.sz) true with hpgdir
      have hmap : Ledger s₀ { s with
          proc := { s.proc with pgdir := pgdir }, mapped := PGROUNDUP s.proc.sz :: s.mapped } :=
        h.ledger.map hfree rfl rfl rfl rfl rfl
      set z : Proc := { s.proc.allocpth j tid page with
        pgdir := pgdir
        ustacks := Function.update s.proc.ustacks j (s.stackBase + PGSIZE)
        sz := s.stackBase + PGSIZE } with hz
      have htop : (z.createDone j).sz = s.stackBase + PGSIZE := Function.update_self _ _ _
      have hle := s.sz_le_stackBase
      refine ⟨tidy_done (s := s) (fun l => Or.inr ⟨rfl, hq l⟩) ?_ ?_,
        hmap.grant (g := ⟨s.stackBase, PGSIZE, s.stackBase - s.proc.sz⟩) ?_ rfl rfl rfl ?_ rfl⟩
      · rw [htop]
        omega
      · rw [htop, Growth.stackBase, PGROUNDUP_mul_add]
        exact hbelow.update rfl
      · exact (Nat.add_sub_cancel' hle).symm
      · rw [htop, Grant.increment]
        exact (by omega : s.stackBase + PGSIZE =
          s.proc.sz + (s.stackBase - s.proc.sz + PGSIZE))
  · have hsz : ((s.proc.allocpth j tid page).createDone j).sz = s.proc.sz := hold hu
    rw [s.create_old hu]
    exact ⟨h.tidy.congr rfl hsz rfl, h.ledger.congr rfl rfl rfl hsz rfl⟩

/-- The invariant is kept by a step that does not overlap with another call. -/
lemma GrowInv.step (h : GrowInv s₀ s) {l : Tidx × GrowOp} (hs : Growth.Step s l s')
    (hsafe : GrowSafe s l) : GrowInv s₀ s' := by
  obtain ⟨i, op⟩ := l
  obtain ⟨-, hs⟩ := Option.ite_none_right_eq_some.mp hs
  by_cases hop : op = .next
  · subst hop
    rw [if_pos rfl] at hs
    exact h.next hsafe hs
  · rw [if_neg hop] at hs
    obtain ⟨hu, hs⟩ := Option.ite_none_right_eq_some.mp hs
    cases op with
    | next => exact absurd rfl hop
    | sbrk n =>
      obtain ⟨-, hs⟩ := Option.ite_none_right_eq_some.mp hs
      obtain rfl := Option.some.inj hs
      refine ⟨h.tidy.move ?_ (fun hf => hf), h.ledger.congr rfl rfl rfl rfl rfl⟩
      have hcalm : s.place i = .user := hu
      rw [hcalm]
      exact fun hf => hf
    | threadCreate tid page =>
      obtain ⟨j, hj, rfl⟩ := Option.map_eq_some_iff.mp hs
      obtain ⟨hnew, hold⟩ := hsafe j hj
      exact h.create hnew hold
    | threadExit v =>
      obtain rfl := Option.some.inj hs
      exact ⟨h.tidy.congr rfl rfl rfl, h.ledger.congr rfl rfl rfl rfl rfl⟩
    | threadJoin j =>
      obtain ⟨-, hs⟩ := Option.ite_none_right_eq_some.mp hs
      obtain rfl := Option.some.inj hs
      exact ⟨h.tidy.congr rfl rfl rfl, h.ledger.congr rfl rfl rfl rfl rfl⟩

lemma Growth.Start.growInv (h : s.Start) : GrowInv s s := by
  have hquiet : s.Quiet := by
    intro i hi
    rw [h.place i] at hi
    exact hi
  refine ⟨⟨fun _ => h.pgdir, fun i hi => absurd hi (hquiet i), fun i _ hi => absurd hi (hquiet i)⟩,
    ⟨h.remap, fun v => ?_, ?_, ?_, ?_, ?_⟩⟩
  · rw [h.mapped, h.pgdir, List.mem_range, decide_eq_true_iff]
  · rw [h.mapped]
    exact List.nodup_range
  · rw [h.grants]
    simp
  · rw [h.grants]
    exact List.Pairwise.nil
  · rw [h.grants]
    simp

end

/-! ### The result -/

/-- When the growing calls do not overlap and a stack that is used again is at the top, no page
is mapped twice, the ranges that are handed out are disjoint, and `sz` is what they add up to. -/
theorem growthRight_of_growSafe {s₀ s : Growth} (h₀ : s₀.Start)
    (h : Reachable (· = s₀) (Guarded Growth.Step GrowSafe) s) : GrowthRight s₀ s := by
  have hinv : GrowInv s₀ s := by
    refine h.invariant ?_ ?_
    · rintro s rfl
      exact h₀.growInv
    · rintro s l s' hi ⟨hs, hsafe⟩
      exact hi.step hs hsafe
  exact ⟨hinv.ledger.remap, hinv.ledger.nodup, hinv.ledger.ranges, fun _ => hinv.ledger.sz⟩

/-- A process of three pages with one thread, whose stack is the last page. -/
def growStart : Growth where
  proc := { Proc.zero with
    sz := 3 * PGSIZE
    pgdir := fun v => v < 3
    state := .running
    pth := Function.update Proc.zero.pth 0 { Pthread.zero with state := .running, tid := 1 }
    ustacks := Function.update Proc.zero.ustacks 0 (3 * PGSIZE) }
  place := fun _ => .user
  remap := false
  mapped := List.range 3
  grants := []

lemma start_growStart : growStart.Start := by
  have hpages : PGROUNDUP growStart.proc.sz = 3 := PGROUNDUP_mul 3
  refine ⟨fun _ => rfl, rfl, ?_, fun v => ?_, rfl⟩
  · rw [hpages]
    rfl
  · rw [hpages]
    rfl

/-- `GrowSafe`, as a test. -/
def growSafe (s : Growth) (l : Tidx × GrowOp) : Bool :=
  let quiet := tidxs.all fun i => ¬(s.place i).Growing s.proc.sz
  match l with
  | (i, .next) =>
      match s.place i with
      | .sbrk _ => quiet
      | _ => true
  | (_, .threadCreate _ _) => s.slot.all fun j => quiet && decide (s.proc.ustacks j = 0)
  | _ => true

lemma growSafe_of_eq_true {s : Growth} {l : Tidx × GrowOp} (h : growSafe s l = true) :
    GrowSafe s l := by
  have hquiet : (tidxs.all fun i => decide ¬(s.place i).Growing s.proc.sz) = true → s.Quiet :=
    fun hall i => of_decide_eq_true (List.all_eq_true.mp hall i (List.mem_finRange i))
  obtain ⟨i, op⟩ := l
  cases op with
  | next =>
    intro n hn _
    unfold growSafe at h
    dsimp only at h
    rw [hn] at h
    exact hquiet h
  | threadCreate tid page =>
    intro j hj
    unfold growSafe at h
    dsimp only at h
    rw [hj] at h
    obtain ⟨hq, hu⟩ := Bool.and_eq_true_iff.mp h
    exact ⟨fun _ _ => hquiet hq, fun hne => absurd (of_decide_eq_true hu) hne⟩
  | _ => trivial

/-- A thread is created; the first thread grows the memory by a page, and then the second one by
100 bytes. -/
def growOps : List (Tidx × GrowOp) :=
  [(0, GrowOp.threadCreate 2 7), (0, .sbrk 4096)] ++ List.replicate 3 (0, GrowOp.next) ++
    [(1, GrowOp.sbrk 100)] ++ List.replicate 4 (0, GrowOp.next) ++ List.replicate 7 (1, GrowOp.next)

theorem growthRight_of_growSafe_thread : ∃ s : Growth,
    Reachable (· = growStart) (Guarded Growth.Step GrowSafe) s ∧ s.proc.sz = 20580 ∧
      s.grants = [⟨20480, 100, 0⟩, ⟨16384, 4096, 0⟩, ⟨12288, 4096, 0⟩] ∧
      GrowthRight growStart s := by
  have hrun : ((run (guardedNext Growth.step fun s l => growSafe s l = true) growStart growOps).any
      fun s => decide (s.proc.sz = 20580 ∧
        s.grants = [⟨20480, 100, 0⟩, ⟨16384, 4096, 0⟩, ⟨12288, 4096, 0⟩])) = true := by
    decide +kernel
  obtain ⟨s, hs, hall⟩ := (Option.any_eq_true _ _).mp hrun
  have hnext : ∀ s l s', guardedNext Growth.step (fun s l => growSafe s l = true) s l = some s' →
      Guarded Growth.Step GrowSafe s l s' := fun s l s' h =>
    ⟨(guardedNext_eq_some.mp h).1, growSafe_of_eq_true (guardedNext_eq_some.mp h).2⟩
  have hreach : Reachable (· = growStart) (Guarded Growth.Step GrowSafe) s :=
    Reachable.run hnext (.start rfl) hs
  obtain ⟨hsz, hgrants⟩ := of_decide_eq_true hall
  exact ⟨s, hreach, hsz, hgrants, growthRight_of_growSafe start_growStart hreach⟩

/-- Two threads call `sbrk`, and both read `sz` before one of them has mapped its page. -/
def remapOps : List (Tidx × GrowOp) :=
  [(0, GrowOp.threadCreate 2 7), (0, .sbrk 4096)] ++ List.replicate 2 (0, GrowOp.next) ++
    [(1, GrowOp.sbrk 4096)] ++ List.replicate 5 (1, GrowOp.next) ++
    List.replicate 2 (0, GrowOp.next)

/-- `mappages` panics for the page that the other thread has mapped. -/
theorem not_growthRight : ∃ s : Growth, Reachable (· = growStart) Growth.Step s ∧
    s.remap = true ∧ ¬GrowthRight growStart s := by
  have hrun : ((run Growth.step growStart remapOps).any fun s => s.remap) = true := by
    decide +kernel
  obtain ⟨s, hs, hremap⟩ := (Option.any_eq_true _ _).mp hrun
  refine ⟨s, Reachable.run (fun _ _ _ h => h) (.start rfl) hs, hremap, fun h => ?_⟩
  rw [h.remap] at hremap
  exact Bool.false_ne_true hremap

end Xv6Projects.Threads
