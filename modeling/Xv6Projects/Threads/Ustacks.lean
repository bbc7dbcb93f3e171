import Mathlib.Logic.Equiv.Basic
import Xv6Projects.Threads.Growth
import Xv6Projects.Threads.Stacks

/-!
# User stacks and the size of a process

The pages of a process are those below `sz`, and every user stack is a page of its own there, as
long as `thread_create` uses an old stack again only when it is at the top of the memory, and
`exec` forgets the stacks of the old image.
-/

namespace Xv6Projects.Threads

open Library Kernel Vm

/-! ### The property -/

/-- The mapped pages are those below `sz`, and each user stack ends with a page of its own. -/
structure Proc.MemRight (x : Proc) : Prop where
  below : ∀ v, x.pgdir v = true → v < PGROUNDUP x.sz
  mapped : ∀ v, v * PGSIZE < x.sz → x.pgdir v = true
  /-- A stack is the top of a mapped page below `sz`, -/
  stack : ∀ i, x.ustacks i ≠ 0 →
    ∃ v, x.ustacks i = (v + 1) * PGSIZE ∧ x.pgdir v = true ∧ x.ustacks i ≤ x.sz
  /-- and different slots have different pages. -/
  distinct : ∀ i j, x.ustacks i ≠ 0 → x.ustacks i = x.ustacks j → i = j

/-- The memory of every process in use is right; no call of `allocuvm` meets a page that is
mapped, and `copyuvm` finds every page. -/
structure MemoryRight (k : Kernel) : Prop where
  mem : ∀ p, (k.proc p).state ≠ .unused → (k.proc p).state ≠ .embryo → (k.proc p).MemRight
  growproc : ∀ p n avail, k.cpu = .run p → (k.proc p).growproc n avail ≠ none
  allocUstack : ∀ p i avail, k.cpu = .run p → (k.proc p).allocUstack i avail ≠ none
  copyuvm : ∀ p, k.cpu = .run p → AllMapped (k.proc p)

/-- What `thread_create` has done for slot `i` of `p`: `sz` is not lowered, and the two words
below the top of the stack of a new thread lie in a page that no other slot has. -/
structure CreatedRight (k k' : Kernel) (p : Slot) (i : Tidx) : Prop where
  sz : (k.proc p).sz ≤ (k'.proc p).sz
  words : ((k'.proc p).pth i).state = .runnable → ∃ v, (k'.proc p).pgdir v = true ∧
    v * PGSIZE ≤ (k'.proc p).ustacks i - 8 ∧ (k'.proc p).ustacks i = (v + 1) * PGSIZE
  own : ((k'.proc p).pth i).state = .runnable →
    ∀ j, (k'.proc p).ustacks j = (k'.proc p).ustacks i → j = i

/-- The steps that keep the memory right.  `thread_create` takes a slot without a stack, or with
one at the top of the memory; for a slot that keeps its stack in `exec`, because it has no kernel
stack, the stack lies below the top of the new image. -/
def MemSafe (k : Kernel) : Op → Prop
  | .threadCreate _ _ => ∀ p i, k.cpu = .run p →
      tidxs.find? (fun j => ((k.proc p).pth j).state = .unused) = some i →
      (k.proc p).ustacks i = 0 ∨ (k.proc p).ustacks i = (k.proc p).sz
  | .exec sz => ∀ p j, k.cpu = .run p → j ≠ (k.proc p).onTidx → (k.proc p).ustacks j ≠ 0 →
      (k.proc p).HasStack (k.proc p).onTidx j ∨ (k.proc p).ustacks j < sz
  | _ => True

/-- The states of the runs that meet the condition. -/
def MemReach : Kernel → Prop := Reachable (· = Kernel.pinit) (Guarded Step MemSafe)

/-! ### Pages -/

lemma lt_PGROUNDUP_iff {v a : ℕ} : v < PGROUNDUP a ↔ v * PGSIZE < a := by
  constructor
  · intro h
    by_contra hle
    exact absurd (PGROUNDUP_le_of_le_mul (not_lt.mp hle)) (not_le.mpr h)
  · exact lt_PGROUNDUP_of_mul_lt

lemma le_PGROUNDUP_mul (a : ℕ) : a ≤ PGROUNDUP a * PGSIZE := by
  by_contra h
  exact lt_irrefl _ (lt_PGROUNDUP_iff.mpr (not_le.mp h))

namespace Proc
variable {x y : Proc} {i : Tidx}

/-- The mapped pages of a right memory. -/
lemma MemRight.pages (h : x.MemRight) : Below x (PGROUNDUP x.sz) := by
  intro v
  by_cases hv : v < PGROUNDUP x.sz
  · rw [h.mapped v (lt_PGROUNDUP_iff.mp hv), decide_eq_true hv]
  · rw [decide_eq_false hv]
    by_contra hp
    exact hv (h.below v (by simpa using hp))

/-- A right memory from its pages and its stacks. -/
lemma memRight_of_below (h : Below x (PGROUNDUP x.sz))
    (hstack : ∀ i, x.ustacks i ≠ 0 → ∃ v, x.ustacks i = (v + 1) * PGSIZE ∧ x.ustacks i ≤ x.sz)
    (hdistinct : ∀ i j, x.ustacks i ≠ 0 → x.ustacks i = x.ustacks j → i = j) : x.MemRight where
  below v hv := by
    rw [h v] at hv
    exact of_decide_eq_true hv
  mapped v hv := by
    rw [h v]
    exact decide_eq_true (lt_PGROUNDUP_iff.mpr hv)
  stack i hi := by
    obtain ⟨v, hv, hle⟩ := hstack i hi
    refine ⟨v, hv, ?_, hle⟩
    have hpos : 0 < PGSIZE := by decide
    rw [h v]
    refine decide_eq_true (lt_PGROUNDUP_iff.mpr (lt_of_lt_of_le ?_ hle))
    rw [hv, Nat.succ_mul]
    omega
  distinct := hdistinct

/-- Only other fields than those of the memory are changed. -/
lemma MemRight.same (h : x.MemRight) (hxy : SameMemory x y) : y.MemRight := by
  obtain ⟨hsz, hpgdir, hustacks⟩ := hxy
  constructor
  · rw [hsz, hpgdir]
    exact h.below
  · rw [hsz, hpgdir]
    exact h.mapped
  · rw [hsz, hpgdir, hustacks]
    exact h.stack
  · rw [hustacks]
    exact h.distinct

/-- The stacks stay below the top when the memory grows. -/
lemma MemRight.grow (h : x.MemRight) (hsz : x.sz ≤ y.sz) (hpgdir : Below y (PGROUNDUP y.sz))
    (hustacks : y.ustacks = x.ustacks) : y.MemRight := by
  refine memRight_of_below hpgdir (fun i hi => ?_) ?_
  · rw [hustacks] at hi ⊢
    obtain ⟨v, hv, -, hle⟩ := h.stack i hi
    exact ⟨v, hv, hle.trans hsz⟩
  · rw [hustacks]
    exact h.distinct

/-- The page that ends at a user stack. -/
lemma MemRight.page (h : x.MemRight) (hi : x.ustacks i ≠ 0) :
    ∃ v, x.ustacks i = (v + 1) * PGSIZE ∧ v < PGROUNDUP x.sz := by
  obtain ⟨v, hv, hmap, -⟩ := h.stack i hi
  exact ⟨v, hv, h.below v hmap⟩

end Proc

/-! ### `allocuvm` -/

/-- The loop of `allocuvm` from the first page that is not mapped on. -/
lemma allocLoop_below {pgdir : ℕ → Bool} {f : ℕ} (h : ∀ v, pgdir v = decide (v < f)) (n avail : ℕ) :
    ∃ ok m, allocLoop pgdir f n avail = some (ok, fun v => decide (v < f + m)) ∧ m ≤ n ∧
      (ok = true → m = n) := by
  induction n generalizing pgdir f avail with
  | zero => exact ⟨true, 0, by rw [allocLoop, funext h, Nat.add_zero], le_refl _, fun _ => rfl⟩
  | succ n ih =>
    cases avail with
    | zero => exact ⟨false, 0, by rw [allocLoop, funext h, Nat.add_zero], Nat.zero_le _, by simp⟩
    | succ avail =>
      have hfree : pgdir f = false := by
        rw [h f]
        simp
      have hnext : ∀ v, Function.update pgdir f true v = decide (v < f + 1) := by
        intro v
        rw [Function.update_apply]
        split_ifs with hv
        · simp [hv]
        · rw [h v]
          exact decide_eq_decide.mpr (by omega)
      obtain ⟨ok, m, hm, hle, hok⟩ := ih hnext avail
      refine ⟨ok, m + 1, ?_, by omega, fun ho => by rw [hok ho]⟩
      rw [allocLoop, hfree, if_neg Bool.false_ne_true, hm]
      have hsum : f + 1 + m = f + (m + 1) := by omega
      rw [hsum]

/-- `allocuvm` in a memory whose pages are those below its size: it fails and gives the pages
back, or maps those below the new size. -/
lemma allocuvm_below {pgdir : ℕ → Bool} {oldsz newsz : ℕ}
    (h : ∀ v, pgdir v = decide (v < PGROUNDUP oldsz)) (hle : oldsz ≤ newsz) (avail : ℕ) :
    allocuvm pgdir oldsz newsz avail = some (none, pgdir) ∨
      allocuvm pgdir oldsz newsz avail =
        some (some newsz, fun v => decide (v < PGROUNDUP newsz)) := by
  have hmono := PGROUNDUP_mono hle
  rw [allocuvm]
  by_cases htop : KERNBASE ≤ newsz
  · rw [if_pos htop]
    exact Or.inl rfl
  · rw [if_neg htop, if_neg (not_lt.mpr hle)]
    obtain ⟨ok, m, hm, hmle, hok⟩ :=
      allocLoop_below h (PGROUNDUP newsz - PGROUNDUP oldsz) avail
    rw [hm, Option.map_some]
    cases ok with
    | true =>
      refine Or.inr ?_
      rw [if_pos rfl, hok rfl, Nat.add_sub_cancel' hmono]
    | false =>
      refine Or.inl ?_
      rw [if_neg Bool.false_ne_true]
      have hback : dealloc (fun v => decide (v < PGROUNDUP oldsz + m)) (PGROUNDUP oldsz)
          (PGROUNDUP newsz) = pgdir := by
        funext v
        rw [dealloc, h v]
        split_ifs with hv
        · exact (decide_eq_false (not_lt.mpr hv.1)).symm
        · exact decide_eq_decide.mpr (by omega)
      rw [hback]

/-! ### The functions that change a memory -/

namespace Proc
variable {x y : Proc} {i : Tidx}

/-- `growproc` leaves the memory, or maps the pages up to the new size. -/
lemma MemRight.growproc_eq (h : x.MemRight) (n avail : ℕ) : x.growproc n avail = some x ∨
    x.growproc n avail =
      some { x with sz := x.sz + n, pgdir := fun v => decide (v < PGROUNDUP (x.sz + n)) } := by
  rw [Proc.growproc]
  rcases allocuvm_below h.pages (Nat.le_add_right x.sz n) avail with ha | ha
  · rw [ha]
    exact Or.inl rfl
  · rw [ha]
    exact Or.inr rfl

lemma MemRight.growproc (h : x.MemRight) {n avail : ℕ} (hy : x.growproc n avail = some y) :
    y.MemRight := by
  rcases h.growproc_eq n avail with he | he
  · rw [he] at hy
    rwa [← Option.some.inj hy]
  · rw [he] at hy
    rw [← Option.some.inj hy]
    exact h.grow (Nat.le_add_right _ _) (fun _ => rfl) rfl

/-- The memory after `alloc_ustack` has mapped a page for slot `i`. -/
def withUstack (x : Proc) (i : Tidx) : Proc :=
  { x with
    pgdir := fun v => decide (v < PGROUNDUP x.sz + 1)
    ustacks := Function.update x.ustacks i (PGROUNDUP x.sz * PGSIZE + PGSIZE)
    sz := PGROUNDUP x.sz * PGSIZE + PGSIZE }

/-- `alloc_ustack` takes the old stack, fails, or maps the page after the last one. -/
lemma MemRight.allocUstack_eq (h : x.MemRight) (i : Tidx) (avail : ℕ) :
    x.ustacks i ≠ 0 ∧ x.allocUstack i avail = some (true, x) ∨
      x.allocUstack i avail = some (false, x) ∨
        x.allocUstack i avail = some (true, x.withUstack i) := by
  rw [Proc.allocUstack]
  by_cases hu : x.ustacks i = 0
  · rw [if_pos hu]
    have hbelow : ∀ v, x.pgdir v = decide (v < PGROUNDUP (PGROUNDUP x.sz * PGSIZE)) := by
      rw [PGROUNDUP_mul]
      exact h.pages
    rcases allocuvm_below hbelow (Nat.le_add_right _ PGSIZE) avail with ha | ha
    · rw [ha]
      exact Or.inr (Or.inl rfl)
    · rw [ha, PGROUNDUP_mul_add]
      exact Or.inr (Or.inr rfl)
  · rw [if_neg hu]
    exact Or.inl ⟨hu, rfl⟩

lemma MemRight.withUstack (h : x.MemRight) (i : Tidx) : (x.withUstack i).MemRight := by
  have hpos : 0 < PGSIZE := by decide
  have htop := le_PGROUNDUP_mul x.sz
  have hstacks : ∀ j, (x.withUstack i).ustacks j =
      if j = i then PGROUNDUP x.sz * PGSIZE + PGSIZE else x.ustacks j := fun j =>
    Function.update_apply _ _ _ _
  -- the other stacks lie below the new page
  have hlow : ∀ j, x.ustacks j ≠ 0 → x.ustacks j < PGROUNDUP x.sz * PGSIZE + PGSIZE := by
    intro j hj
    obtain ⟨-, -, -, hle⟩ := h.stack j hj
    omega
  refine memRight_of_below (fun v => ?_) (fun j hj => ?_) fun j l hj hl => ?_
  · have hsz : PGROUNDUP (x.withUstack i).sz = PGROUNDUP x.sz + 1 := PGROUNDUP_mul_add _
    rw [hsz]
    rfl
  · rw [hstacks] at hj ⊢
    split_ifs at hj ⊢ with hji
    · exact ⟨PGROUNDUP x.sz, (Nat.succ_mul _ _).symm, le_refl _⟩
    · obtain ⟨v, hv, -, -⟩ := h.stack j hj
      exact ⟨v, hv, (hlow j hj).le⟩
  · rw [hstacks] at hj hl
    rw [hstacks] at hl
    split_ifs at hj hl with hji hli hli
    · rw [hji, hli]
    · have := hlow l (by omega)
      omega
    · have := hlow j hj
      omega
    · exact h.distinct j l hj hl

/-- `thread_create` keeps the memory right when it takes no stack below the top. -/
lemma MemRight.create (h : x.MemRight) (hsafe : x.ustacks i = 0 ∨ x.ustacks i = x.sz)
    {avail : ℕ} {r : Bool × Proc} (hr : x.allocUstack i avail = some r) :
    (if r.1 then r.2.createDone i else r.2.createFail i).MemRight ∧
      x.sz ≤ (if r.1 then r.2.createDone i else r.2.createFail i).sz ∧
      (r.1 = true → (if r.1 then r.2.createDone i else r.2.createFail i).ustacks i ≠ 0) := by
  rcases h.allocUstack_eq i avail with ⟨hu, he⟩ | he | he
  · rw [he] at hr
    obtain rfl := Option.some.inj hr
    have hsz : (x.createDone i).sz = x.sz := hsafe.resolve_left hu
    exact ⟨h.same ⟨hsz, rfl, rfl⟩, hsz.ge, fun _ => hu⟩
  · rw [he] at hr
    obtain rfl := Option.some.inj hr
    exact ⟨h.same ⟨rfl, rfl, rfl⟩, le_refl _, fun hf => absurd hf Bool.false_ne_true⟩
  · rw [he] at hr
    obtain rfl := Option.some.inj hr
    have hnew : (x.withUstack i).ustacks i = PGROUNDUP x.sz * PGSIZE + PGSIZE :=
      Function.update_self _ _ _
    have hsz : ((x.withUstack i).createDone i).sz = (x.withUstack i).sz := hnew
    have hle : x.sz ≤ (x.withUstack i).sz :=
      (le_PGROUNDUP_mul x.sz).trans (Nat.le_add_right _ _)
    refine ⟨(h.withUstack i).same ⟨hsz, rfl, rfl⟩, hle.trans hsz.ge, fun _ hz => ?_⟩
    have hpos : 0 < PGSIZE := by decide
    have hz' : (x.withUstack i).ustacks i = 0 := hz
    omega

/-- `exec` keeps the memory right when every stack it does not forget lies below the top. -/
lemma MemRight.exec (h : x.MemRight) {sz : ℕ} (hmod : sz % PGSIZE = 0) (hsz : 2 * PGSIZE ≤ sz)
    (hsafe : ∀ j, j ≠ x.onTidx → x.ustacks j ≠ 0 → x.HasStack x.onTidx j ∨ x.ustacks j < sz) :
    ((x.commit sz).initAllpth x.onTidx).MemRight := by
  have hpos : 0 < PGSIZE := by decide
  obtain ⟨m, rfl⟩ : ∃ m, sz = m * PGSIZE :=
    ⟨sz / PGSIZE, (Nat.div_mul_cancel (Nat.dvd_of_mod_eq_zero hmod)).symm⟩
  have hm : 2 ≤ m := Nat.le_of_mul_le_mul_right hsz hpos
  set y := (x.commit (m * PGSIZE)).initAllpth x.onTidx
  have hon : y.ustacks x.onTidx = m * PGSIZE :=
    (if_neg fun hs => hs.1 rfl).trans (Function.update_self _ _ _)
  -- what is left of the old stacks
  have hold : ∀ j, j ≠ x.onTidx → y.ustacks j ≠ 0 →
      y.ustacks j = x.ustacks j ∧ x.ustacks j < m * PGSIZE := by
    intro j hj hne
    have heq : y.ustacks j = if x.HasStack x.onTidx j then 0 else x.ustacks j := by
      have hset : (x.commit (m * PGSIZE)).ustacks j = x.ustacks j := Function.update_of_ne hj _ _
      exact congrArg (fun u => if x.HasStack x.onTidx j then 0 else u) hset
    rw [heq] at hne ⊢
    by_cases hs : x.HasStack x.onTidx j
    · rw [if_pos hs] at hne
      exact absurd rfl hne
    · rw [if_neg hs] at hne ⊢
      exact ⟨rfl, (hsafe j hj hne).resolve_left hs⟩
  refine memRight_of_below (fun v => ?_) (fun j hj => ?_) fun j l hj hl => ?_
  · have htop : PGROUNDUP y.sz = m := PGROUNDUP_mul m
    have hdiv : m * PGSIZE / PGSIZE = m := Nat.mul_div_cancel m hpos
    rw [htop]
    exact congrArg (fun f => decide (v < f)) hdiv
  · by_cases hjon : j = x.onTidx
    · rw [hjon, hon]
      obtain ⟨m', rfl⟩ : ∃ m', m = m' + 1 := ⟨m - 1, by omega⟩
      exact ⟨m', rfl, le_refl _⟩
    · obtain ⟨he, hlt⟩ := hold j hjon hj
      rw [he] at hj ⊢
      obtain ⟨v, hv, -, -⟩ := h.stack j hj
      exact ⟨v, hv, hlt.le⟩
  · by_cases hjon : j = x.onTidx <;> by_cases hlon : l = x.onTidx
    · rw [hjon, hlon]
    · rw [hjon, hon] at hl
      have hne : y.ustacks l ≠ 0 := by
        rw [← hl, ← hon, ← hjon]
        exact hj
      obtain ⟨he, hlt⟩ := hold l hlon hne
      rw [he] at hl
      exact absurd hl hlt.ne'
    · rw [hlon, hon] at hl
      obtain ⟨he, hlt⟩ := hold j hjon hj
      rw [he] at hl
      exact absurd hl hlt.ne
    · obtain ⟨he, -⟩ := hold j hjon hj
      have hne : y.ustacks l ≠ 0 := by
        rw [← hl]
        exact hj
      obtain ⟨he', -⟩ := hold l hlon hne
      rw [he] at hj hl
      rw [he'] at hl
      exact h.distinct j l hj hl

/-- The child of a `fork` has the memory of its parent, with the stacks of two slots exchanged. -/
lemma MemRight.forkImage (h : x.MemRight) (p : Slot) (y : Proc) :
    (Proc.forkImage p x y).MemRight := by
  have hswap : ∀ j, (Proc.forkImage p x y).ustacks j = x.ustacks (Equiv.swap 0 x.onTidx j) := by
    intro j
    dsimp only [Proc.forkImage]
    rw [Function.update_apply, Function.update_apply, Equiv.swap_apply_def]
    split_ifs <;> rfl
  refine memRight_of_below (fun _ => rfl) (fun j hj => ?_) fun j l hj hl => ?_
  · rw [hswap] at hj ⊢
    obtain ⟨v, hv, -, hle⟩ := h.stack _ hj
    exact ⟨v, hv, hle⟩
  · rw [hswap] at hj hl
    rw [hswap] at hl
    exact (Equiv.swap 0 x.onTidx).injective (h.distinct _ _ hj hl)

/-- The first process has one page and no stacks. -/
lemma memRight_userinit (hx : ∀ j, x.ustacks j = 0) : x.userinit.MemRight := by
  have hnone : ∀ j, x.userinit.ustacks j = 0 := hx
  refine memRight_of_below (fun v => ?_) (fun j hj => absurd (hnone j) hj)
    fun j _ hj => absurd (hnone j) hj
  have htop : PGROUNDUP x.userinit.sz = 1 := by
    have hone := PGROUNDUP_mul 1
    rwa [Nat.one_mul] at hone
  rw [htop]
  exact decide_eq_decide.mpr Nat.lt_one_iff.symm

end Proc

/-! ### The invariant -/

/-- A process in use has a right memory. -/
def Proc.MemKept (x : Proc) : Prop := x.state ≠ .unused → x.state ≠ .embryo → x.MemRight

/-- Every process in use has a right memory, and so has a process that `fork` has copied. -/
structure MemInv (k : Kernel) : Prop where
  mem : ∀ p, (k.proc p).MemKept
  child : ∀ p i np, k.Live p i → ((k.proc p).pth i).cont = .forkDone np → (k.proc np).MemRight

/-- The operations that start a process, or put stacks into a memory. -/
def Op.Builds : Op → Prop
  | .userinit _ | .forkDone | .exec _ | .threadCreate _ _ => True
  | _ => False

section
variable {k k' : Kernel} {q : Slot} {op : Op}

lemma MemInv.current (hk : MemInv k) (hs : Shape k) {p : Slot} (hp : k.Current p) :
    (k.proc p).MemRight :=
  have halive := hs.alive_current hp
  hk.mem p halive.ne_unused halive.ne_embryo

lemma Still.memKept {x y : Proc} (h : Still x y) (hx : x.MemKept) : y.MemKept := by
  intro hun hem
  rw [ne_eq, h.state.eq_iff State.not_live_unused] at hun
  rw [ne_eq, h.state.eq_iff State.not_live_embryo] at hem
  exact (hx hun hem).same ⟨h.sz, h.pgdir, h.ustacks⟩

lemma Major.memKept {x y : Proc} (hs : Shape k) (h : Major k q op x y) (hop : ¬op.Builds)
    (hx : x.MemKept) : y.MemKept := by
  -- a process in use whose memory the change leaves
  have hleave : x.state.Live → SameMemory x y → y.MemKept := fun hl hxy _ _ =>
    (hx hl.ne_unused hl.ne_embryo).same hxy
  cases h with
  | grow h =>
    obtain ⟨r, -, rfl⟩ := Option.map_eq_some_iff.mp h
    exact fun hun hem => (hx hun hem).growproc h
  | commit | initAllpth | userinit | forkDone | created => exact absurd trivial hop
  | fsOp | sleeplocks | joinPth => exact fun hun hem => (hx hun hem).same ⟨rfl, rfl, rfl⟩
  | exit hp _ _ _ hstill =>
    exact hleave (hstill.state.live_iff.mpr (hs.alive_current (Or.inl hp))) ⟨rfl, rfl, rfl⟩
  | threadExit c hp =>
    have hwoken := ((k.proc q).wakeup1_state c).live_iff
    exact hleave (hwoken.mpr (hs.alive_current (Or.inl hp))) ⟨rfl, rfl, rfl⟩
  | allocSlot => exact fun _ hem => absurd rfl hem
  | allocStack _ he => exact fun _ hem => absurd he hem
  | forkImage he => exact fun _ hem => absurd he hem
  | allocFail | forkFail | reap => exact fun hun => absurd rfl hun

lemma Step.memKept (hs : Shape k) (h : Step k op k') (hop : ¬op.Builds)
    (hq : (k.proc q).MemKept) : (k'.proc q).MemKept := by
  refine Changes.lift (R := fun x y => x.MemKept → y.MemKept) (fun _ h => h)
    (fun _ _ _ h h' hx => h' (h hx)) (fun x y hxy hx => ?_) (h.changes hs q) hq
  rcases hxy.still_or hs with h | h
  · exact h.memKept hx
  · exact h.memKept hs hop hx

/-- Process `p` is changed, and its memory is right. -/
lemma memKept_updProc (hk : ∀ q, (k.proc q).MemKept) {p : Slot} {f : Proc → Proc}
    (h : (f (k.proc p)).MemKept) (q : Slot) : ((k.updProc p f).proc q).MemKept := by
  by_cases hq : q = p
  · rw [hq, updProc_self]
    exact h
  · rw [updProc_of_ne _ _ hq]
    exact hk q

lemma memKept_setCont (hk : ∀ q, (k.proc q).MemKept) (p : Slot) (c : Cont) (q : Slot) :
    ((k.setCont p c).proc q).MemKept :=
  memKept_updProc hk ((still_setCont _ c).memKept (hk p)) q

/-- What `thread_create` does to the memory of the current process. -/
lemma MemInv.threadCreate (hk : MemInv k) (hs : Shape k) {p : Slot} (hp : k.cpu = .run p)
    {page : Option ℕ} {avail : ℕ} (hsafe : MemSafe k (.threadCreate page avail))
    (h : k.threadCreate p page avail = some k') :
    ∃ i, tidxs.find? (fun j => ((k.proc p).pth j).state = .unused) = some i ∧
      (∀ q, q ≠ p → k'.proc q = k.proc q) ∧ (k'.proc p).MemRight ∧
      (k.proc p).sz ≤ (k'.proc p).sz ∧
      (((k'.proc p).pth i).state = .runnable → (k'.proc p).ustacks i ≠ 0) := by
  obtain ⟨i, hi, h⟩ := Option.bind_eq_some_iff.mp h
  obtain ⟨n, hn, h⟩ := Option.bind_eq_some_iff.mp h
  obtain ⟨k₁, h₁, h⟩ := Option.bind_eq_some_iff.mp h
  obtain ⟨r, hr, rfl⟩ := Option.map_eq_some_iff.mp h
  obtain ⟨k₂, h₂, rfl⟩ := Option.map_eq_some_iff.mp h₁
  obtain ⟨-, rfl⟩ := kalloc_eq_some.mp h₂
  dsimp only at hr
  rw [updProc_self] at hr
  have hx : ((k.proc p).allocpth i k.nextTid n).MemRight :=
    (hk.current hs (Or.inl hp)).same ⟨rfl, rfl, rfl⟩
  obtain ⟨hright, hsz, hnew⟩ := hx.create (hsafe p i hp hi) hr
  refine ⟨i, hi, fun q hq => ?_, ?_, ?_, ?_⟩
  · dsimp only
    rw [updProc_of_ne _ _ hq]
    exact updProc_of_ne k _ hq
  all_goals rw [updProc_self]
  · exact hright
  · exact hsz
  · intro hst
    refine hnew ?_
    by_contra hno
    rw [if_neg hno, Proc.createFail, Proc.updPth_self] at hst
    exact State.noConfusion hst

/-- A step that meets the condition keeps the memory of every process in use right. -/
lemma MemInv.memStep (hk : MemInv k) (hs : Shape k) (h : Step k op k') (hsafe : MemSafe k op)
    (q : Slot) : (k'.proc q).MemKept := by
  by_cases hop : op.Builds
  · cases op with
    | userinit n =>
      have h := (Option.ite_none_right_eq_some.mp h).2
      obtain ⟨np, hnp, hinit⟩ := Option.bind_eq_some_iff.mp h
      by_cases hq : (k.proc q).state = .unused
      · obtain ⟨k₁, h₁, rfl⟩ := Option.map_eq_some_iff.mp hinit
        obtain ⟨k₂, h₂, rfl⟩ := Option.map_eq_some_iff.mp h₁
        obtain ⟨-, rfl⟩ := kalloc_eq_some.mp h₂
        refine memKept_updProc (k := ({ k.allocSlot np with kmem := _ } : Kernel).updProc np
          (·.allocStack n)) (fun q => ?_) (fun _ _ => ?_) q
        · refine memKept_updProc (k := { k.allocSlot np with kmem := _ }) (fun q => ?_)
            (fun _ hem => absurd ?_ hem) q
          · exact memKept_updProc (f := (·.allocSlot k.nextpid k.nextTid)) hk.mem
              (fun _ hem => absurd rfl hem) q
          · simp [Kernel.allocSlot, Proc.allocStack, Proc.allocSlot, Kernel.updProc]
        · rw [updProc_self]
          exact Proc.memRight_userinit fun _ => rfl
      · rw [userinit_of_ne h hq]
        exact hk.mem q
    | forkDone =>
      obtain ⟨p, hp, h⟩ := onCpu_eq_some.mp h
      rcases forkStep_eq_some h with ⟨_, _, _, he, _⟩ | ⟨_, _, _, he, _⟩ | ⟨np, hc, -, rfl⟩
      · exact absurd he (by simp)
      · exact absurd he (by simp)
      · have hchild := hk.child p _ np (hs.live_current (Or.inl hp)) hc
        exact memKept_setCont (memKept_updProc hk.mem fun _ _ => hchild.same ⟨rfl, rfl, rfl⟩) p _ q
    | exec sz =>
      obtain ⟨p, hp, -, h⟩ := syscall_eq_some.mp h
      obtain ⟨⟨hmod, hsz, -⟩, h⟩ := Option.ite_none_right_eq_some.mp h
      obtain ⟨k₁, h₁, rfl⟩ := Option.map_eq_some_iff.mp h
      obtain ⟨m, b, rfl⟩ := kfreeAll_eq h₁
      have hright := hk.current hs (Or.inl hp)
      by_cases hq : q = p
      · subst hq
        refine fun _ _ => ?_
        rw [updProc_self]
        dsimp only
        rw [updProc_self]
        exact hright.exec hmod hsz (hsafe q · hp)
      · rw [updProc_of_ne _ _ hq]
        dsimp only
        rw [updProc_of_ne _ _ hq]
        exact hk.mem q
    | threadCreate page avail =>
      obtain ⟨p, hp, -, h⟩ := syscall_eq_some.mp h
      obtain ⟨i, -, hother, hright, -⟩ := hk.threadCreate hs hp hsafe h
      by_cases hq : q = p
      · rw [hq]
        exact fun _ _ => hright
      · rw [hother q hq]
        exact hk.mem q
    | _ => exact hop.elim
  · exact h.memKept hs hop (hk.mem q)

/-- A process that another thread has copied is left alone by the step of the current thread. -/
lemma MemInv.other (hk : MemInv k) (hs : Shape k) {r nr : Slot} (hr : k.cpu = .run r)
    (ht : (k.proc r).mypth.cont.target = some nr) (hne : (k.proc r).mypth.cont ≠ .forkDone nr)
    (hsame : ∀ q, q ≠ nr → q ≠ r → k'.proc q = k.proc q) {p : Slot} {i : Tidx} {np : Slot}
    (hl : k.Live p i) (hc : ((k.proc p).pth i).cont = .forkDone np) : (k'.proc np).MemRight := by
  have htarget : ((k.proc p).pth i).cont.target = some np := by rw [hc]; rfl
  have hnr : np ≠ nr := by
    rintro rfl
    obtain ⟨rfl, rfl⟩ := hs.only (Or.inl hr) ht hl htarget
    exact hne hc
  have hnp : np ≠ r := by
    rintro rfl
    exact (hs.alive_current (Or.inl hr)).ne_embryo (hs.target p i np hl htarget)
  rw [hsame np hnr hnp]
  exact hk.child p i np hl hc

/-- The copy in `fork` keeps the invariant of the copied processes. -/
lemma MemInv.forkCopy (hk : MemInv k) (hs : Shape k) {r nr : Slot} (hr : k.cpu = .run r)
    (hcr : (k.proc r).mypth.cont = .forkCopy nr) {ok : Bool} (h : k.forkCopy r nr ok = some k')
    {p : Slot} {i : Tidx} {np : Slot} (hl : k'.Live p i)
    (hc : ((k'.proc p).pth i).cont = .forkDone np) : (k'.proc np).MemRight := by
  have ht : (k.proc r).mypth.cont.target = some nr := by rw [hcr]; rfl
  have hne := hs.target_ne (Or.inl hr) ht
  have hcont : (k.proc r).mypth.cont ≠ .forkDone nr := by
    rw [hcr]
    exact Cont.noConfusion
  have hframe : ∀ (k₁ : Kernel) (g : Proc → Proc) (c : Cont), k₁.proc = k.proc →
      ∀ q, q ≠ nr → q ≠ r → ((k₁.updProc nr g).setCont r c).proc q = k.proc q := by
    intro k₁ g c hk₁ q hq hqr
    rw [Kernel.setCont, updProc_of_ne _ _ hqr, updProc_of_ne _ _ hq, hk₁]
  rw [Kernel.forkCopy] at h
  cases ok with
  | true =>
    rw [if_pos rfl] at h
    obtain ⟨-, h⟩ := Option.ite_none_right_eq_some.mp h
    obtain rfl := Option.some.inj h
    have hpth : ((k.updProc nr (Proc.forkImage r (k.proc r))).proc p).pth i =
        (k.proc p).pth i := by
      rw [updProc_proc]
      split_ifs with hp
      · rw [hp]
        rfl
      · rfl
    by_cases hmine : p = r ∧ i = ((k.updProc nr (Proc.forkImage r (k.proc r))).proc r).onTidx
    · -- the thread has just copied the process
      rw [setCont_pth, if_pos hmine] at hc
      obtain rfl := Cont.forkDone.inj hc
      rw [Kernel.setCont, updProc_of_ne _ _ hne, updProc_self]
      exact (hk.current hs (Or.inl hr)).forkImage r _
    · rw [Kernel.Live, setCont_pth, if_neg hmine, hpth] at hl
      rw [setCont_pth, if_neg hmine, hpth] at hc
      exact hk.other hs hr ht hcont (hframe k _ _ rfl) hl hc
  | false =>
    rw [if_neg Bool.false_ne_true] at h
    obtain ⟨k₁, h₁, rfl⟩ := Option.map_eq_some_iff.mp h
    obtain ⟨-, rfl⟩ := kfree_eq_some.mp h₁
    rw [Kernel.Live, setCont_pth] at hl
    rw [setCont_pth] at hc
    -- the thread is not the current one, which goes on in user code
    split_ifs at hl hc
    rw [updProc_proc] at hl hc
    split_ifs at hl hc with hp
    · -- the slot is given up
      obtain ⟨-, hrest⟩ := (hs.proc nr).embryo (hs.target r _ nr (hs.live_current (Or.inl hr)) ht)
      by_cases hi : i = 0
      · rw [hi, Proc.forkFail_first] at hl
        exact absurd hl State.not_live_unused
      · rw [Proc.forkFail_pth hi, hrest i hi] at hl
        exact absurd hl State.not_live_unused
    · exact hk.other hs hr ht hcont (hframe _ _ _ rfl) hl hc

/-- A step keeps the memory of the copied processes right. -/
lemma MemInv.childStep (hk : MemInv k) (hs : Shape k) (h : Step k op k') {p : Slot} {i : Tidx}
    {np : Slot} (hl : k'.Live p i) (hc : ((k'.proc p).pth i).cont = .forkDone np) :
    (k'.proc np).MemRight := by
  by_cases hcopy : ∃ ok, op = .forkCopy ok
  · obtain ⟨ok, rfl⟩ := hcopy
    obtain ⟨r, hr, h⟩ := onCpu_eq_some.mp h
    rcases forkStep_eq_some h with ⟨_, _, _, he, _⟩ | ⟨nr, ok, hcr, -, h⟩ | ⟨_, _, he, _⟩
    · exact absurd he (by simp)
    · exact hk.forkCopy hs hr hcr h hl hc
    · exact absurd he (by simp)
  -- the thread stood at its place before the step
  have hold : k.Live p i ∧ ((k.proc p).pth i).cont = .forkDone np := by
    rcases h.place hs p i hl with ⟨hl₀, hc₀⟩ | he
    · exact ⟨hl₀, hc₀.symm.trans hc⟩
    · rw [hc] at he
      rcases he with (he | ⟨r, he, -⟩ | ⟨r, he⟩ | ⟨-, -, he⟩) | ⟨⟨n, he⟩ | he, -⟩ | ⟨-, he⟩ |
        ⟨-, t, he⟩
      on_goal 4 => exact absurd he hcopy
      all_goals exact absurd he (by simp)
  have ht : ((k.proc p).pth i).cont.target = some np := by rw [hold.2]; rfl
  have hemb := hs.target p i np hold.1 ht
  have hemb' := (hs.step h).target p i np hl (by rw [hc]; rfl)
  cases op with
  | userinit n =>
    have hne : (k.proc np).state ≠ .unused := by
      rw [hemb]
      exact State.noConfusion
    rw [userinit_of_ne (Option.ite_none_right_eq_some.mp h).2 hne]
    exact hk.child p i np hold.1 hold.2
  | forkStack page =>
    obtain ⟨r, hr, h⟩ := onCpu_eq_some.mp h
    rcases forkStep_eq_some h with ⟨nr, pg, hcr, -, h⟩ | ⟨_, _, _, he, _⟩ | ⟨_, _, he, _⟩
    · have htr : (k.proc r).mypth.cont.target = some nr := by rw [hcr]; rfl
      refine hk.other hs hr htr ?_ (forkStack_of_ne h (hs.target_ne (Or.inl hr) htr)).1 hold.1
        hold.2
      rw [hcr]
      exact Cont.noConfusion
    · exact absurd he (by simp)
    · exact absurd he (by simp)
  | sbrk n avail =>
    obtain ⟨r, hr, -, h⟩ := syscall_eq_some.mp h
    obtain ⟨x, -, rfl⟩ := Option.map_eq_some_iff.mp (Option.ite_none_right_eq_some.mp h).2
    have hne : np ≠ r := by
      rintro rfl
      exact (hs.alive_current (Or.inl hr)).ne_embryo hemb
    rw [updProc_of_ne _ _ hne]
    exact hk.child p i np hold.1 hold.2
  | forkCopy ok => exact absurd ⟨ok, rfl⟩ hcopy
  | _ =>
    obtain ⟨-, hmem⟩ := h.kept_of_embryo hs hemb hemb' (by simp) (by simp)
    exact (hk.child p i np hold.1 hold.2).same (hmem fun hm => hm)

end

/-! ### The result -/

lemma MemReach.inv {k : Kernel} (h : MemReach k) : Shape k ∧ MemInv k := by
  refine Reachable.invariant (I := fun k => Shape k ∧ MemInv k) ?_ ?_ h
  · rintro _ rfl
    exact ⟨shape_pinit, fun _ hun => absurd rfl hun,
      fun _ _ _ hl _ => absurd rfl hl.ne_unused⟩
  · rintro k op k' ⟨hs, hk⟩ ⟨hstep, hsafe⟩
    exact ⟨hs.step hstep, hk.memStep hs hstep hsafe, fun p i np => hk.childStep hs hstep⟩

/-- **User stacks lie below the size of their process**, in every run that meets the condition:
the mapped pages are those below `sz`, every user stack is a page of its own there, no call of
`allocuvm` or `copyuvm` panics, and `thread_create` writes to the page of the new thread. -/
theorem memoryRight_of_memSafe {k : Kernel} (h : MemReach k) : MemoryRight k ∧
    ∀ p page avail k', k.cpu = .run p → k.threadCreate p page avail = some k' →
      MemSafe k (.threadCreate page avail) →
      ∀ i, tidxs.find? (fun j => ((k.proc p).pth j).state = .unused) = some i →
        CreatedRight k k' p i := by
  obtain ⟨hs, hk⟩ := h.inv
  refine ⟨⟨hk.mem, fun p n avail hp => ?_, fun p i avail hp => ?_, fun p hp => ?_⟩,
    fun p page avail k' hp hstep hsafe i hi => ?_⟩
  · rcases (hk.current hs (Or.inl hp)).growproc_eq n avail with he | he
    all_goals
      rw [he]
      exact Option.some_ne_none _
  · rcases (hk.current hs (Or.inl hp)).allocUstack_eq i avail with ⟨-, he⟩ | he | he
    all_goals
      rw [he]
      exact Option.some_ne_none _
  · rw [AllMapped]
    exact fun v hv => (hk.current hs (Or.inl hp)).mapped v (lt_PGROUNDUP_iff.mp hv)
  · obtain ⟨j, hj, -, hright, hsz, hnew⟩ := hk.threadCreate hs hp hsafe hstep
    obtain rfl := Option.some.inj (hi.symm.trans hj)
    refine ⟨hsz, fun hst => ?_, fun hst l hl => ?_⟩
    · obtain ⟨v, hv, hmap, -⟩ := hright.stack i (hnew hst)
      refine ⟨v, hmap, ?_, hv⟩
      have hpage : PGSIZE = 4096 := rfl
      rw [hv, Nat.succ_mul]
      omega
    · exact (hright.distinct i l (hnew hst) hl.symm).symm

/-- The condition, computed. -/
def memSafe (k : Kernel) : Op → Bool
  | .threadCreate _ _ => slots.all fun p => k.cpu ≠ .run p ||
      match tidxs.find? (fun j => ((k.proc p).pth j).state = .unused) with
      | none => true
      | some i => (k.proc p).ustacks i = 0 || (k.proc p).ustacks i = (k.proc p).sz
  | .exec sz => slots.all fun p => k.cpu ≠ .run p || tidxs.all fun j =>
      j = (k.proc p).onTidx || (k.proc p).ustacks j = 0 ||
        (k.proc p).HasStack (k.proc p).onTidx j || (k.proc p).ustacks j < sz
  | _ => true

lemma memSafe_of_eq_true {k : Kernel} {op : Op} (h : memSafe k op = true) : MemSafe k op := by
  cases op with
  | threadCreate page avail =>
    intro p i hp hi
    have hall := List.all_eq_true.mp h p (List.mem_finRange p)
    rw [hp, hi] at hall
    simpa using hall
  | exec sz =>
    intro p j hp hj hu
    have hall := List.all_eq_true.mp h p (List.mem_finRange p)
    rw [hp] at hall
    have hall : ∀ j ∈ tidxs, ((j = (k.proc p).onTidx ∨ (k.proc p).ustacks j = 0) ∨
        (k.proc p).HasStack (k.proc p).onTidx j) ∨ (k.proc p).ustacks j < sz := by
      simpa using hall
    rcases hall j (List.mem_finRange j) with ((h | h) | h) | h
    · exact absurd h hj
    · exact absurd h hu
    · exact Or.inl h
    · exact Or.inr h
  | _ => trivial

/-- The first process creates a thread, grows by a page, and creates another thread. -/
def stacksOps : List Op :=
  [.userinit 1, .pass, .threadCreate (some 2) 1, .sbrk 4096 1, .threadCreate (some 3) 1]

/-- The two stacks are the second and the fourth page. -/
theorem memoryRight_of_memSafe_threads : ∃ k, MemReach k ∧ (k.proc 0).sz = 16384 ∧
    (k.proc 0).ustacks 1 = 8192 ∧ (k.proc 0).ustacks 2 = 16384 ∧ (k.proc 0).MemRight := by
  have hrun : ((run (guardedNext step fun k op => memSafe k op = true) Kernel.pinit
      stacksOps).any fun k => decide ((k.proc 0).state = .running ∧ (k.proc 0).sz = 16384 ∧
        (k.proc 0).ustacks 1 = 8192 ∧ (k.proc 0).ustacks 2 = 16384)) = true := by
    decide +kernel
  obtain ⟨k, hk, hall⟩ := (Option.any_eq_true _ _).mp hrun
  have hnext : ∀ s i s', guardedNext step (fun k op => memSafe k op = true) s i = some s' →
      Guarded Step MemSafe s i s' := fun s i s' hs =>
    ⟨(guardedNext_eq_some.mp hs).1, memSafe_of_eq_true (guardedNext_eq_some.mp hs).2⟩
  have hreach : MemReach k := Reachable.run hnext (.start rfl) hk
  obtain ⟨hstate, hsz, hone, htwo⟩ := of_decide_eq_true hall
  refine ⟨k, hreach, hsz, hone, htwo, (memoryRight_of_memSafe hreach).1.mem 0 ?_ ?_⟩
  · rw [hstate]
    exact State.noConfusion
  · rw [hstate]
    exact State.noConfusion

/-- The first process joins a thread, grows by a page, and creates another thread. -/
def lowerOps : List Op :=
  [.userinit 1, .pass, .threadCreate (some 2) 1, .threadJoin 2, .schedule, .threadExit 7,
    .schedule, .pass, .resume, .sbrk 4096 1, .threadCreate (some 3) 1]

/-- `thread_create` has lowered `sz` to the top of the old stack: the third page is mapped above
it, and the next `sbrk` panics in `mappages`. -/
theorem not_memoryRight : ∃ k, Reach k ∧ k.cpu = .run 0 ∧ (k.proc 0).sz = 8192 ∧
    (k.proc 0).pgdir 2 = true ∧ (k.proc 0).growproc 4096 1 = none ∧ ¬(k.proc 0).MemRight ∧
    ¬MemoryRight k := by
  have hrun : ((run step Kernel.pinit lowerOps).any fun k =>
      decide (k.cpu = .run 0 ∧ (k.proc 0).sz = 8192 ∧ (k.proc 0).pgdir 2 = true ∧
        ((k.proc 0).growproc 4096 1).isNone = true)) = true := by
    decide +kernel
  obtain ⟨k, hk, hall⟩ := (Option.any_eq_true _ _).mp hrun
  obtain ⟨hcpu, hsz, hmap, hpanic⟩ := of_decide_eq_true hall
  have hnone := Option.isNone_iff_eq_none.mp hpanic
  refine ⟨k, Reachable.run (fun _ _ _ hs => hs) (.start rfl) hk, hcpu, hsz, hmap, hnone,
    fun h => ?_, fun h => h.growproc 0 4096 1 hcpu hnone⟩
  have hlt := h.below 2 hmap
  rw [hsz] at hlt
  exact absurd hlt (by decide)

end Xv6Projects.Threads
