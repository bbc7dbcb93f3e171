import Xv6Projects.Cow.Counters
import Xv6Projects.Cow.Faults

/-!
# The counters agree while the guard page is there

`countvp` counts the present pages below the size of a process, and `countpp` the pages that user
code may access, and one more: the page below the user stack, from which `exec` takes `PTE_U`.  So
the counters agree as long as each program that `exec` loaded keeps this page, and no page fault
opens it.
-/

namespace Xv6Projects.Cow

open Library Vm Finset

/-- The processes that run a program loaded by `exec`, after an operation, from the ones before it:
a successful `exec` loads one, and a child runs the program of its parent. -/
def loaded (k : Kernel) (op : Op) (r : Reply) (k' : Kernel) (L : Set Slot) : Set Slot :=
  {i | (k'.proc i).state ≠ .unused ∧ ∀ j, origin k op r i = some j → j ∈ L}

/-- Both counters of process `i` are `n`. -/
def Agree (k : Kernel) (i : Slot) (n : ℕ) : Prop :=
  countvp i k = .ok (n, k) ∧ countpp i k = .ok (n, k)

/-- Process `i` has all pages below its size, and page `g` is the only one that is closed to
user code. -/
structure GuardPage (k : Kernel) (i : Slot) (g : ℕ) : Prop where
  lt : g < PGROUNDUP (k.proc i).sz
  user : ∀ q, q < PGROUNDUP (k.proc i).sz → (k.pte i q).map Pte.u = some (decide (q ≠ g))

/-- The operation keeps the guard pages.  A page fault at a page without `PTE_U` comes only when
its counter is at most one; and where a loaded program shrinks, the pages without `PTE_U` lie below
the new size, or if it asks for more than it has, that is not a whole number of pages. -/
def KeepsGuard (s : Kernel × Set Slot) : Op → Prop
  | .sbrk c n => c ∈ s.2 → n < 0 →
      (0 ≤ ((s.1.proc c).sz : ℤ) + n → ∀ q, q < NUPAGE → Closed s.1 c q →
        (q : ℤ) * PGSIZE < (s.1.proc c).sz + n) ∧
      (((s.1.proc c).sz : ℤ) + n < 0 → ¬(PGSIZE : ℤ) ∣ n)
  | op => LowFaults s.1 op

variable [Layout] {R : Set ℕ} {k k' : Kernel} {c i j : Slot} {d d' : PageDir} {g : ℕ}

/-- The start, with no program loaded. -/
def LoadBoot (free : List ℕ) (s : Kernel × Set Slot) : Prop := Boot free s.1 ∧ s.2 = ∅

/-- One operation, with the record of the loaded programs. -/
def LoadStep (s : Kernel × Set Slot) (op : Op) (s' : Kernel × Set Slot) : Prop :=
  Enabled s.1 op ∧ ∃ r, perform op s.1 = .ok (r, s'.1) ∧ s'.2 = loaded s.1 op r s'.1 s.2

/-! ### What the counters say -/

omit [Layout] in
lemma any_u_iff {o : Option Pte} : o.any Pte.u = true ↔ o.map Pte.u = some true := by
  cases o <;> simp

omit [Layout] in
lemma pde_isSome {q : ℕ} (h : (d.entry q).isSome) : (d.pde (PDX q)).isSome := by
  cases hp : d.pde (PDX q) with
  | none =>
    rw [PageDir.entry, hp] at h
    exact absurd h (by simp)
  | some t => rfl

/-- Above its size a process has no page that user code may access. -/
lemma DirOk.not_user {sz q : ℕ} (h : DirOk d sz) (hq : PGROUNDUP sz ≤ q) :
    ¬(d.entry q).any Pte.u = true := by
  rw [any_u_iff]
  intro hu
  obtain ⟨e, he, hu⟩ := Option.map_eq_some_iff.mp hu
  rcases lt_or_ge q NUPAGE with hlt | hge
  · rw [h.unmapped q hq hlt] at he
    exact absurd he (by simp)
  · rw [h.kernel q hge] at he
    exact absurd hu (by simp [kernelEntry_u he])

/-- **With a guard page the counters agree.** -/
lemma GuardPage.agree (hg : GuardPage k i g) (h : Inv R k) (hi : (k.proc i).state ≠ .unused) :
    Agree k i (PGROUNDUP (k.proc i).sz) := by
  obtain ⟨-, d, -, hd, hok⟩ := h.live hi
  have hup := PGROUNDUP_le hok.le
  have hpages : NUPAGE ≤ NVPAGE := by decide
  have huser : ∀ q, q < PGROUNDUP (k.proc i).sz →
      (d.entry q).map Pte.u = some (decide (q ≠ g)) := fun q hq => by
    rw [← pte_of_pgdir hd, hg.user q hq]
  have hthere : ∀ q, q < PGROUNDUP (k.proc i).sz → (d.entry q).isSome := fun q hq => by
    rw [← Option.isSome_map, huser q hq]
    rfl
  constructor
  · rw [countvp_ok hd fun q hq => pde_isSome (hthere q hq),
      filter_true_of_mem fun q hq => hthere q (mem_range.mp hq), card_range]
  · have hset : ((range NVPAGE).filter fun q => (d.entry q).any Pte.u = true) =
        (range (PGROUNDUP (k.proc i).sz)).erase g := by
      ext q
      rw [mem_filter, mem_erase, mem_range, mem_range]
      rcases lt_or_ge q (PGROUNDUP (k.proc i).sz) with hq | hq
      · rw [any_u_iff, huser q hq, Option.some.injEq, decide_eq_true_iff]
        exact ⟨fun hu => ⟨hu.2, hq⟩, fun hu => ⟨by omega, hu.1⟩⟩
      · exact iff_of_false (fun hu => hok.not_user hq hu.2) fun hu => absurd hu.2 (not_lt.mpr hq)
    rw [countpp_ok hd, hset, card_erase_add_one (mem_range.mpr hg.lt), card_range]

omit [Layout] in
/-- Where all pages below the size are open to user code, the counters differ. -/
lemma not_agree (hd : (k.proc i).pgdir = some d) (hle : PGROUNDUP (k.proc i).sz ≤ NVPAGE)
    (hu : ∀ q, q < PGROUNDUP (k.proc i).sz → (d.entry q).any Pte.u = true) (n : ℕ) :
    ¬Agree k i n := by
  rintro ⟨hvp, hpp⟩
  have hthere : ∀ q, q < PGROUNDUP (k.proc i).sz → (d.entry q).isSome := fun q hq => by
    obtain ⟨e, he, -⟩ := Option.map_eq_some_iff.mp (any_u_iff.mp (hu q hq))
    rw [he]
    rfl
  rw [countvp_ok hd fun q hq => pde_isSome (hthere q hq),
    filter_true_of_mem fun q hq => hthere q (mem_range.mp hq), card_range] at hvp
  rw [countpp_ok hd] at hpp
  injection hvp with hvp
  injection hpp with hpp
  injection hvp with hvp
  injection hpp with hpp
  have hsub : range (PGROUNDUP (k.proc i).sz) ⊆
      (range NVPAGE).filter fun q => (d.entry q).any Pte.u = true := fun q hq =>
    mem_filter.mpr ⟨mem_range.mpr ((mem_range.mp hq).trans_le hle), hu q (mem_range.mp hq)⟩
  have hcard := card_le_card hsub
  rw [card_range] at hcard
  omega

/-! ### What keeps the guard page -/

section
variable {f : ℕ} {child : PageDir} {m m' : Mem Kmem} {h h' : ℕ → ℕ} {sz' : ℕ} {n r : ℤ}

omit [Layout] in
lemma GuardPage.congr (hg : GuardPage k i g) (hsz : (k'.proc j).sz = (k.proc i).sz)
    (hu : ∀ q, q < PGROUNDUP (k.proc i).sz → (k'.pte j q).map Pte.u = (k.pte i q).map Pte.u) :
    GuardPage k' j g := by
  refine ⟨by rw [hsz]; exact hg.lt, fun q hq => ?_⟩
  rw [hsz] at hq
  rw [hu q hq, hg.user q hq]

omit [Layout] in
lemma GuardPage.of_proc (hg : GuardPage k i g) (hp : k'.proc i = k.proc i) : GuardPage k' i g :=
  hg.congr (by rw [hp]) fun q _ => by rw [Kernel.pte, Kernel.pte, hp]

omit [Layout] in
lemma GuardPage.closed (hg : GuardPage k i g) : Closed k i g := by
  rw [closed_iff, hg.user g hg.lt]
  simp

/-- `fork`: parent and child keep the guard page of the parent. -/
lemma Forked.guardPage (hf : Forked k k' c i f d d' child m') (hic : i ≠ c) (hj : j = i ∨ j = c)
    (hg : GuardPage k c g) : GuardPage k' j g := by
  refine hg.congr ?_ fun q hq => ?_
  · rcases hj with rfl | rfl
    · rw [hf.proc_child]
    · rw [hf.proc_parent hic]
  · rw [hf.pte hic hj hq]
    cases k.pte c q <;> rfl

omit [Layout] in
/-- `exec`: the new program has a guard page. -/
lemma guardPage_of_image {s : Space} (hs : s.guard = some g) (hshows : Shows m' d' s)
    (hown : Private h' d' s) : GuardPage (k.setSpace c m' d' s.sz) c g := by
  have hsz : ((k.setSpace c m' d' s.sz).proc c).sz = s.sz := by rw [setSpace_proc]
  refine ⟨by rw [hsz]; exact hshows.guard g hs, fun q hq => ?_⟩
  rw [hsz] at hq
  obtain ⟨e, he, -⟩ := hshows.mapped q hq
  have hu := (hown q e (hshows.lt hq) he).2.2
  rw [hs, Ne, Option.some.injEq] at hu
  rw [pte_setSpace, if_pos rfl, he, Option.map_some, Option.some.injEq, Bool.eq_iff_iff, hu,
    decide_eq_true_iff]
  exact ne_comm

omit [Layout] in
/-- `sbrk`: the guard page stays while it lies below the new size. -/
lemma Resized.guardPage (hd : (k.proc c).pgdir = some d)
    (hr : Resized n h h' d d' (k.proc c).sz sz' m m' r) (hg : GuardPage k c g)
    (hkeep : n < 0 → 0 ≤ ((k.proc c).sz : ℤ) + n → (g : ℤ) * PGSIZE < (k.proc c).sz + n) :
    GuardPage (k.setSpace c m' d' sz') c g := by
  have hsz : ((k.setSpace c m' d' sz').proc c).sz = sz' := by rw [setSpace_proc]
  have huser : ∀ q, q < PGROUNDUP (k.proc c).sz →
      (d.entry q).map Pte.u = some (decide (q ≠ g)) := fun q hq => by
    rw [← pte_of_pgdir hd, hg.user q hq]
  have hlt := hg.lt
  suffices hnew : g < PGROUNDUP sz' ∧ ∀ q, q < PGROUNDUP sz' →
      (d'.entry q).map Pte.u = some (decide (q ≠ g)) by
    refine ⟨by rw [hsz]; exact hnew.1, fun q hq => ?_⟩
    rw [hsz] at hq
    rw [pte_setSpace, if_pos rfl, hnew.2 q hq]
  cases hr with
  | same _ hdir hsz' _ _ _ =>
    subst hdir hsz'
    exact ⟨hlt, huser⟩
  | grown hn hsz' _ _ _ hfresh =>
    have hmono := PGROUNDUP_mono (show (k.proc c).sz ≤ sz' by omega)
    refine ⟨hlt.trans_le hmono, fun q hq => ?_⟩
    have hq' := hfresh q
    split_ifs at hq' with hin
    · obtain ⟨f', he, -⟩ := hq'
      have hne : q ≠ g := by omega
      rw [he]
      simp [hne]
    · rw [hq', huser q (by omega)]
  | shrunk newsz hn hnew _ hcl _ hsz' _ =>
    have hkeep := hkeep hn (by omega)
    rw [← hnew] at hkeep
    have hne : newsz ≠ 0 := by
      rintro rfl
      simp only [PGSIZE] at hkeep
      omega
    have hbelow : g < PGROUNDUP newsz := by
      simp only [PGROUNDUP, PGSIZE] at hkeep ⊢
      omega
    rw [if_neg hne] at hsz'
    subst hsz'
    have hmono := PGROUNDUP_mono (show sz' ≤ (k.proc c).sz by omega)
    refine ⟨hbelow, fun q hq => ?_⟩
    have hq' := hcl q
    rw [if_neg (by omega)] at hq'
    rw [hq', huser q (by omega)]

end

/-- The loaded programs have guard pages. -/
def Guards (k : Kernel) (L : Set Slot) : Prop :=
  ∀ i ∈ L, (k.proc i).state ≠ .unused ∧ ∃ g, GuardPage k i g

omit [Layout] in
lemma KeepsGuard.lowFaults {L : Set Slot} {op : Op} (hs : KeepsGuard (k, L) op) :
    LowFaults k op := by
  cases op with
  | sbrk c n => trivial
  | _ => exact hs

omit [Layout] in
/-- A process that has not just been loaded keeps its guard page, and one that has been gets one. -/
lemma Guards.next {op : Op} {r : Reply} {L : Set Slot} (hL : Guards k L)
    (hold : ∀ i j g, (k'.proc i).state ≠ .unused → origin k op r i = some j →
      (k.proc j).state ≠ .unused → j ∈ L → GuardPage k j g → GuardPage k' i g)
    (hnew : ∀ i, origin k op r i = none → ∃ g, GuardPage k' i g) :
    Guards k' (loaded k op r k' L) := fun i hi => by
  refine ⟨hi.1, ?_⟩
  cases ho : origin k op r i with
  | none => exact hnew i ho
  | some j =>
    obtain ⟨hlive, g, hg⟩ := hL j (hi.2 j ho)
    exact ⟨g, hold i j g hi.1 ho hlive (hi.2 j ho) hg⟩

/-- **An effect** keeps the guard pages, by the condition on the operation. -/
lemma Effect.guards (h : Inv R k) {op : Op} {r : Reply} (he : Enabled k op) {L : Set Slot}
    (hs : KeepsGuard (k, L) op) (hL : Guards k L) (heff : Effect k k' op r) :
    Guards k' (loaded k op r k' L) := by
  cases heff with
  | same horigin hproc _ =>
    refine hL.next (fun i j g _ hj _ _ hg => ?_) fun i hnone => ?_
    · obtain rfl := Option.some.inj ((horigin i).symm.trans hj)
      exact hg.of_proc (by rw [hproc])
    · exact absurd ((horigin i).symm.trans hnone) (by simp)
  | booted i₀ f d m' hi₀ hk _ _ =>
    refine hL.next (fun i j g _ hj hlive _ hg => ?_) fun i hnone => absurd hnone (by simp [origin])
    obtain rfl := Option.some.inj hj
    -- the slot of the new process was unused
    have hne : i ≠ i₀ := by
      rintro rfl
      exact hlive hi₀
    exact hg.of_proc (by rw [hk, booted_other k f d m' hne])
  | @forked c i₀ f d d' child m' hi₀ hfork =>
    have hic := ne_of_unused he hi₀
    refine hL.next (fun i j g hi hj _ _ hg => ?_) fun i hnone => ?_
    · simp only [origin] at hj
      split_ifs at hj with hunused
      · obtain rfl := Option.some.inj hj
        rcases eq_or_ne i i₀ with rfl | hne
        · exact hfork.guardPage hic (Or.inl rfl) hg
        · rw [hfork.proc_other hne (ne_of_unused he hunused)] at hi
          exact absurd hunused hi
      · obtain rfl := Option.some.inj hj
        have hne : i ≠ i₀ := by
          rintro rfl
          exact hunused hi₀
        rcases eq_or_ne i c with rfl | hne'
        · exact hfork.guardPage hic (Or.inr rfl) hg
        · exact hg.of_proc (hfork.proc_other hne hne')
    · simp only [origin] at hnone
      split_ifs at hnone
  | image elf s d d' m' himage _ hk hshows hown _ =>
    obtain ⟨g, hguard⟩ := Space.guard_of_image himage
    subst hk
    refine hL.next (fun i j g _ hj _ _ hg => ?_) fun i hnone => ?_
    · simp only [origin, and_true] at hj
      split_ifs at hj with hi
      obtain rfl := Option.some.inj hj
      exact hg.of_proc (setSpace_other hi _ _ _)
    · simp only [origin, and_true] at hnone
      split_ifs at hnone with hi
      subst hi
      exact ⟨g, guardPage_of_image hguard hshows hown⟩
  | @resized c n _ d d' sz' m' hd hk hr =>
    obtain ⟨-, d₀, -, hd₀, hok⟩ := h.live (c := c) (by rw [he.1]; simp)
    subst hk
    refine hL.next (fun i j g _ hj _ hmem hg => ?_) fun i hnone => absurd hnone (by simp [origin])
    obtain rfl := Option.some.inj hj
    rcases eq_or_ne i c with rfl | hne
    · refine hr.guardPage hd hg fun hn hin => ?_
      exact (hs hmem hn).1 hin g (hg.lt.trans_le (PGROUNDUP_le hok.le)) hg.closed
    · exact hg.of_proc (setSpace_other hne _ _ _)
  | @exited c hk =>
    refine hL.next (fun i j g _ hj _ _ hg => ?_) fun i hnone => absurd hnone (by simp [origin])
    obtain rfl := Option.some.inj hj
    obtain ⟨-, hp, hsz, -⟩ := exited_proc k c i
    subst hk
    exact hg.congr hsz fun q _ => by rw [Kernel.pte, Kernel.pte, hp]
  | reaped i₀ m' hk =>
    refine hL.next (fun i j g hi hj _ _ hg => ?_) fun i hnone => absurd hnone (by simp [origin])
    obtain rfl := Option.some.inj hj
    subst hk
    -- the slot of the process that is reaped is unused
    have hne : i ≠ i₀ := by
      rintro rfl
      rw [reaped_self] at hi
      exact hi rfl
    exact hg.of_proc (reaped_other hne m')

/-- **One operation** that keeps the guard pages, by its condition. -/
lemma perform_guards (hR : ∀ f ∈ R, Kmem.Usable f) (h : Inv R k) {op : Op} (he : Enabled k op)
    {L : Set Slot} (hs : KeepsGuard (k, L) op) (hL : Guards k L) :
    Wp (perform op) (fun _ => True) (fun r k' => Guards k' (loaded k op r k' L)) k := by
  rcases op.access_or with ⟨c, va, user, a, n, rfl⟩ | hop
  · refine (access_user hR h he.1 hs).bind fun r k' hk' => wp_pure (hL.next
      (fun i j g _ hj _ _ hg => ?_) fun i hnone => absurd hnone (by simp [origin]))
    obtain rfl := Option.some.inj hj
    exact hg.congr (hk'.2.sz i) fun q _ => hk'.2.user i q
  · exact (perform_effect hR h he hop).mono (fun _ _ hk' => hk'.2.guards h he hs hL)
      fun _ _ => trivial

/-! ### Runs -/

/-- The recorded runs from the free list `free` whose operations keep the guard pages. -/
def GuardReach (free : List ℕ) : Kernel × Set Slot → Prop :=
  Reachable (LoadBoot free) (Guarded LoadStep KeepsGuard)

lemma LoadStep.guards {free : List ℕ} (hfree : FreeList free) {s s' : Kernel × Set Slot} {op : Op}
    (hinv : Inv {f | f ∈ free} s.1) (hg : Guards s.1 s.2) (h : LoadStep s op s')
    (hs : KeepsGuard s op) : Inv {f | f ∈ free} s'.1 ∧ Guards s'.1 s'.2 := by
  obtain ⟨he, r, hr, hrecord⟩ := h
  refine ⟨((perform_closed hfree.usable hinv he (KeepsGuard.lowFaults hs)).ok hr).1, ?_⟩
  rw [hrecord]
  exact (perform_guards hfree.usable hinv he hs hg).ok hr

lemma GuardReach.guards {free : List ℕ} (hfree : FreeList free) {s : Kernel × Set Slot}
    (h : GuardReach free s) : Inv {f | f ∈ free} s.1 ∧ Guards s.1 s.2 := by
  refine Reachable.invariant (I := fun s => Inv {f | f ∈ free} s.1 ∧ Guards s.1 s.2)
    (fun s hs => ⟨Inv.boot hs.1, fun i hi => ?_⟩)
    (fun s op s' hs hstep => hstep.1.guards hfree hs.1 hs.2 hstep.2) h
  rw [hs.2] at hi
  exact hi.elim

/-- A successful `sbrk` by `n` pages changes the number of pages by `n`, unless it asks for more
than the process has. -/
lemma growproc_pages (hR : ∀ f ∈ R, Kmem.Usable f) (h : Inv R k) {n : ℤ}
    (he : Enabled k (.sbrk c (n * PGSIZE)))
    (hs : n < 0 → 0 ≤ ((k.proc c).sz : ℤ) + n * PGSIZE)
    (hr : perform (.sbrk c (n * PGSIZE)) k = .ok (.value 0, k')) :
    (k'.proc c).state = (k.proc c).state ∧
      (PGROUNDUP (k'.proc c).sz : ℤ) = PGROUNDUP (k.proc c).sz + n := by
  have hspec := (growproc_spec hR h he.1 he.2.1 he.2.2).bind
    (f := fun r => (pure (.value r) : KM Reply)) (Q := fun r k' => r = .value 0 →
      (k'.proc c).state = (k.proc c).state ∧
        (PGROUNDUP (k'.proc c).sz : ℤ) = PGROUNDUP (k.proc c).sz + n) fun r k' hk' => wp_pure ?_
  · exact hspec.ok hr rfl
  intro hzero
  injection hzero with hzero
  obtain ⟨-, d, d', sz', m', -, rfl, hresized⟩ := hk'
  rw [setSpace_proc]
  refine ⟨rfl, ?_⟩
  show (PGROUNDUP sz' : ℤ) = _
  simp only [PGSIZE] at hs hresized
  push_cast at hs hresized
  cases hresized with
  | same _ _ hsz hgrow _ hshrink =>
    rcases lt_trichotomy n 0 with hn | rfl | hn
    · exact absurd (hshrink (by omega)) (not_lt.mpr (hs hn))
    · rw [hsz, add_zero]
    · exact absurd (hzero.symm.trans (hgrow (by omega)).2) (by decide)
  | grown _ hsz _ _ _ _ =>
    simp only [PGROUNDUP, PGSIZE]
    push_cast
    omega
  | shrunk newsz _ hnew _ _ _ hsz hr =>
    have hne : newsz ≠ 0 := by
      rintro rfl
      rw [if_pos rfl] at hr
      exact absurd (hzero.symm.trans hr) (by decide)
    rw [if_neg hne] at hsz
    rw [hsz]
    simp only [PGROUNDUP, PGSIZE]
    push_cast
    omega

/-- **The two page counters agree**, for every program that `exec` loaded, in every run whose
operations keep the guard pages; and a successful `sbrk` by `n` pages that keeps them changes both
by `n`. -/
theorem counters_agree {free : List ℕ} (hfree : FreeList free) {s : Kernel × Set Slot}
    (h : GuardReach free s) :
    (∀ i ∈ s.2, ∃ m, Agree s.1 i m) ∧
      ∀ c ∈ s.2, ∀ (n : ℤ) (k' : Kernel), Enabled s.1 (.sbrk c (n * PGSIZE)) →
        KeepsGuard s (.sbrk c (n * PGSIZE)) →
        perform (.sbrk c (n * PGSIZE)) s.1 = .ok (.value 0, k') →
        ∃ m m' : ℕ, Agree s.1 c m ∧ Agree k' c m' ∧ (m' : ℤ) = m + n := by
  obtain ⟨hinv, hguards⟩ := h.guards hfree
  have hagree : ∀ {s : Kernel × Set Slot}, Inv {f | f ∈ free} s.1 → Guards s.1 s.2 → ∀ i ∈ s.2,
      Agree s.1 i (PGROUNDUP (s.1.proc i).sz) := fun hinv hguards i hi => by
    obtain ⟨hlive, g, hg⟩ := hguards i hi
    exact hg.agree hinv hlive
  refine ⟨fun i hi => ⟨_, hagree hinv hguards i hi⟩, fun c hc n k' he hs hr => ?_⟩
  have hwhole : n < 0 → 0 ≤ ((s.1.proc c).sz : ℤ) + n * PGSIZE := fun hn => by
    by_contra hneg
    have hless : n * (PGSIZE : ℤ) < 0 := by
      simp only [PGSIZE]
      omega
    exact (hs hc hless).2 (not_le.mp hneg) (Dvd.intro_left n rfl)
  -- the process runs its program after the call, too
  have hstep : LoadStep s (.sbrk c (n * PGSIZE))
      (k', loaded s.1 (.sbrk c (n * PGSIZE)) (.value 0) k' s.2) := ⟨he, _, hr, rfl⟩
  obtain ⟨hinv', hguards'⟩ := hstep.guards hfree hinv hguards hs
  obtain ⟨hstate, hpages⟩ := growproc_pages hfree.usable hinv he hwhole hr
  have hlive : (k'.proc c).state ≠ .unused := by
    rw [hstate, he.1]
    simp
  exact ⟨_, _, hagree hinv hguards c hc, hagree hinv' hguards' c ⟨hlive, fun j hj => by
    obtain rfl := Option.some.inj hj
    exact hc⟩, hpages⟩

omit [Layout] in
lemma loadStep_of_step [Layout] {s : Kernel × Set Slot} {op : Op} {r : Reply} (he : Enabled s.1 op)
    (hr : perform op s.1 = .ok (r, k')) : LoadStep s op (k', loaded s.1 op r k' s.2) :=
  ⟨he, r, hr, rfl⟩

/-- With enough free pages the first process loads a program and forks, in runs of any condition
that allows it. -/
lemma exists_loaded {n : ℕ} {free : List ℕ} (hfree : FreeList free)
    (hn : 3 * NPTENTRIES + n + 8 ≤ free.length) {C : Kernel × Set Slot → Op → Prop}
    (hinit : ∀ s, C s (.userinit [])) (hexec : ∀ s, C s (.exec 0 (some Elf.blank) []))
    (hfork : ∀ s, C s (.fork 0)) :
    ∃ s k f d d' child m', Reachable (LoadBoot free) (Guarded LoadStep C) s ∧
      0 ∈ s.2 ∧ 1 ∈ s.2 ∧ Inv {f | f ∈ free} s.1 ∧ (k.proc 0).state = .runnable ∧
      (k.proc 0).sz = 2 * PGSIZE ∧
      (∀ q, q < 2 → ∃ e, d.entry q = some e ∧ k.holders e.pfn = 1 ∧ (e.u = true ↔ q ≠ 0)) ∧
      Forked k s.1 0 1 f d d' child m' ∧ Supply s.1.mem.alloc n := by
  have hboot : Boot free (Kernel.boot free fun _ => zeroPage) := ⟨hfree, _, rfl⟩
  obtain ⟨k₁, k₂, d, ⟨he₁, r₁, hr₁⟩, he₂, hr₂, hinv₂, hrun, hsz, hd, hpages, hfirst, hs₂⟩ :=
    firstExec_ok (n := NPTENTRIES + n + 2) hfree (by omega)
  have htwo : PGROUNDUP (k₂.proc 0).sz = 2 := by rw [hsz, PGROUNDUP_mul]
  obtain ⟨k₃, ⟨he₃, r₃, hr₃⟩, hinv₃, ⟨f', d', child, m', hforked⟩, hs₃⟩ :=
    fork_ok (n := n) hfree.usable hinv₂ hrun hfirst hd (fun q hq => by
      obtain ⟨e, he, -⟩ := hpages q (by omega)
      rw [he]
      rfl) hs₂
  have hstart : Reachable (LoadBoot free) (Guarded LoadStep C)
      (Kernel.boot free fun _ => zeroPage, ∅) := .start ⟨hboot, rfl⟩
  have hreach := ((hstart.next ⟨loadStep_of_step he₁ hr₁, hinit _⟩).next
    ⟨loadStep_of_step he₂ hr₂, hexec _⟩).next ⟨loadStep_of_step he₃ hr₃, hfork _⟩
  have hunused : (k₂.proc 1).state = .unused := slots_find hfirst
  have hloaded : ∀ {L : Set Slot}, 0 ∈ loaded k₁ (.exec 0 (some Elf.blank) []) (.value 0) k₂ L := by
    intro L
    refine ⟨by rw [hrun]; simp, fun j hj => ?_⟩
    simp [origin] at hj
  refine ⟨_, k₂, f', d, d', child, m', hreach, ⟨?_, fun j hj => ?_⟩, ⟨?_, fun j hj => ?_⟩, hinv₃,
    hrun, hsz, hpages, hforked, hs₃⟩
  · show (k₃.proc 0).state ≠ .unused
    rw [hforked.proc_parent (by decide)]
    show (k₂.proc 0).state ≠ .unused
    rw [hrun]
    simp
  · simp only [origin, hrun, reduceCtorEq, if_false] at hj
    obtain rfl := Option.some.inj hj
    exact hloaded
  · show (k₃.proc 1).state ≠ .unused
    rw [hforked.proc_child]
    simp
  · simp only [origin, hunused, if_true] at hj
    obtain rfl := Option.some.inj hj
    exact hloaded

omit [Layout] in
/-- The first process and its child run a program. -/
theorem counters_agree_loaded : ∃ s, @GuardReach Layout.sample sampleFree s ∧ 0 ∈ s.2 ∧ 1 ∈ s.2 ∧
    ∀ i ∈ s.2, ∃ m, Agree s.1 i m := by
  obtain ⟨s, _, _, _, _, _, _, hs, hparent, hchild, -⟩ :=
    @exists_loaded Layout.sample 0 _ sampleFree_freeList
      (by rw [sampleFree, List.length_range']; decide) KeepsGuard (fun _ => trivial)
      (fun _ => trivial) fun _ => trivial
  exact ⟨s, hs, hparent, hchild, (@counters_agree Layout.sample _ sampleFree_freeList s hs).1⟩

/-- **A write to a shared guard page** opens it: then the counters of the process differ. -/
lemma exists_not_agree {free : List ℕ} (hfree : FreeList free)
    (hn : 3 * NPTENTRIES + 9 ≤ free.length) :
    ∃ s, Reachable (LoadBoot free) (Guarded LoadStep fun s => BelowSz s.1) s ∧
      0 ∈ s.2 ∧ ∀ m, ¬Agree s.1 0 m := by
  obtain ⟨s, k, f, d, d', child, m', hs, hloaded, -, hinv, hrun, hsz, hpages, hforked, hsupply⟩ :=
    exists_loaded (n := 1) (C := fun s => BelowSz s.1) hfree hn (fun _ => trivial)
      (fun _ => trivial) fun _ => trivial
  have htwo : PGROUNDUP (k.proc 0).sz = 2 := by rw [hsz, PGROUNDUP_mul]
  have hself := hforked.proc_parent (by decide)
  have hd' := hforked.parent_pgdir (by decide)
  obtain ⟨e, he, hone, hu⟩ := hpages 0 (by decide)
  obtain ⟨e₁, he₁, -, hu₁⟩ := hpages 1 (by decide)
  have hentry : ∀ q, q < 2 → d'.entry q = (d.entry q).map Pte.readOnly := fun q hq => by
    rw [hforked.parent q, if_pos (by rw [htwo]; exact hq)]
  have hmany : 1 < s.1.holders e.pfn := by
    have hcount := hforked.count e.pfn (by omega)
    have huser := one_le_userHolds (by decide) he
    omega
  have he' : d'.entry (0 / PGSIZE) = some (Pte.readOnly e) := by
    rw [Nat.zero_div, hentry 0 (by decide), he]
    rfl
  -- the fault gives the process a copy that is open
  obtain ⟨hfew, -⟩ | ⟨-, g, l, -, hfault⟩ | ⟨hempty, -⟩ :=
    hinv.fault_user hfree.usable hd' he' (show 0 < s.1.holders e.pfn by omega)
  · exact absurd hfew hmany.ne'
  swap
  · have hle := hsupply.le
    rw [hempty] at hle
    exact absurd hle (by simp)
  set d₁ := d'.setEntry (0 / PGSIZE) (some ⟨g, true, true⟩) with hd₁
  set k₁ := s.1.setSpace 0 (copied s.1.mem (Pte.readOnly e) g l) d₁ (s.1.proc 0).sz with hk₁
  have hself₁ : k₁.proc 0 = { s.1.proc 0 with pgdir := some d₁, sz := (s.1.proc 0).sz } := by
    rw [hk₁, setSpace_proc]
  have hentry₁ : d₁.entry = Function.update d'.entry (0 / PGSIZE) (some ⟨g, true, true⟩) :=
    PageDir.setEntry_entry d' (d'.table_isSome_of_entry he') _
  have hretry : access 0 0 true (.store 1) 2 s.1 = access 0 0 true (.store 1) 1 k₁ :=
    (access_retry hd' (fun e₀ he₀ => by
      obtain rfl := Option.some.inj (he'.symm.trans he₀)
      simp [Pte.allows]) 1).trans (bind_ok hfault)
  have hstore : access 0 0 true (.store 1) 1 k₁ = .ok (some 1, k₁.setMem (k₁.mem.put g
      (Function.update (k₁.mem.pages g) (0 % PGSIZE) 1))) :=
    access_store (d := d₁) (by rw [hself₁]) (e := ⟨g, true, true⟩)
      (by rw [hentry₁, Function.update_self]) rfl 0
  set k₂ := k₁.setMem (k₁.mem.put g (Function.update (k₁.mem.pages g) (0 % PGSIZE) 1)) with hk₂
  have hrun' : (s.1.proc 0).state = .runnable := by
    rw [hself]
    exact hrun
  have hop : perform (.access 0 0 true (.store 1) 2) s.1 = .ok (.byte 1, k₂) := by
    rw [perform, bind_ok (hretry.trans hstore)]
    rfl
  have henabled : Enabled s.1 (.access 0 0 true (.store 1) 2) := ⟨hrun', by decide⟩
  have hsz₂ : PGROUNDUP (k₂.proc 0).sz = 2 := by
    show PGROUNDUP (k₁.proc 0).sz = 2
    rw [hself₁]
    show PGROUNDUP (s.1.proc 0).sz = 2
    rw [hself]
    exact htwo
  refine ⟨_, hs.next ⟨loadStep_of_step henabled hop, ?_⟩, ⟨?_, fun j hj => ?_⟩,
    not_agree (d := d₁) ?_ (by rw [hsz₂]; decide) fun q hq => ?_⟩
  · show 0 < (s.1.proc 0).sz
    rw [hself]
    show 0 < (k.proc 0).sz
    rw [hsz]
    decide
  · show (k₁.proc 0).state ≠ .unused
    rw [hself₁]
    show (s.1.proc 0).state ≠ .unused
    rw [hrun']
    simp
  · obtain rfl := Option.some.inj hj
    exact hloaded
  · show (k₁.proc 0).pgdir = some d₁
    rw [hself₁]
  · rw [hsz₂] at hq
    obtain rfl | rfl : q = 0 ∨ q = 1 := by omega
    · rw [hentry₁, Nat.zero_div, Function.update_self]
      rfl
    · rw [hentry₁, Nat.zero_div, Function.update_of_ne (by decide), hentry 1 (by decide), he₁]
      exact hu₁.mpr (by decide)

omit [Layout] in
/-- Not in every run the counters agree. -/
theorem counters_disagree : ¬∀ s, Reachable (@LoadBoot Layout.sample sampleFree)
    (Guarded (@LoadStep Layout.sample) fun s => BelowSz s.1) s → ∀ i ∈ s.2, ∃ m, Agree s.1 i m := by
  intro hall
  obtain ⟨s, hs, hmem, hnot⟩ := @exists_not_agree Layout.sample _ sampleFree_freeList
    (by rw [sampleFree, List.length_range']; decide)
  obtain ⟨m, hm⟩ := hall s hs 0 hmem
  exact hnot m hm

end Xv6Projects.Cow
