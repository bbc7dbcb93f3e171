import Mathlib.Tactic
import Mathlib.Algebra.BigOperators.Pi
import Xv6Projects.Vm.Mapping

/-!
# The reference-counting page allocator (project04)

`kalloc.c` keeps a free list and, for every physical page, the number of its users.  Here
the functions are modelled, and specified by a function `h` that says how many holders each
page has.
-/

namespace Xv6Projects.Cow

open Library Vm

/-- `kmem` and `pgRef`. -/
structure Kmem where
  freelist : List ℕ
  pgRef : ℕ → ℤ

/-- The number of counters: `P2PG(PHYSTOP)`. -/
def NPAGE : ℕ := PHYSTOP / PGSIZE

/-- The counter that `kalloc` reads when the free list is empty: `P2PG(V2P(0))`. -/
def nullPage : ℕ := (2 ^ 32 - KERNBASE) / PGSIZE

namespace Kmem

/-- `get_refc`. -/
def getRefc (a : Kmem) (f : ℕ) : Except Err ℤ :=
  if f < NPAGE then .ok (a.pgRef f) else .error (.outOfTable f)

/-- `incr_refc`. -/
def incrRefc (a : Kmem) (f : ℕ) : Except Err Kmem := do
  let r ← a.getRefc f
  return { a with pgRef := Function.update a.pgRef f (r + 1) }

/-- `decr_refc`. -/
def decrRefc (a : Kmem) (f : ℕ) : Except Err Kmem := do
  let r ← a.getRefc f
  if r = 0 then throw (.panic "can't decrease pgRef")
  else return { a with pgRef := Function.update a.pgRef f (r - 1) }

/-- `kalloc`. -/
def kalloc (a : Kmem) : Except Err (Option ℕ × Kmem) := do
  let r := a.freelist.head?
  let a := { a with freelist := a.freelist.tail }
  let pg := r.getD nullPage
  if (← a.getRefc pg) = 0 then
    let a ← a.incrRefc pg
    return (r, a)
  else throw (.panic "kalloc: not freelist")

/-- `kfree` of page `f`, and whether the page became free. -/
def kfree [Layout] (a : Kmem) (f : ℕ) : Except Err (Bool × Kmem) := do
  if KERNBASE + f * PGSIZE < Layout.kend ∨ PHYSTOP ≤ f * PGSIZE then throw (.panic "kfree")
  else
    let r ← a.getRefc f
    if r < 0 then throw (.panic "kfree: page reference")
    else
      let a ← if 0 < r then a.decrRefc f else pure a
      if (← a.getRefc f) = 0 then return (true, { a with freelist := f :: a.freelist })
      else return (false, a)

/-- `countfp`. -/
def countfp (a : Kmem) : ℕ := a.freelist.length

lemma getRefc_of_lt {a : Kmem} {f : ℕ} (hf : f < NPAGE) : a.getRefc f = .ok (a.pgRef f) :=
  if_pos hf

lemma getRefc_of_ge {a : Kmem} {f : ℕ} (hf : ¬f < NPAGE) :
    a.getRefc f = .error (.outOfTable f) :=
  if_neg hf

lemma incrRefc_of_lt {a : Kmem} {f : ℕ} (hf : f < NPAGE) :
    a.incrRefc f = .ok { a with pgRef := Function.update a.pgRef f (a.pgRef f + 1) } := by
  simp only [incrRefc, getRefc_of_lt hf]
  rfl

lemma decrRefc_of_lt {a : Kmem} {f : ℕ} (hf : f < NPAGE) (hr : a.pgRef f ≠ 0) :
    a.decrRefc f = .ok { a with pgRef := Function.update a.pgRef f (a.pgRef f - 1) } := by
  simp only [decrRefc, getRefc_of_lt hf]
  exact if_neg hr

lemma kalloc_nil {a : Kmem} (h : a.freelist = []) :
    a.kalloc = .error (.outOfTable nullPage) := by
  have hnull : ¬nullPage < NPAGE := by decide
  simp only [kalloc, h, List.head?_nil, Option.getD_none, getRefc_of_ge hnull]
  rfl

lemma kalloc_cons {a : Kmem} {f : ℕ} {l : List ℕ} (h : a.freelist = f :: l) (hf : f < NPAGE)
    (hr : a.pgRef f = 0) : a.kalloc = .ok (some f,
      { freelist := l, pgRef := Function.update a.pgRef f (a.pgRef f + 1) }) := by
  simp only [kalloc, h, List.head?_cons, List.tail_cons, Option.getD_some, getRefc_of_lt hf,
    incrRefc_of_lt hf]
  exact if_pos hr

lemma kalloc_error {a : Kmem} {e : Err} (h : a.kalloc = .error e) : e.FromAllocator := by
  by_cases hf : a.freelist.head?.getD nullPage < NPAGE
  · simp only [kalloc, getRefc_of_lt hf, incrRefc_of_lt hf] at h
    by_cases hr : a.pgRef (a.freelist.head?.getD nullPage) = 0
    · simp [bind, Except.bind, hr, pure, Except.pure] at h
    · simp [bind, Except.bind, hr, throw, throwThe, MonadExceptOf.throw] at h
      subst h
      simp [Err.FromAllocator]
  · simp only [kalloc, getRefc_of_ge hf] at h
    obtain rfl := Except.error.inj h
    trivial

section
variable [Layout] {a : Kmem} {f : ℕ}

/-- The physical pages that `kfree` accepts. -/
def Usable (f : ℕ) : Prop := Layout.kend ≤ KERNBASE + f * PGSIZE ∧ f < NPAGE

lemma Usable.check (hf : Usable f) :
    ¬(KERNBASE + f * PGSIZE < Layout.kend ∨ PHYSTOP ≤ f * PGSIZE) := by
  obtain ⟨h1, h2⟩ := hf
  have h3 : f < 57344 := h2
  simp only [PHYSTOP, PGSIZE] at h1 ⊢
  omega

lemma Usable.ne_zero (hf : Usable f) : f ≠ 0 := by
  rintro rfl
  have h1 := hf.1
  have h2 := Layout.kernlink_lt
  have h3 := Layout.data_le
  simp only [KERNLINK, EXTMEM] at h2
  omega

/-- The page loses one of several holders. -/
lemma kfree_shared (hf : Usable f) (hr : 1 < a.pgRef f) : a.kfree f =
    .ok (false, { a with pgRef := Function.update a.pgRef f (a.pgRef f - 1) }) := by
  have h1 : ¬a.pgRef f < 0 := by omega
  have h2 : 0 < a.pgRef f := by omega
  have h3 : a.pgRef f - 1 ≠ 0 := by omega
  simp only [kfree, if_neg hf.check, getRefc_of_lt hf.2, bind, Except.bind, if_neg h1, if_pos h2,
    decrRefc_of_lt hf.2 h2.ne', Function.update_self, if_neg h3]
  rfl

/-- The page loses its last holder, or had none. -/
lemma kfree_last (hf : Usable f) (h0 : 0 ≤ a.pgRef f) (hr : a.pgRef f ≤ 1) : a.kfree f =
    .ok (true, { freelist := f :: a.freelist, pgRef := Function.update a.pgRef f 0 }) := by
  have h1 : ¬a.pgRef f < 0 := by omega
  by_cases h2 : 0 < a.pgRef f
  · have hone : a.pgRef f - 1 = 0 := by omega
    simp only [kfree, if_neg hf.check, getRefc_of_lt hf.2, bind, Except.bind, if_neg h1, if_pos h2,
      decrRefc_of_lt hf.2 h2.ne', Function.update_self, hone, if_true]
    rfl
  · have hzero : a.pgRef f = 0 := by omega
    have hupd : Function.update a.pgRef f 0 = a.pgRef := by
      rw [← hzero, Function.update_eq_self]
    simp only [kfree, if_neg hf.check, getRefc_of_lt hf.2, bind, Except.bind, pure, Except.pure,
      hzero, hupd, lt_irrefl, if_false, if_true]

/-- `kfree` panics, or the free list keeps its pages and may get one more. -/
lemma kfree_cases (a : Kmem) (f : ℕ) :
    (∃ msg, a.kfree f = .error (.panic msg) ∧ (Err.panic msg).FromAllocator) ∨
      Usable f ∧ ∃ r, a.kfree f = .ok r ∧
        (r.2.freelist = a.freelist ∨ r.2.freelist = f :: a.freelist) := by
  by_cases hbad : KERNBASE + f * PGSIZE < Layout.kend ∨ PHYSTOP ≤ f * PGSIZE
  · exact Or.inl ⟨_, if_pos hbad, Or.inl rfl⟩
  · have hf : Usable f := by
      obtain ⟨h1, h2⟩ := not_or.mp hbad
      refine ⟨not_lt.mp h1, ?_⟩
      show f < 57344
      simp only [PHYSTOP, PGSIZE] at h2
      omega
    rcases lt_or_ge (a.pgRef f) 0 with hneg | hneg
    · refine Or.inl ⟨"kfree: page reference", ?_, Or.inr (Or.inl rfl)⟩
      simp only [kfree, if_neg hbad, getRefc_of_lt hf.2, bind, Except.bind, if_pos hneg]
      rfl
    · rcases le_or_gt (a.pgRef f) 1 with hone | hone
      · exact Or.inr ⟨hf, _, kfree_last hf hneg hone, Or.inr rfl⟩
      · exact Or.inr ⟨hf, _, kfree_shared hf hone, Or.inl rfl⟩

lemma kfree_error {e : Err} (h : a.kfree f = .error e) : e.FromAllocator := by
  rcases kfree_cases a f with ⟨msg, hmsg, hfrom⟩ | ⟨-, r, hr, -⟩
  · obtain rfl := Except.error.inj (hmsg.symm.trans h)
    exact hfrom
  · exact absurd (hr.symm.trans h) (by simp)

end

end Kmem

instance [Layout] : Allocator Kmem where
  kalloc := Kmem.kalloc
  kfree := Kmem.kfree
  kalloc_error := Kmem.kalloc_error
  kfree_error := Kmem.kfree_error

/-! ### Holders -/

/-- The pages `R` are managed by the allocator, and page `f` has `h f` holders: the counters
say so, and the free list has the pages without a holder, each once. -/
structure Kmem.Counts (R : Set ℕ) (a : Kmem) (h : ℕ → ℕ) : Prop where
  count : ∀ f, a.pgRef f = h f
  nodup : a.freelist.Nodup
  free : ∀ f, f ∈ a.freelist ↔ f ∈ R ∧ h f = 0
  held : ∀ f, 0 < h f → f ∈ R

/-- The end of a run: a `kalloc` finds no free page. -/
def NoPage (e : Err) : Prop := e = .outOfTable nullPage

variable [Layout] {R : Set ℕ} {m : Mem Kmem} {h : ℕ → ℕ} {f : ℕ}

/-- The page that `kalloc` returns had no holder. -/
lemma kalloc_counts (hR : ∀ f ∈ R, Kmem.Usable f) (hc : m.alloc.Counts R h) :
    Wp kalloc NoPage (fun r m' => ∃ f, r = some f ∧ f ∈ R ∧ h f = 0 ∧
      m'.alloc.Counts R (h + Pi.single f 1) ∧ m'.pages = m.pages) m := by
  cases hl : m.alloc.freelist with
  | nil =>
    have herr : kalloc m = .error (.outOfTable nullPage) := by
      show Except.map _ (Kmem.kalloc m.alloc) = _
      rw [Kmem.kalloc_nil hl]
      rfl
    rw [Wp, herr]
    rfl
  | cons f l =>
    have hmem : f ∈ m.alloc.freelist := by rw [hl]; simp
    obtain ⟨hfR, hf0⟩ := (hc.free f).mp hmem
    have hok : kalloc m = .ok (some f, { m with
        alloc := ⟨l, Function.update m.alloc.pgRef f (m.alloc.pgRef f + 1)⟩ }) := by
      show Except.map _ (Kmem.kalloc m.alloc) = _
      rw [Kmem.kalloc_cons hl (hR f hfR).2 (by rw [hc.count f, hf0]; rfl)]
      rfl
    rw [Wp, hok]
    refine ⟨f, rfl, hfR, hf0, ⟨fun g => ?_, ?_, fun g => ?_, fun g hg => ?_⟩, rfl⟩
    · by_cases hgf : g = f
      · subst hgf
        simp [hc.count g]
      · simp [hgf, hc.count g]
    · have hnd := hc.nodup
      rw [hl] at hnd
      exact (List.nodup_cons.mp hnd).2
    · have hnd := hc.nodup
      rw [hl] at hnd
      have hfl := (List.nodup_cons.mp hnd).1
      by_cases hgf : g = f
      · subst hgf
        simp [hfl]
      · have hfree := hc.free g
        rw [hl, List.mem_cons] at hfree
        simpa [hgf] using hfree
    · by_cases hgf : g = f
      · subst hgf
        exact hfR
      · exact hc.held g (by simpa [hgf] using hg)

/-- `kfree` takes one holder away, and leaves the pages that still have one alone. -/
lemma kfree_counts (hR : ∀ f ∈ R, Kmem.Usable f)
    (hc : m.alloc.Counts R (h + Pi.single f 1)) :
    Wp (kfree f) NoPage (fun _ m' => m'.alloc.Counts R h ∧
      ∀ g, 0 < h g → m'.pages g = m.pages g) m := by
  have hfR : f ∈ R := hc.held f (by simp)
  have hcount : m.alloc.pgRef f = h f + 1 := by simpa using hc.count f
  have hother : ∀ g, g ≠ f → ∀ r, Function.update m.alloc.pgRef f r g = h g := by
    intro g hg r
    rw [Function.update_of_ne hg]
    simpa [hg] using hc.count g
  have hheld : ∀ g, 0 < h g → g ∈ R := by
    intro g hg
    refine hc.held g ?_
    simp only [Pi.add_apply]
    omega
  have hfree : ∀ g, g ≠ f → (g ∈ m.alloc.freelist ↔ g ∈ R ∧ h g = 0) := by
    intro g hg
    simpa [hg] using hc.free g
  have hnot : f ∉ m.alloc.freelist := by
    intro hmem
    have hzero := ((hc.free f).mp hmem).2
    simp at hzero
  by_cases h0 : h f = 0
  · -- the last holder
    have hok : kfree f m = .ok ((), { m with
        alloc := ⟨f :: m.alloc.freelist, Function.update m.alloc.pgRef f 0⟩
        pages := Function.update m.pages f junkPage }) := by
      show Except.map _ (Kmem.kfree m.alloc f) = _
      rw [Kmem.kfree_last (hR f hfR) (by omega) (by omega)]
      rfl
    rw [Wp, hok]
    refine ⟨⟨fun g => ?_, ?_, fun g => ?_, hheld⟩, fun g hg => ?_⟩
    · by_cases hgf : g = f
      · subst hgf
        simp [h0]
      · exact hother g hgf _
    · exact List.nodup_cons.mpr ⟨hnot, hc.nodup⟩
    · by_cases hgf : g = f
      · subst hgf
        simp [hfR, h0]
      · simp [hgf, hfree g hgf]
    · have hgf : g ≠ f := by
        rintro rfl
        omega
      exact Function.update_of_ne hgf _ _
  · have hok : kfree f m = .ok ((), { m with
        alloc := { m.alloc with pgRef := Function.update m.alloc.pgRef f (m.alloc.pgRef f - 1) }
        pages := m.pages }) := by
      show Except.map _ (Kmem.kfree m.alloc f) = _
      rw [Kmem.kfree_shared (hR f hfR) (by omega)]
      rfl
    rw [Wp, hok]
    refine ⟨⟨fun g => ?_, hc.nodup, fun g => ?_, hheld⟩, fun _ _ => rfl⟩
    · by_cases hgf : g = f
      · subst hgf
        show Function.update m.alloc.pgRef g (m.alloc.pgRef g - 1) g = h g
        rw [Function.update_self]
        omega
      · exact hother g hgf _
    · by_cases hgf : g = f
      · subst hgf
        simp [hnot, h0]
      · exact hfree g hgf

end Xv6Projects.Cow
