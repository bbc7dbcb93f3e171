import Xv6Projects.Cow.Holders
import Xv6Projects.Cow.Kernel

/-!
# Pages are shared and copied

`copyuvm` makes the child's entries holders of the parent's pages, and takes `PTE_W` from
both; `CoW_handler` gives it back, after a copy when the page has other holders.
-/

namespace Xv6Projects.Cow

open Library Vm Finset

/-- An entry without `PTE_W`. -/
def Pte.readOnly (e : Pte) : Pte := { e with w := false }

@[simp] lemma Pte.readOnly_pfn (e : Pte) : (Pte.readOnly e).pfn = e.pfn := rfl
@[simp] lemma Pte.readOnly_w (e : Pte) : (Pte.readOnly e).w = false := rfl
@[simp] lemma Pte.readOnly_u (e : Pte) : (Pte.readOnly e).u = e.u := rfl

/-- The entries from `v` up to `last` are those of `d` without `PTE_W`, the others are those
of `c`. -/
def ReadOnly (d c c' : PageDir) (v last : ℕ) : Prop :=
  ∀ q, c'.entry q = if v ≤ q ∧ q < last then (d.entry q).map Pte.readOnly else c.entry q

lemma userHolds_readOnly {d d' : PageDir} {v last : ℕ} (h : ReadOnly d d d' v last) :
    userHolds d' = userHolds d := by
  refine sum_congr rfl fun q _ => ?_
  rw [h q]
  by_cases hq : v ≤ q ∧ q < last
  · rw [if_pos hq]
    cases d.entry q <;> rfl
  · rw [if_neg hq]

lemma holds_readOnly {d d' : PageDir} {v last : ℕ} (h : ReadOnly d d d' v last)
    (hframe : d'.frame = d.frame) (htable : d'.table = d.table) : holds d' = holds d := by
  rw [holds, holds, userHolds_readOnly h, dirHolds, dirHolds, hframe, htable]

/-- One more page at the front. -/
lemma ReadOnly.cons {d d₁ c c₁ c' : PageDir} {v last : ℕ} {e : Pte} (hlt : v < last)
    (he : d.entry v = some e) (hd : ∀ q, q ≠ v → d₁.entry q = d.entry q)
    (hc : c₁.entry = Function.update c.entry v (some (Pte.readOnly e)))
    (h : ReadOnly d₁ c₁ c' (v + 1) last) : ReadOnly d c c' v last := by
  intro q
  rw [h q]
  by_cases hq : q = v
  · subst hq
    rw [if_neg (by omega), if_pos ⟨le_rfl, hlt⟩, hc, Function.update_self, he]
    rfl
  · rw [hd q hq, hc, Function.update_of_ne hq]
    by_cases hin : v + 1 ≤ q ∧ q < last
    · rw [if_pos hin, if_pos (by omega)]
    · rw [if_neg hin, if_neg (by omega)]

lemma Grows.of_add {h h' s : ℕ → ℕ} {m m' : Mem Kmem} (hg : Grows (h + s) (h' + s) m m') :
    Grows h h' m m' := by
  have hpos : ∀ g, 0 < h g → 0 < (h + s) g := fun g hg => Nat.add_pos_left hg _
  refine ⟨fun g hg' => ?_, fun g hg' => hg.pages g (hpos g hg')⟩
  have hcount := hg.count g (hpos g hg')
  simp only [Pi.add_apply] at hcount
  omega

variable [Layout] {R : Set ℕ} {m : Mem Kmem} {hr : ℕ → ℕ} {d c : PageDir} {E : Err → Prop}

/-- `incr_refc` adds a holder to a page that has one. -/
lemma incrRefc_counts (hR : ∀ f ∈ R, Kmem.Usable f) {h : ℕ → ℕ} {f : ℕ} (hf : 0 < h f)
    (hc : m.alloc.Counts R h) :
    Wp (incrRefc f) E (fun _ m' => m'.alloc.Counts R (h + Pi.single f 1) ∧ m'.pages = m.pages)
      m := by
  have hfR := hc.held f hf
  have hok : incrRefc f m = .ok ((), { m with
      alloc := { m.alloc with pgRef := Function.update m.alloc.pgRef f (m.alloc.pgRef f + 1) } }) := by
    rw [incrRefc, Kmem.incrRefc_of_lt (hR f hfR).2]
    rfl
  rw [Wp, hok]
  refine ⟨⟨fun g => ?_, hc.nodup, fun g => ?_, fun g hg => ?_⟩, rfl⟩
  · show Function.update m.alloc.pgRef f (m.alloc.pgRef f + 1) g = _
    rcases eq_or_ne g f with rfl | hgf
    · simp [hc.count g]
    · simp [hgf, hc.count g]
  · rcases eq_or_ne g f with rfl | hgf
    · simp [hc.free g, hf.ne']
    · simp [hgf, hc.free g]
  · rcases eq_or_ne g f with rfl | hgf
    · exact hfR
    · exact hc.held g (by simpa [hgf] using hg)

/-- `decr_refc` takes a holder from a page that has others. -/
lemma decrRefc_counts (hR : ∀ f ∈ R, Kmem.Usable f) {h : ℕ → ℕ} {f : ℕ} (hf : 0 < h f)
    (hc : m.alloc.Counts R (h + Pi.single f 1)) :
    Wp (decrRefc f) E (fun _ m' => m'.alloc.Counts R h ∧ m'.pages = m.pages) m := by
  have hfR := hc.held f (by simp)
  have hcount : m.alloc.pgRef f = h f + 1 := by simpa using hc.count f
  have hok : decrRefc f m = .ok ((), { m with
      alloc := { m.alloc with pgRef := Function.update m.alloc.pgRef f (m.alloc.pgRef f - 1) } }) := by
    rw [decrRefc, Kmem.decrRefc_of_lt (hR f hfR).2 (by omega)]
    rfl
  rw [Wp, hok]
  refine ⟨⟨fun g => ?_, hc.nodup, fun g => ?_, fun g hg => ?_⟩, rfl⟩
  · show Function.update m.alloc.pgRef f (m.alloc.pgRef f - 1) g = _
    rcases eq_or_ne g f with rfl | hgf
    · rw [Function.update_self]
      omega
    · rw [Function.update_of_ne hgf, hc.count g]
      simp [hgf]
  · have hfree := hc.free g
    rcases eq_or_ne g f with rfl | hgf
    · simpa [hf.ne'] using hfree
    · simpa [hgf] using hfree
  · exact hc.held g (by simp only [Pi.add_apply]; omega)

/-! ### copyuvm -/

/-- What `copyuvm` does with the pages from `v` up to `last`: `d'` and `c'` map those of `d`,
read-only. -/
structure CopiedTo (R : Set ℕ) (hr : ℕ → ℕ) (d d' c c' : PageDir) (v last : ℕ) (m' : Mem Kmem) :
    Prop where
  present : ∀ q, v ≤ q → q < last → (d.entry q).isSome
  parent : ReadOnly d d d' v last
  frame : d'.frame = d.frame
  table : d'.table = d.table
  child : ReadOnly d c c' v last
  counts : m'.alloc.Counts R (hr + holds d' + holds c')

/-- The errors of `copyuvm` from page `v` on. -/
structure CopyErr (E : Err → Prop) (d : PageDir) (v last : ℕ) : Prop where
  noPage : ∀ e, NoPage e → E e
  missing : (∃ q, v ≤ q ∧ q < last ∧ d.entry q = none) → ∀ e, Clean e → E e

lemma copyLoop_counts (hR : ∀ f ∈ R, Kmem.Usable f) (n : ℕ) :
    ∀ (d c : PageDir) (v : ℕ) (m : Mem Kmem), v + n ≤ NUPAGE →
      (∀ q, v ≤ q → q < v + n → c.entry q = none) → CopyErr E d v (v + n) →
      m.alloc.Counts R (hr + holds d + holds c) →
      Wp (copyLoop d c v n) E (fun r m' => ∃ c', r.1 = some c' ∧
        CopiedTo R hr d r.2 c c' v (v + n) m' ∧
        Grows (hr + holds d + holds c) (hr + holds d + userHolds c + dirHolds c') m m') m := by
  induction n with
  | zero =>
    intro d c v m _ _ _ hc
    refine wp_pure ⟨c, rfl, ⟨fun q hq hq' => by omega, fun q => ?_, rfl, rfl, fun q => ?_, hc⟩, ?_⟩
    · rw [if_neg (by omega)]
    · rw [if_neg (by omega)]
    · have heq : hr + holds d + holds c = hr + holds d + userHolds c + dirHolds c := by
        rw [holds.eq_1 c]
        abel
      rw [← heq]
      exact Grows.refl _ _
  | succ n ih =>
    intro d c v m hv hnone herr hc
    have hmiss : d.entry v = none → ∀ msg, Clean (.panic msg) → E (.panic msg) :=
      fun h msg => herr.missing ⟨v, le_rfl, by omega, h⟩ _
    unfold copyLoop
    cases hp : d.pde (PDX v) with
    | none =>
      refine wp_throw (hmiss (by rw [PageDir.entry, hp]; rfl) _ ?_)
      simp [Clean, Err.FromAllocator]
    | some t =>
      cases he : d.entry v with
      | none =>
        refine wp_throw (hmiss he _ ?_)
        simp [Clean, Err.FromAllocator]
      | some e =>
        have hset := PageDir.setEntry_entry d (d.table_isSome_of_entry he) (some (Pte.readOnly e))
        have hother : ∀ q, q ≠ v → (d.setEntry v (some (Pte.readOnly e))).entry q = d.entry q :=
          fun q hq => by rw [hset, Function.update_of_ne hq]
        have hvlt : v < NUPAGE := by omega
        have hholds : holds (d.setEntry v (some (Pte.readOnly e))) = holds d := by
          have hupd := userHolds_update hvlt hset
          rw [he] at hupd
          rw [holds, holds, dirHolds_setEntry, add_right_cancel hupd]
        have hsplit : hr + holds d + holds c = hr + holds d + userHolds c + dirHolds c := by
          rw [holds.eq_1 c]
          abel
        rw [hsplit] at hc
        have hstep := mappages_page_counts hR (Pte.readOnly e).w e.u (f := e.pfn)
          (hvlt.trans (by decide)) (hnone v le_rfl (by omega)) hc
        refine (hstep.mono (fun _ _ h => h) herr.noPage).bind fun r m₁ hr₁ => ?_
        obtain ⟨ok, c₁⟩ := r
        obtain ⟨rfl, hentry, hc₁, hg₁⟩ := hr₁
        -- the page has a holder: the entry of the parent
        have hheld : 0 < (hr + holds d + userHolds c + dirHolds c₁) e.pfn := by
          have hle := one_le_userHolds hvlt he
          simp only [Pi.add_apply, holds]
          omega
        refine (incrRefc_counts hR hheld hc₁).bind fun _ m₂ hm₂ => ?_
        obtain ⟨hc₂, hpages₂⟩ := hm₂
        have huser : userHolds c₁ = userHolds c + Pi.single e.pfn 1 := by
          have hupd := userHolds_update hvlt hentry
          rwa [hnone v le_rfl (by omega), Option.map_none, one_none, add_zero] at hupd
        have hsum : hr + holds d + userHolds c + dirHolds c₁ + Pi.single e.pfn 1 =
            hr + holds (d.setEntry v (some (Pte.readOnly e))) + holds c₁ := by
          rw [hholds, holds.eq_1 c₁, huser]
          abel
        rw [hsum] at hc₂
        have herr' : CopyErr E (d.setEntry v (some (Pte.readOnly e))) (v + 1) (v + 1 + n) := by
          refine ⟨herr.noPage, fun hmiss => ?_⟩
          obtain ⟨q, hq, hq', hnone'⟩ := hmiss
          refine herr.missing ⟨q, by omega, by omega, ?_⟩
          rwa [← hother q (by omega)]
        refine (ih _ c₁ (v + 1) m₂ (by omega) (fun q hq hq' => ?_) herr' hc₂).post
          fun r m₃ hr₃ => ?_
        · rw [hentry, Function.update_of_ne (by omega)]
          exact hnone q (by omega) (by omega)
        obtain ⟨c', hok, hcopy, hg₂⟩ := hr₃
        have hlast : v + 1 + n = v + (n + 1) := by omega
        rw [hlast] at hcopy
        refine ⟨c', hok, ⟨fun q hq hq' => ?_, ?_, ?_, ?_, ?_, hcopy.counts⟩, ?_⟩
        · rcases eq_or_ne q v with rfl | hqv
          · rw [he]
            rfl
          · rw [← hother q hqv]
            exact hcopy.present q (by omega) hq'
        · exact ReadOnly.cons (by omega) he hother hset hcopy.parent
        · rw [hcopy.frame, PageDir.setEntry_frame]
        · rw [hcopy.table, PageDir.setEntry_table]
        · exact ReadOnly.cons (by omega) he hother hentry hcopy.child
        · -- the pages of new page tables are the only ones that get a holder of their own
          have hg₂ : Grows (hr + holds d + holds c₁) (hr + holds d + userHolds c₁ + dirHolds c')
              m₁ m₃ := by
            rw [hholds] at hg₂
            exact ⟨hg₂.count, fun g hg => by rw [hg₂.pages g hg, hpages₂]⟩
          have hleft : hr + holds d + holds c₁ =
              hr + holds d + userHolds c + dirHolds c₁ + Pi.single e.pfn 1 := by
            rw [holds.eq_1 c₁, huser]
            abel
          have hright : hr + holds d + userHolds c₁ + dirHolds c' =
              hr + holds d + userHolds c + dirHolds c' + Pi.single e.pfn 1 := by
            rw [huser]
            abel
          rw [hleft, hright] at hg₂
          rw [hsplit]
          exact hg₁.trans hg₂.of_add

/-- **`copyuvm`**: the child's page directory maps the pages of the parent, and both map them
read-only. -/
lemma copyuvm_counts (hR : ∀ f ∈ R, Kmem.Usable f) {sz : ℕ} (hsz : sz ≤ KERNBASE)
    (herr : CopyErr E d 0 (PGROUNDUP sz)) (hc : m.alloc.Counts R (hr + holds d)) :
    Wp (copyuvm d sz) E (fun r m' => ∃ c₀ c, r.1 = some c ∧ c₀.entry = kernelEntry kmap ∧
      CopiedTo R hr d r.2 c₀ c 0 (PGROUNDUP sz) m' ∧
      Grows (hr + holds d) (hr + holds d + dirHolds c) m m') m := by
  unfold copyuvm
  refine ((setupkvm_counts hR hc).mono (fun _ _ h => h) herr.noPage).bind fun r m₁ hr₁ => ?_
  obtain ⟨c₀, rfl, hentry, hc₁, hg₁⟩ := hr₁
  have huser : userHolds c₀ = 0 := userHolds_eq_zero fun q hq => by
    rw [hentry]
    exact kernelEntry_user hq
  have hholds : holds c₀ = dirHolds c₀ := by rw [holds, huser, add_zero]
  have hlast := PGROUNDUP_le hsz
  rw [← hholds] at hc₁
  have hloop := copyLoop_counts hR (PGROUNDUP sz) d c₀ 0 m₁ (by omega) (fun q _ hq => ?_)
    (by rwa [Nat.zero_add]) hc₁
  · refine hloop.post fun r m₂ hr₂ => ?_
    obtain ⟨c, hok, hcopy, hg₂⟩ := hr₂
    rw [Nat.zero_add] at hcopy
    rw [huser, add_zero, hholds] at hg₂
    exact ⟨c₀, c, hok, hentry, hcopy, hg₁.trans hg₂⟩
  · rw [hentry]
    exact kernelEntry_user (lt_of_lt_of_le (by omega) hlast)

/-! ### CoW_handler -/

/-- What `CoW_handler` does to the entry `e` of a user page `v`. -/
inductive Handled (h : ℕ → ℕ) (d d' : PageDir) (v : ℕ) (e : Pte) (m m' : Mem Kmem) : Prop
  /-- The page has no other holder. -/
  | write (hone : h e.pfn = 1) (hentry : d'.entry = Function.update d.entry v (some { e with w := true }))
      (hmem : m' = m)
  /-- The page has other holders, and is copied to page `f`. -/
  | copy (f : ℕ) (hmany : 1 < h e.pfn) (hf : h f = 0)
      (hentry : d'.entry = Function.update d.entry v (some ⟨f, true, true⟩))
      (hpages : m'.pages = Function.update m.pages f (m.pages e.pfn))

/-- **`CoW_handler`** for a fault in the user half. -/
lemma cowHandler_counts (hR : ∀ f ∈ R, Kmem.Usable f) {va : ℕ} (hva : va / PGSIZE < NUPAGE)
    (hE : ∀ e, NoPage e → E e) (hmiss : d.entry (va / PGSIZE) = none → ∀ e, Clean e → E e)
    (hc : m.alloc.Counts R (hr + holds d)) :
    Wp (cowHandler d va) E (fun d' m' => d'.frame = d.frame ∧ d'.table = d.table ∧
      m'.alloc.Counts R (hr + holds d') ∧
      ∃ e, d.entry (va / PGSIZE) = some e ∧ Handled (hr + holds d) d d' (va / PGSIZE) e m m') m := by
  unfold cowHandler
  generalize va / PGSIZE = v at hva hmiss ⊢
  cases hp : d.pde (PDX v) with
  | none =>
    refine wp_throw (hmiss (by rw [PageDir.entry, hp]; rfl) _ ?_)
    simp [Clean, Err.FromAllocator]
  | some t =>
    cases he : d.entry v with
    | none =>
      refine wp_throw (hmiss he _ ?_)
      simp [Clean, Err.FromAllocator]
    | some e =>
      have htable := d.table_isSome_of_entry he
      have hheld : 0 < (hr + holds d) e.pfn := by
        have hle := one_le_userHolds hva he
        simp only [Pi.add_apply, holds]
        omega
      have hread : Wp (getRefc e.pfn) E (fun r m' => r = (hr + holds d) e.pfn ∧ m' = m) m := by
        have hok : getRefc e.pfn m = .ok (m.alloc.pgRef e.pfn, m) := by
          rw [getRefc, Kmem.getRefc_of_lt (hR _ (hc.held _ hheld)).2]
          rfl
        rw [Wp, hok]
        exact ⟨hc.count _, rfl⟩
      refine hread.bind fun r m₁ hr₁ => ?_
      obtain ⟨hcount, rfl⟩ := hr₁
      refine wp_ite (fun hmany => ?_) fun hmany => ?_
      · -- a copy for this process
        rw [hcount, Nat.one_lt_cast] at hmany
        refine ((kalloc_counts hR hc).mono (fun _ _ h => h) hE).bind fun r m₂ hr₂ => ?_
        obtain ⟨f, rfl, -, hf, hc₂, hpages₂⟩ := hr₂
        have hset := PageDir.setEntry_entry d htable (some ⟨f, true, true⟩)
        have hupd := userHolds_update hva hset
        rw [he] at hupd
        -- the holder moves from the old frame to the copy, every other count stays
        have hsum : hr + holds d + Pi.single f 1 =
            hr + holds (d.setEntry v (some ⟨f, true, true⟩)) + Pi.single e.pfn 1 := by
          simp only [Option.map_some, one_some] at hupd
          rw [holds, holds, dirHolds_setEntry, add_assoc, add_assoc, add_assoc, add_assoc, hupd]
        rw [hsum] at hc₂
        refine wp_bind (wp_getPage (wp_bind (wp_setPage ?_)))
        have hpos : 0 < (hr + holds (d.setEntry v (some ⟨f, true, true⟩))) e.pfn := by
          have happ := congrFun hsum e.pfn
          have hfe : e.pfn ≠ f := by
            rintro rfl
            omega
          simp only [Pi.add_apply, Pi.single_eq_same, Pi.single_eq_of_ne hfe] at happ
          simp only [Pi.add_apply] at hmany ⊢
          omega
        refine (decrRefc_counts (m := m₂.put f (m₂.pages e.pfn)) hR hpos hc₂).bind
          fun _ m₃ hm₃ => ?_
        refine wp_pure ⟨d.setEntry_frame _ _, d.setEntry_table _ _, hm₃.1, e, rfl, ?_⟩
        refine .copy f hmany hf hset ?_
        rw [hm₃.2, Mem.put_pages, hpages₂]
      · -- the page has no other holder
        refine wp_ite (fun hone => ?_) fun hone => ?_
        · have hset := PageDir.setEntry_entry d htable (some { e with w := true })
          have hupd := userHolds_update hva hset
          rw [he] at hupd
          have hholds : holds (d.setEntry v (some { e with w := true })) = holds d := by
            rw [holds, holds, dirHolds_setEntry, add_right_cancel hupd]
          refine wp_pure ⟨d.setEntry_frame _ _, d.setEntry_table _ _, ?_, e, rfl, ?_⟩
          · rwa [hholds]
          · exact .write (by omega) hset rfl
        · omega

end Xv6Projects.Cow
