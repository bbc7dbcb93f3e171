import Mathlib.Tactic
import Xv6Projects.Vm.PageTable

/-!
# What the functions of `vm.c` do to the entries of a page directory

These facts hold for every allocator: they speak of virtual pages and their entries only.
An allocator may fail in its own ways; none of the functions fails in another way, as
long as the pages to be mapped are free.
-/

namespace Xv6Projects.Vm

open Library

variable {A : Type} [Allocator A] {E : Err → Prop} {m : Mem A} {d : PageDir}

/-- The errors of the allocator are allowed. -/
def AllowsAllocator (E : Err → Prop) : Prop := ∀ e, e.FromAllocator → E e

lemma kalloc_any (hE : AllowsAllocator E) : Wp (kalloc (A := A)) E (fun _ _ => True) m := by
  unfold Wp kalloc
  cases h : Allocator.kalloc m.alloc with
  | ok r => trivial
  | error e => exact hE e (Allocator.kalloc_error h)

lemma kfree_any (hE : AllowsAllocator E) (f : ℕ) : Wp (kfree (A := A) f) E (fun _ _ => True) m := by
  unfold Wp kfree
  cases h : Allocator.kfree m.alloc f with
  | ok r => trivial
  | error e => exact hE e (Allocator.kfree_error h)

/-- The page directory that `walkpgdir` returns has the same entries, and the page table
of `v`. -/
lemma walkpgdir_entry (hE : AllowsAllocator E) (v : ℕ) (alloc : Bool) :
    Wp (walkpgdir d v alloc) E (fun r _ => ∀ d', r = some d' →
      d'.entry = d.entry ∧ (d'.table (PDX v)).isSome) m := by
  unfold walkpgdir
  cases hp : d.pde (PDX v) with
  | some t =>
    refine wp_pure fun d' hd' => ?_
    obtain rfl := Option.some.inj hd'
    exact ⟨rfl, by simp [PageDir.table, hp]⟩
  | none =>
    refine wp_ite (fun _ => wp_pure (by simp)) fun _ => ?_
    refine (kalloc_any hE).bind fun r m' _ => ?_
    cases r with
    | none => exact wp_pure (by simp)
    | some f =>
      refine wp_pure fun d' hd' => ?_
      obtain rfl := Option.some.inj hd'
      refine ⟨PageDir.addTable_entry d (by simp [PageDir.table, hp]) f, ?_⟩
      simp [PageDir.addTable_table]

/-- The first `k` of the pages from `v` on are mapped to the pages from `pa` on. -/
def MappedTo (d d' : PageDir) (v pa : ℕ) (w u : Bool) (k : ℕ) : Prop :=
  ∀ q, d'.entry q = if v ≤ q ∧ q < v + k then some ⟨pa + (q - v), w, u⟩ else d.entry q

lemma mapLoop_entry (hE : AllowsAllocator E) (w u : Bool) (n : ℕ) :
    ∀ (d : PageDir) (v pa : ℕ) (m : Mem A), (∀ q, v ≤ q → q < v + n → d.entry q = none) →
      Wp (mapLoop d v pa w u n) E (fun r _ => ∃ k, k ≤ n ∧ (r.1 = true → k = n) ∧
        MappedTo d r.2 v pa w u k) m := by
  induction n with
  | zero =>
    intro d v pa m _
    refine wp_pure ⟨0, le_rfl, fun _ => rfl, fun q => ?_⟩
    rw [if_neg (by omega)]
  | succ n ih =>
    intro d v pa m hnone
    unfold mapLoop
    refine (walkpgdir_entry hE v true).bind fun r m' hr => ?_
    cases r with
    | none =>
      refine wp_pure ⟨0, Nat.zero_le _, fun h => absurd h (by simp), fun q => ?_⟩
      rw [if_neg (by omega)]
    | some d₁ =>
      obtain ⟨hentry, htable⟩ := hr d₁ rfl
      have hv : d₁.entry v = none := by
        rw [hentry]
        exact hnone v le_rfl (by omega)
      refine wp_ite (fun h => absurd h (by simp [hv])) fun _ => ?_
      have hset := PageDir.setEntry_entry d₁ htable (some ⟨pa, w, u⟩)
      refine (ih _ (v + 1) (pa + 1) m' fun q hq hq' => ?_).post fun r _ hr => ?_
      · rw [hset, Function.update_of_ne (by omega), hentry]
        exact hnone q (by omega) (by omega)
      · obtain ⟨k, hk, hfull, hmap⟩ := hr
        refine ⟨k + 1, by omega, fun h => by rw [hfull h], fun q => ?_⟩
        rw [hmap q, hset]
        by_cases hq : q = v
        · subst hq
          rw [if_neg (by omega), if_pos (by omega), Function.update_self, Nat.sub_self,
            Nat.add_zero]
        · rw [Function.update_of_ne hq, hentry]
          by_cases hin : v + 1 ≤ q ∧ q < v + 1 + k
          · rw [if_pos hin, if_pos (by omega)]
            have hsub : pa + 1 + (q - (v + 1)) = pa + (q - v) := by omega
            rw [hsub]
          · rw [if_neg hin, if_neg (by omega)]

/-- One page is mapped, or the entries stay. -/
lemma mappages_page_entry (hE : AllowsAllocator E) {v f : ℕ} (w u : Bool)
    (hnone : d.entry v = none) :
    Wp (mappages d (v * PGSIZE) PGSIZE (f * PGSIZE) w u) E (fun r _ =>
      (r.1 = true → r.2.entry = Function.update d.entry v (some ⟨f, w, u⟩)) ∧
      (r.1 = false → r.2.entry = d.entry ∨
        r.2.entry = Function.update d.entry v (some ⟨f, w, u⟩))) m := by
  have hv : v * PGSIZE / PGSIZE = v := Nat.mul_div_cancel v (by decide)
  have hf : f * PGSIZE / PGSIZE = f := Nat.mul_div_cancel f (by decide)
  have hlast : (v * PGSIZE + PGSIZE - 1) / PGSIZE = v := by
    simp only [PGSIZE]
    omega
  unfold mappages
  rw [hv, hf, hlast, Nat.sub_self, Nat.zero_add]
  refine (mapLoop_entry hE w u 1 d v f m fun q hq hq' => ?_).post fun r _ hr => ?_
  · obtain rfl : q = v := by omega
    exact hnone
  · obtain ⟨k, hk, hfull, hmap⟩ := hr
    have hone : k = 1 → r.2.entry = Function.update d.entry v (some ⟨f, w, u⟩) := by
      rintro rfl
      funext q
      rw [hmap q]
      by_cases hq : q = v
      · subst hq
        rw [if_pos (by omega), Function.update_self, Nat.sub_self, Nat.add_zero]
      · rw [if_neg (by omega), Function.update_of_ne hq]
    refine ⟨fun h => hone (hfull h), fun _ => ?_⟩
    rcases Nat.le_one_iff_eq_zero_or_eq_one.mp hk with rfl | rfl
    · refine Or.inl (funext fun q => ?_)
      rw [hmap q, if_neg (by omega)]
    · exact Or.inr (hone rfl)

/-- The entries of the pages from `v` up to `last` are cleared. -/
def Cleared (d d' : PageDir) (v last : ℕ) : Prop :=
  ∀ q, d'.entry q = if v ≤ q ∧ q < last then none else d.entry q

lemma entry_none_of_pde {v : ℕ} (h : d.pde (PDX v) = none) {q : ℕ} (hq : v ≤ q)
    (hq' : q < (PDX v + 1) * NPTENTRIES) : d.entry q = none := by
  have hpdx : PDX q = PDX v := by
    simp only [PDX, NPTENTRIES] at hq' ⊢
    omega
  rw [PageDir.entry, hpdx, h]
  rfl

lemma deallocLoop_entry (hE : AllowsAllocator E) (d : PageDir) (v last : ℕ) :
    ∀ m : Mem A, Wp (deallocLoop d v last) E (fun d' _ => Cleared d d' v last) m := by
  induction d, v using deallocLoop.induct last with
  | case1 d v hlt hpde ih =>
    intro m
    rw [deallocLoop, if_pos hlt]
    simp only [hpde]
    refine (ih m).post fun d' _ hd' q => ?_
    have hjump : v < (PDX v + 1) * NPTENTRIES := by
      simp only [PDX, NPTENTRIES]
      omega
    rw [hd' q]
    by_cases hq : v ≤ q ∧ q < (PDX v + 1) * NPTENTRIES
    · rw [entry_none_of_pde hpde hq.1 hq.2, ite_self, ite_self]
    · by_cases hin : v ≤ q ∧ q < last
      · rw [if_pos hin, if_pos (by omega)]
      · rw [if_neg hin, if_neg (by omega)]
  | case2 d v hlt t hpde hnone ih =>
    intro m
    rw [deallocLoop, if_pos hlt]
    simp only [hpde, hnone]
    refine (ih m).post fun d' _ hd' q => ?_
    rw [hd' q]
    by_cases hq : q = v
    · subst hq
      rw [if_neg (by omega), if_pos (by omega), hnone]
    · by_cases hin : v ≤ q ∧ q < last
      · rw [if_pos hin, if_pos (by omega)]
      · rw [if_neg hin, if_neg (by omega)]
  | case3 d v hlt t hpde e hsome hzero =>
    intro m
    rw [deallocLoop, if_pos hlt]
    simp only [hpde, hsome]
    rw [if_pos hzero]
    exact wp_throw (hE _ (Or.inl rfl))
  | case4 d v hlt t hpde e hsome hpfn ih =>
    intro m
    rw [deallocLoop, if_pos hlt]
    simp only [hpde, hsome]
    rw [if_neg hpfn]
    refine (kfree_any hE e.pfn).bind fun _ m' _ => ?_
    refine (ih m').post fun d' _ hd' q => ?_
    rw [hd' q, PageDir.setEntry_entry d (d.table_isSome_of_entry hsome)]
    by_cases hq : q = v
    · subst hq
      rw [if_neg (by omega), if_pos (by omega), Function.update_self]
    · rw [Function.update_of_ne hq]
      by_cases hin : v ≤ q ∧ q < last
      · rw [if_pos hin, if_pos (by omega)]
      · rw [if_neg hin, if_neg (by omega)]
  | case5 d v hle =>
    intro m
    rw [deallocLoop, if_neg hle]
    refine wp_pure fun q => ?_
    rw [if_neg (by omega)]

lemma PGROUNDUP_mono {a b : ℕ} (h : a ≤ b) : PGROUNDUP a ≤ PGROUNDUP b :=
  Nat.div_le_div_right (by omega)

lemma deallocuvm_entry (hE : AllowsAllocator E) (oldsz newsz : ℕ) :
    Wp (deallocuvm d oldsz newsz) E (fun r _ => r.1 = (if oldsz ≤ newsz then oldsz else newsz) ∧
      Cleared d r.2 (PGROUNDUP newsz) (PGROUNDUP oldsz)) m := by
  unfold deallocuvm
  refine wp_ite (fun h => ?_) fun h => ?_
  · refine wp_pure ⟨by rw [if_pos h], fun q => ?_⟩
    have hle := PGROUNDUP_mono h
    rw [if_neg (by omega)]
  · refine (deallocLoop_entry hE d _ _ m).bind fun d' m' hd' => ?_
    exact wp_pure ⟨by rw [if_neg h], hd'⟩

/-! ### The kernel half -/

/-- The pages that a line of `kmap` maps. -/
def Kmap.Covers (k : Kmap) (q : ℕ) : Prop :=
  k.virt / PGSIZE ≤ q ∧ q ≤ (k.virt + k.size - 1) / PGSIZE

instance (k : Kmap) (q : ℕ) : Decidable (k.Covers q) := inferInstanceAs (Decidable (_ ∧ _))

/-- The entry that a line of `kmap` gives to a page it covers. -/
def Kmap.pte (k : Kmap) (q : ℕ) : Pte := ⟨k.physStart / PGSIZE + (q - k.virt / PGSIZE), k.w, false⟩

/-- The entry of page `q` in a page directory with the lines `ks`. -/
def kernelEntry (ks : List Kmap) (q : ℕ) : Option Pte :=
  (ks.find? fun k => k.Covers q).map fun k => k.pte q

lemma freeTables_any (hE : AllowsAllocator E) (is : List ℕ) (d : PageDir) :
    ∀ m : Mem A, Wp (freeTables d is) E (fun _ _ => True) m := by
  induction is with
  | nil => exact fun m => wp_pure trivial
  | cons i is ih =>
    intro m
    unfold freeTables
    cases d.pde i with
    | none => exact wp_bind (wp_pure (ih m))
    | some t => exact (kfree_any hE t.frame).bind fun _ m' _ => ih m'

lemma freevm_any (hE : AllowsAllocator E) : Wp (freevm d) E (fun _ _ => True) m := by
  unfold freevm
  generalize List.range NPTENTRIES = is
  refine (deallocuvm_entry hE KERNBASE 0).bind fun r m' _ => ?_
  exact (freeTables_any hE is r.2 m').bind fun _ m'' _ => kfree_any hE d.frame

/-- A line of `kmap` is mapped. -/
lemma mappages_kmap_entry (hE : AllowsAllocator E) (k : Kmap)
    (hsize : k.virt / PGSIZE ≤ (k.virt + k.size - 1) / PGSIZE)
    (hfree : ∀ q, k.Covers q → d.entry q = none) :
    Wp (mappages d k.virt k.size k.physStart k.w false) E (fun r _ => r.1 = true →
      ∀ q, r.2.entry q = if k.Covers q then some (k.pte q) else d.entry q) m := by
  unfold mappages
  refine (mapLoop_entry hE k.w false _ d _ _ m fun q hq hq' => ?_).post fun r _ hr hok q => ?_
  · exact hfree q ⟨hq, by omega⟩
  · obtain ⟨n, hn, hfull, hmap⟩ := hr
    rw [hmap q, hfull hok]
    by_cases hc : k.Covers q
    · obtain ⟨h1, h2⟩ := hc
      rw [if_pos ⟨h1, by omega⟩, if_pos ⟨h1, h2⟩]
      rfl
    · have hout : ¬(k.virt / PGSIZE ≤ q ∧ q < k.virt / PGSIZE +
          ((k.virt + k.size - 1) / PGSIZE - k.virt / PGSIZE + 1)) :=
        fun h => hc ⟨h.1, by omega⟩
      rw [if_neg hout, if_neg hc]

lemma mapKernel_entry (hE : AllowsAllocator E) (ks : List Kmap)
    (hsize : ∀ k ∈ ks, k.virt / PGSIZE ≤ (k.virt + k.size - 1) / PGSIZE)
    (hdisj : ks.Pairwise fun k k' => ∀ q, k.Covers q → ¬k'.Covers q) :
    ∀ (d : PageDir) (m : Mem A), (∀ k ∈ ks, ∀ q, k.Covers q → d.entry q = none) →
      Wp (mapKernel d ks) E (fun r _ => ∀ d', r = some d' →
        ∀ q, d'.entry q = (kernelEntry ks q).or (d.entry q)) m := by
  induction ks with
  | nil =>
    intro d m _
    refine wp_pure fun d' hd' q => ?_
    obtain rfl := Option.some.inj hd'
    rfl
  | cons k ks ih =>
    intro d m hfree
    obtain ⟨hk, hdisj'⟩ := List.pairwise_cons.mp hdisj
    unfold mapKernel
    refine (mappages_kmap_entry hE k (hsize k (by simp)) (hfree k (by simp))).bind
      fun r m' hr => ?_
    obtain ⟨ok, d₁⟩ := r
    cases ok with
    | false => exact (freevm_any hE).bind fun _ m'' _ => wp_pure (by simp)
    | true =>
      have hd₁ := hr rfl
      refine (ih (fun k' hk' => hsize k' (by simp [hk'])) hdisj' d₁ m' fun k' hk' q hq => ?_).post
        fun r _ hr d' hd' q => ?_
      · rw [hd₁ q, if_neg fun h => hk k' hk' q h hq]
        exact hfree k' (by simp [hk']) q hq
      · rw [hr d' hd' q, hd₁ q]
        by_cases hc : k.Covers q
        · have hrest : kernelEntry ks q = none := by
            refine Option.map_eq_none_iff.mpr (List.find?_eq_none.mpr fun k' hk' => ?_)
            simpa using hk k' hk' q hc
          have hfirst : kernelEntry (k :: ks) q = some (k.pte q) := by
            simp [kernelEntry, hc]
          rw [hrest, hfirst, if_pos hc]
          rfl
        · have hskip : kernelEntry (k :: ks) q = kernelEntry ks q := by
            simp [kernelEntry, hc]
          rw [hskip, if_neg hc]

section Kernel
variable [Layout]

lemma kmap_size : ∀ k ∈ kmap, k.virt / PGSIZE ≤ (k.virt + k.size - 1) / PGSIZE := by
  have h1 := Layout.data_aligned
  have h2 := Layout.kernlink_lt
  have h3 := Layout.data_le
  have h4 := Layout.kend_lt
  simp only [PGSIZE, KERNLINK, KERNBASE, EXTMEM, PHYSTOP] at h1 h2 h3 h4
  simp only [kmap, List.mem_cons, List.not_mem_nil, or_false, forall_eq_or_imp, forall_eq,
    Kmap.size, PGSIZE, KERNLINK, KERNBASE, EXTMEM, PHYSTOP, DEVSPACE]
  omega

lemma kmap_disjoint : kmap.Pairwise fun k k' => ∀ q, k.Covers q → ¬k'.Covers q := by
  have h1 := Layout.data_aligned
  have h2 := Layout.kernlink_lt
  have h3 := Layout.data_le
  have h4 := Layout.kend_lt
  simp only [PGSIZE, KERNLINK, KERNBASE, EXTMEM, PHYSTOP] at h1 h2 h3 h4
  simp only [kmap, List.pairwise_cons, List.mem_cons, List.not_mem_nil, or_false,
    forall_eq_or_imp, forall_eq, Kmap.Covers, Kmap.size, PGSIZE, KERNLINK, KERNBASE, EXTMEM,
    PHYSTOP, DEVSPACE]
  refine ⟨⟨?_, ?_, ?_⟩, ⟨?_, ?_⟩, ?_, by simp⟩ <;> intro q <;> omega

/-- `kmap` covers no user page. -/
lemma kernelEntry_user {q : ℕ} (hq : q < KERNBASE / PGSIZE) : kernelEntry kmap q = none := by
  have h2 := Layout.kernlink_lt
  refine Option.map_eq_none_iff.mpr (List.find?_eq_none.mpr fun k hk => ?_)
  have hvirt : KERNBASE ≤ k.virt := by
    simp only [kmap, List.mem_cons, List.not_mem_nil, or_false] at hk
    rcases hk with rfl | rfl | rfl | rfl
    · exact le_rfl
    · exact Nat.le_add_right _ _
    · exact (Nat.le_add_right _ _).trans h2.le
    · decide
  have hle : KERNBASE / PGSIZE ≤ k.virt / PGSIZE := Nat.div_le_div_right hvirt
  intro hc
  exact absurd (hle.trans (of_decide_eq_true hc).1) (not_le.mpr hq)

/-- **`setupkvm`** returns a page directory with the entries of `kmap` and no others. -/
lemma setupkvm_entry (hE : AllowsAllocator E) :
    Wp (setupkvm (A := A)) E (fun r _ => ∀ d, r = some d → d.entry = kernelEntry kmap) m := by
  unfold setupkvm
  refine (kalloc_any hE).bind fun r m' _ => ?_
  cases r with
  | none => exact wp_pure (by simp)
  | some f =>
    refine (mapKernel_entry hE kmap kmap_size kmap_disjoint _ m' fun _ _ q _ => rfl).post
      fun r _ hr d hd => ?_
    funext q
    rw [hr d hd q]
    simp

end Kernel

end Xv6Projects.Vm
