import Xv6Projects.Cow.Spec

/-!
# Enough free pages

How many pages an operation takes from the free list at most; with that many free pages it
does not run out of memory.  A page directory can take one page for each page table that it
does not have yet.
-/

namespace Xv6Projects.Cow

open Library Vm Finset

/-- There are `n` free pages. -/
structure Supply (a : Kmem) (n : ℕ) : Prop where
  le : n ≤ a.freelist.length
  usable : ∀ f ∈ a.freelist, f < NPAGE

/-- Any error but the end of the free pages. -/
def NotEmpty (e : Err) : Prop := ¬NoPage e

/-- The number of page tables that a page directory does not have. -/
def missing (d : PageDir) : ℕ := ((range NPTENTRIES).filter fun i => d.table i = none).card

lemma missing_le (d : PageDir) : missing d ≤ NPTENTRIES := by
  have hle := card_filter_le (range NPTENTRIES) fun i => d.table i = none
  rwa [card_range] at hle

lemma missing_setEntry (d : PageDir) (v : ℕ) (e : Option Pte) :
    missing (d.setEntry v e) = missing d := by
  simp only [missing, PageDir.setEntry_table]

lemma missing_addTable {d : PageDir} {i : ℕ} (hi : i < NPTENTRIES) (hnone : d.table i = none)
    (f : ℕ) : missing (d.addTable i f) + 1 = missing d := by
  have hmem : i ∈ (range NPTENTRIES).filter fun j => d.table j = none :=
    mem_filter.mpr ⟨mem_range.mpr hi, hnone⟩
  have hset : ((range NPTENTRIES).filter fun j => (d.addTable i f).table j = none) =
      ((range NPTENTRIES).filter fun j => d.table j = none).erase i := by
    ext j
    rw [PageDir.addTable_table, mem_erase, mem_filter, mem_filter]
    rcases eq_or_ne j i with rfl | hj
    · simp
    · simp [hj]
  rw [missing, missing, hset, card_erase_add_one hmem]

variable [Layout] {m : Mem Kmem} {n r : ℕ} {d : PageDir}

omit [Layout] in
lemma Supply.mono (h : Supply m.alloc n) (hle : r ≤ n) : Supply m.alloc r :=
  ⟨hle.trans h.le, h.usable⟩

lemma kalloc_supply (h : Supply m.alloc (n + 1)) :
    Wp kalloc NotEmpty (fun r m' => r.isSome ∧ Supply m'.alloc n) m := by
  cases hl : m.alloc.freelist with
  | nil =>
    have hle := h.le
    rw [hl] at hle
    exact absurd hle (by simp)
  | cons f l =>
    have hlt : f < NPAGE := h.usable f (by rw [hl]; simp)
    have hle := h.le
    rw [hl, List.length_cons] at hle
    rcases eq_or_ne (m.alloc.pgRef f) 0 with hzero | hne
    · have hok : kalloc m = .ok (some f, { m with
          alloc := ⟨l, Function.update m.alloc.pgRef f (m.alloc.pgRef f + 1)⟩ }) := by
        show Except.map _ (Kmem.kalloc m.alloc) = _
        rw [Kmem.kalloc_cons hl hlt hzero]
        rfl
      rw [Wp, hok]
      exact ⟨rfl, by simpa using hle, fun g hg => h.usable g (by rw [hl]; exact List.mem_cons_of_mem _ hg)⟩
    · have herr : kalloc m = .error (.panic "kalloc: not freelist") := by
        show Except.map _ (Kmem.kalloc m.alloc) = _
        have hk : Kmem.kalloc m.alloc = .error (.panic "kalloc: not freelist") := by
          simp only [Kmem.kalloc, hl, List.head?_cons, Option.getD_some, Kmem.getRefc_of_lt hlt]
          exact if_neg hne
        rw [hk]
        rfl
      rw [Wp, herr]
      simp [NotEmpty, NoPage]

lemma kfree_supply (h : Supply m.alloc n) (f : ℕ) :
    Wp (kfree f) NotEmpty (fun _ m' => Supply m'.alloc n) m := by
  rcases Kmem.kfree_cases m.alloc f with ⟨msg, hmsg, -⟩ | ⟨hf, r, hr, hfree⟩
  · have herr : kfree f m = .error (.panic msg) := by
      show Except.map _ (Kmem.kfree m.alloc f) = _
      rw [hmsg]
      rfl
    rw [Wp, herr]
    simp [NotEmpty, NoPage]
  · have hok : kfree f m = .ok ((), { m with
        alloc := r.2
        pages := if r.1 then Function.update m.pages f junkPage else m.pages }) := by
      show Except.map _ (Kmem.kfree m.alloc f) = _
      rw [hr]
      rfl
    rw [Wp, hok]
    have hle := h.le
    rcases hfree with hfree | hfree
    · exact ⟨by rw [hfree]; exact hle, by rw [hfree]; exact h.usable⟩
    · refine ⟨by rw [hfree, List.length_cons]; omega, fun g hg => ?_⟩
      rw [hfree] at hg
      rcases List.mem_cons.mp hg with rfl | hg
      · exact hf.2
      · exact h.usable g hg

/-! ### Page tables -/

lemma walkpgdir_supply {v : ℕ} (hv : v < NVPAGE) (h : Supply m.alloc (missing d + r)) :
    Wp (walkpgdir d v true) NotEmpty (fun o m' => ∃ d', o = some d' ∧
      Supply m'.alloc (missing d' + r)) m := by
  unfold walkpgdir
  cases hp : d.pde (PDX v) with
  | some t => exact wp_pure ⟨d, rfl, h⟩
  | none =>
    refine wp_ite (fun h => absurd h (by simp)) fun _ => ?_
    have hnone : d.table (PDX v) = none := by simp [PageDir.table, hp]
    have hmiss := missing_addTable (PDX_lt hv) hnone
    have hlen : missing d + r = missing (d.addTable (PDX v) 0) + r + 1 := by
      rw [← hmiss 0]
      omega
    rw [hlen] at h
    refine (kalloc_supply h).bind fun o m' ho => ?_
    obtain ⟨hsome, h'⟩ := ho
    obtain ⟨f, rfl⟩ := Option.isSome_iff_exists.mp hsome
    refine wp_pure ⟨_, rfl, ?_⟩
    have heq : missing (d.addTable (PDX v) f) = missing (d.addTable (PDX v) 0) :=
      Nat.add_right_cancel ((hmiss f).trans (hmiss 0).symm)
    rwa [heq]

lemma mapLoop_supply (w u : Bool) (k : ℕ) :
    ∀ (d : PageDir) (v pa : ℕ) (m : Mem Kmem), v + k ≤ NVPAGE →
      Supply m.alloc (missing d + r) →
      Wp (mapLoop d v pa w u k) NotEmpty (fun o m' => o.1 = true ∧
        Supply m'.alloc (missing o.2 + r)) m := by
  induction k with
  | zero => exact fun d v pa m _ h => wp_pure ⟨rfl, h⟩
  | succ k ih =>
    intro d v pa m hv h
    unfold mapLoop
    refine (walkpgdir_supply (by omega) h).bind fun o m' ho => ?_
    obtain ⟨d', rfl, h'⟩ := ho
    refine wp_ite (fun _ => wp_throw (by simp [NotEmpty, NoPage])) fun _ => ?_
    refine ih _ _ _ m' (by omega) ?_
    rwa [missing_setEntry]

lemma mappages_page_supply {v : ℕ} (hv : v < NVPAGE) (pa : ℕ) (w u : Bool)
    (h : Supply m.alloc (missing d + r)) :
    Wp (mappages d (v * PGSIZE) PGSIZE pa w u) NotEmpty (fun o m' => o.1 = true ∧
      Supply m'.alloc (missing o.2 + r)) m := by
  refine mapLoop_supply w u _ d _ _ m ?_ h
  simp only [NVPAGE, PGSIZE] at hv ⊢
  omega

lemma mapKernel_supply (ks : List Kmap)
    (hks : ∀ k ∈ ks, k.virt / PGSIZE ≤ (k.virt + k.size - 1) / PGSIZE ∧
      (k.virt + k.size - 1) / PGSIZE < NVPAGE) :
    ∀ (d : PageDir) (m : Mem Kmem), Supply m.alloc (missing d + r) →
      Wp (mapKernel d ks) NotEmpty (fun o m' => ∃ d', o = some d' ∧
        Supply m'.alloc (missing d' + r)) m := by
  induction ks with
  | nil => exact fun d m h => wp_pure ⟨d, rfl, h⟩
  | cons k ks ih =>
    intro d m h
    obtain ⟨hk₁, hk₂⟩ := hks k (by simp)
    unfold mapKernel mappages
    refine (mapLoop_supply k.w false _ d _ _ m (by omega) h).bind fun o m' ho => ?_
    obtain ⟨ok, d'⟩ := o
    obtain ⟨rfl, h'⟩ := ho
    exact ih (fun k' hk' => hks k' (by simp [hk'])) d' m' h'

/-- **`setupkvm`** takes a page for the page directory and one for each page table. -/
lemma setupkvm_supply (h : Supply m.alloc (NPTENTRIES + r + 1)) :
    Wp setupkvm NotEmpty (fun o m' => ∃ d, o = some d ∧ Supply m'.alloc (missing d + r)) m := by
  unfold setupkvm
  refine (kalloc_supply h).bind fun o m' ho => ?_
  obtain ⟨hsome, h'⟩ := ho
  obtain ⟨f, rfl⟩ := Option.isSome_iff_exists.mp hsome
  refine mapKernel_supply kmap kmap_lt _ m' (h'.mono ?_)
  exact Nat.add_le_add_right (missing_le _) _

/-- **`inituvm`** takes one page for the code. -/
lemma inituvm_supply (init : List UInt8) (h : Supply m.alloc (missing d + r + 1)) :
    Wp (inituvm d init) NotEmpty (fun d' m' => Supply m'.alloc (missing d' + r)) m := by
  unfold inituvm
  refine wp_ite (fun _ => wp_throw (by simp [NotEmpty, NoPage])) fun _ => ?_
  refine (kalloc_supply h).bind fun o m₁ ho => ?_
  obtain ⟨hsome, h₁⟩ := ho
  obtain ⟨f, rfl⟩ := Option.isSome_iff_exists.mp hsome
  have hmap := mappages_page_supply (show 0 < NVPAGE by decide) (f * PGSIZE) true true h₁
  rw [Nat.zero_mul] at hmap
  exact Wp.bind hmap fun o m₂ ho => wp_bind (wp_setPage (wp_pure ho.2))

/-- **`allocuvm`** takes a page for each new page. -/
lemma allocLoop_supply (oldsz newsz : ℕ) (k : ℕ) :
    ∀ (d : PageDir) (v : ℕ) (m : Mem Kmem), v + k ≤ NVPAGE →
      Supply m.alloc (missing d + r + k) →
      Wp (allocLoop oldsz newsz d v k) NotEmpty (fun o m' => Supply m'.alloc (missing o.2 + r)) m := by
  induction k with
  | zero =>
    intro d v m _ h
    rw [Nat.add_zero] at h
    exact wp_pure h
  | succ k ih =>
    intro d v m hv h
    rw [← Nat.add_assoc] at h
    unfold allocLoop
    refine (kalloc_supply h).bind fun o m₁ ho => ?_
    obtain ⟨hsome, h₁⟩ := ho
    obtain ⟨f, rfl⟩ := Option.isSome_iff_exists.mp hsome
    rw [Nat.add_assoc] at h₁
    refine wp_bind (wp_setPage ?_)
    refine (mappages_page_supply (m := m₁.put f zeroPage) (by omega) _ true true h₁).bind
      fun o m₂ ho => ?_
    obtain ⟨ok, d'⟩ := o
    obtain ⟨rfl, h₂⟩ := ho
    rw [← Nat.add_assoc] at h₂
    exact ih d' (v + 1) m₂ (by omega) h₂

lemma allocuvm_supply (oldsz newsz : ℕ)
    (h : Supply m.alloc (missing d + r + (PGROUNDUP newsz - PGROUNDUP oldsz))) :
    Wp (allocuvm d oldsz newsz) NotEmpty (fun o m' => Supply m'.alloc (missing o.2 + r)) m := by
  have hpages : NUPAGE ≤ NVPAGE := by decide
  unfold allocuvm
  refine wp_ite (fun _ => wp_pure (h.mono (Nat.le_add_right _ _))) fun hk => ?_
  refine wp_ite (fun _ => wp_pure (h.mono (Nat.le_add_right _ _))) fun hlt => ?_
  have hmono := PGROUNDUP_mono (not_lt.mp hlt)
  have hup := PGROUNDUP_le (not_le.mp hk).le
  exact allocLoop_supply oldsz newsz _ d _ m (by omega) h

/-! ### Giving pages back -/

lemma deallocLoop_supply (d : PageDir) (v last : ℕ) :
    ∀ m : Mem Kmem, Supply m.alloc n →
      Wp (deallocLoop d v last) NotEmpty (fun _ m' => Supply m'.alloc n) m := by
  induction d, v using deallocLoop.induct last with
  | case1 d v hlt hpde ih =>
    intro m h
    rw [deallocLoop, if_pos hlt]
    simp only [hpde]
    exact ih m h
  | case2 d v hlt t hpde hnone ih =>
    intro m h
    rw [deallocLoop, if_pos hlt]
    simp only [hpde, hnone]
    exact ih m h
  | case3 d v hlt t hpde e hsome hzero =>
    intro m _
    rw [deallocLoop, if_pos hlt]
    simp only [hpde, hsome]
    rw [if_pos hzero]
    exact wp_throw (by simp [NotEmpty, NoPage])
  | case4 d v hlt t hpde e hsome hpfn ih =>
    intro m h
    rw [deallocLoop, if_pos hlt]
    simp only [hpde, hsome]
    rw [if_neg hpfn]
    exact (kfree_supply h e.pfn).bind fun _ m' h' => ih m' h'
  | case5 d v hle =>
    intro m h
    rw [deallocLoop, if_neg hle]
    exact wp_pure h

lemma freeTables_supply (d : PageDir) (is : List ℕ) :
    ∀ m : Mem Kmem, Supply m.alloc n →
      Wp (freeTables d is) NotEmpty (fun _ m' => Supply m'.alloc n) m := by
  induction is with
  | nil => exact fun m h => wp_pure h
  | cons i is ih =>
    intro m h
    unfold freeTables
    cases d.pde i with
    | none => exact wp_bind (wp_pure (ih m h))
    | some t => exact (kfree_supply h t.frame).bind fun _ m' h' => ih m' h'

/-- **`freevm`** takes no page. -/
lemma freevm_supply (h : Supply m.alloc n) :
    Wp (freevm d) NotEmpty (fun _ m' => Supply m'.alloc n) m := by
  unfold freevm deallocuvm
  generalize List.range NPTENTRIES = is
  rw [if_neg (by decide)]
  refine wp_bind ((deallocLoop_supply d _ _ m h).bind fun d' m' h' => wp_pure ?_)
  exact (freeTables_supply d' is m' h').bind fun _ m'' h'' => kfree_supply h'' d.frame

/-! ### Sharing -/

omit [Layout] in
lemma incrRefc_supply (h : Supply m.alloc n) {f : ℕ} (hf : f < NPAGE) :
    Wp (incrRefc f) NotEmpty (fun _ m' => Supply m'.alloc n) m := by
  have hok : incrRefc f m = .ok ((), { m with
      alloc := { m.alloc with pgRef := Function.update m.alloc.pgRef f (m.alloc.pgRef f + 1) } }) := by
    rw [incrRefc, Kmem.incrRefc_of_lt hf]
    rfl
  rw [Wp, hok]
  exact ⟨h.le, h.usable⟩

lemma copyLoop_supply (k : ℕ) :
    ∀ (d c : PageDir) (v : ℕ) (m : Mem Kmem), v + k ≤ NVPAGE →
      (∀ q e, v ≤ q → q < v + k → d.entry q = some e → e.pfn < NPAGE) →
      Supply m.alloc (missing c + r) →
      Wp (copyLoop d c v k) NotEmpty (fun _ m' => Supply m'.alloc r) m := by
  induction k with
  | zero => exact fun d c v m _ _ h => wp_pure (h.mono (Nat.le_add_left _ _))
  | succ k ih =>
    intro d c v m hv hpfn h
    unfold copyLoop
    cases hp : d.pde (PDX v) with
    | none => exact wp_throw (by simp [NotEmpty, NoPage])
    | some t =>
      cases he : d.entry v with
      | none => exact wp_throw (by simp [NotEmpty, NoPage])
      | some e =>
        refine (mappages_page_supply (by omega) _ false e.u h).bind fun o m₁ ho => ?_
        obtain ⟨ok, c'⟩ := o
        obtain ⟨rfl, h₁⟩ := ho
        refine (incrRefc_supply h₁ (hpfn v e le_rfl (by omega) he)).bind fun _ m₂ h₂ => ?_
        refine ih _ c' (v + 1) m₂ (by omega) (fun q e' hq hq' he' => ?_) h₂
        rw [PageDir.setEntry_entry d (d.table_isSome_of_entry he), Function.update_of_ne (by omega)]
          at he'
        exact hpfn q e' (by omega) (by omega) he'

/-- **`copyuvm`** takes the pages of the child's page directory and page tables. -/
lemma copyuvm_supply {sz : ℕ} (hsz : sz ≤ KERNBASE)
    (hpfn : ∀ q e, q < PGROUNDUP sz → d.entry q = some e → e.pfn < NPAGE)
    (h : Supply m.alloc (NPTENTRIES + r + 1)) :
    Wp (copyuvm d sz) NotEmpty (fun _ m' => Supply m'.alloc r) m := by
  have hlast := PGROUNDUP_le hsz
  have hpages : NUPAGE ≤ NVPAGE := by decide
  unfold copyuvm
  refine (setupkvm_supply h).bind fun o m₁ ho => ?_
  obtain ⟨c, rfl, h₁⟩ := ho
  exact copyLoop_supply (PGROUNDUP sz) d c 0 m₁ (by omega)
    (fun q e _ hq => hpfn q e (by omega)) h₁

/-! ### Writing to user memory takes no page -/

omit [Layout] in
lemma copyout_supply (k : ℕ) :
    ∀ (bs : List UInt8) (va : ℕ) (m : Mem Kmem), bs.length ≤ k → Supply m.alloc n →
      Wp (copyout d va bs) NotEmpty (fun _ m' => Supply m'.alloc n) m := by
  induction k with
  | zero =>
    intro bs va m hlen h
    rw [copyout, if_pos (List.length_eq_zero_iff.mp (Nat.le_zero.mp hlen))]
    exact wp_pure h
  | succ k ih =>
    intro bs va m hlen h
    rw [copyout]
    refine wp_ite (fun _ => wp_pure h) fun hbs => ?_
    refine Wp.bind ((uva2ka_entry (d := d) (va / PGSIZE) fun _ => by simp [NotEmpty, NoPage]).post
      fun r m' hr => hr.1) fun r m' hm' => ?_
    obtain rfl : m' = m := hm'
    cases r with
    | none => exact wp_pure h
    | some f =>
      refine wp_bind (wp_getPage (wp_bind (wp_setPage (ih _ _ _ ?_ h))))
      have hpos := List.length_pos_iff.mpr hbs
      have hmod := Nat.mod_lt va (show 0 < PGSIZE by decide)
      rw [List.length_drop]
      omega

omit [Layout] in
lemma pushArgs_supply (args : List (List UInt8)) :
    ∀ (sp : ℕ) (us : List ℕ) (m : Mem Kmem), Supply m.alloc n →
      Wp (pushArgs d args sp us) NotEmpty (fun _ m' => Supply m'.alloc n) m := by
  induction args with
  | nil => exact fun sp us m h => wp_pure h
  | cons arg args ih =>
    intro sp us m h
    unfold pushArgs
    refine wp_ite (fun _ => wp_pure h) fun _ => ?_
    refine (copyout_supply _ _ _ m le_rfl h).bind fun ok m' h' => ?_
    exact wp_ite (fun _ => ih _ _ m' h') fun _ => wp_pure h'

/-- The stack takes two pages. -/
lemma buildStack_supply (top : ℕ) (argv : List (List UInt8))
    (h : Supply m.alloc (missing d + r + 2)) :
    Wp (buildStack d (top * PGSIZE) argv) NotEmpty (fun _ m' => Supply m'.alloc r) m := by
  have hpages : PGROUNDUP (top * PGSIZE + 2 * PGSIZE) - PGROUNDUP (top * PGSIZE) = 2 := by
    rw [← Nat.add_mul, PGROUNDUP_mul, PGROUNDUP_mul, Nat.add_sub_cancel_left]
  have hdrop : ∀ {a : Kmem} {d : PageDir}, Supply a (missing d + r) → Supply a r :=
    fun h => ⟨(Nat.le_add_left _ _).trans h.le, h.usable⟩
  unfold buildStack
  refine (allocuvm_supply _ _ (by rwa [hpages])).bind fun o m₁ h₁ => ?_
  refine wp_ite (fun _ => wp_pure (hdrop h₁)) fun _ => ?_
  have hclear : Wp (clearpteu (A := Kmem) o.2 ((o.1 - 2 * PGSIZE) / PGSIZE)) NotEmpty
      (fun _ m' => m' = m₁) m₁ := by
    unfold clearpteu
    cases o.2.pde (PDX ((o.1 - 2 * PGSIZE) / PGSIZE)) with
    | none => exact wp_throw (by simp [NotEmpty, NoPage])
    | some t => exact wp_pure rfl
  refine hclear.bind fun d' m₂ hm₂ => ?_
  obtain rfl := hm₂
  refine (pushArgs_supply argv _ _ m₂ (hdrop h₁)).bind fun o m₃ h₃ => ?_
  rcases o with _ | ⟨sp, us⟩
  · exact wp_pure h₃
  · refine (copyout_supply _ _ _ m₃ le_rfl h₃).bind fun ok m₄ h₄ => ?_
    exact wp_ite (fun _ => wp_pure h₄) fun _ => wp_pure h₄

/-! ### Operations -/

variable {k : Kernel} {c : Slot}

lemma allocproc_supply (h : Supply k.mem.alloc (n + 1)) :
    Wp allocproc NotEmpty (fun _ k' => Supply k'.mem.alloc n ∧
      ∀ j, (k.proc j).state ≠ .unused → k'.proc j = k.proc j) k := by
  unfold allocproc
  refine wp_bind (wp_get ?_)
  cases hfind : slots.find? fun i => decide ((k.proc i).state = .unused) with
  | none => exact wp_pure ⟨h.mono (Nat.le_succ n), fun _ _ => rfl⟩
  | some i =>
    have hi : (k.proc i).state = .unused := slots_find hfind
    refine wp_bind (wp_updProc (wp_bind (wp_modify (wp_bind (wp_vm ?_)))))
    refine (kalloc_supply h).post fun o m' ho => ?_
    obtain ⟨hsome, h'⟩ := ho
    obtain ⟨f, rfl⟩ := Option.isSome_iff_exists.mp hsome
    refine wp_bind (wp_updProc (wp_pure ⟨h', fun j hj => ?_⟩))
    have hji : j ≠ i := by
      rintro rfl
      exact hj hi
    refine (Function.update_of_ne hji _ _).trans ?_
    exact Function.update_of_ne hji _ _

lemma userinit_supply (init : List UInt8) (h : Supply k.mem.alloc (NPTENTRIES + n + 3)) :
    Wp (userinit init) NotEmpty (fun _ k' => Supply k'.mem.alloc n) k := by
  have hnull : NotEmpty .nullDeref := by simp [NotEmpty, NoPage]
  unfold userinit
  refine (allocproc_supply (n := NPTENTRIES + (n + 1) + 1) h).bind fun o k₁ h₁ => ?_
  cases o with
  | none => exact wp_throw hnull
  | some i =>
    refine wp_bind (wp_modify (wp_bind (wp_vm ?_)))
    refine (setupkvm_supply h₁.1).post fun o m₂ ho => ?_
    obtain ⟨d, rfl, h₂⟩ := ho
    rw [← Nat.add_assoc] at h₂
    refine wp_bind (wp_vm ((inituvm_supply init h₂).post fun d' m₃ h₃ => wp_updProc ?_))
    have hle : n ≤ missing d' + n := Nat.le_add_left _ _
    exact h₃.mono hle

lemma freeKstack_supply (i : Slot) (h : Supply k.mem.alloc n) :
    Wp (freeKstack i) NotEmpty (fun _ k' => Supply k'.mem.alloc n) k := by
  unfold freeKstack
  refine wp_bind (wp_get ?_)
  cases (k.proc i).kstack with
  | none => exact wp_throw (by simp [NotEmpty, NoPage])
  | some f => exact wp_bind (wp_vm ((kfree_supply h f).post fun _ m' h' => wp_updProc h'))

lemma fork_supply {d : PageDir} (hd : (k.proc c).pgdir = some d)
    (hunused : (k.proc c).state ≠ .unused) (hsz : (k.proc c).sz ≤ KERNBASE)
    (hpfn : ∀ q e, q < PGROUNDUP (k.proc c).sz → d.entry q = some e → e.pfn < NPAGE)
    (h : Supply k.mem.alloc (NPTENTRIES + n + 2)) :
    Wp (fork c) NotEmpty (fun _ k' => Supply k'.mem.alloc n) k := by
  unfold fork
  refine (allocproc_supply (n := NPTENTRIES + n + 1) h).bind fun o k₁ hk₁ => ?_
  obtain ⟨h₁, hproc⟩ := hk₁
  cases o with
  | none => exact wp_pure (h₁.mono (by omega))
  | some i =>
    have hc := hproc c hunused
    have hd₁ : (k₁.proc c).pgdir = some d := by rw [hc, hd]
    rw [← hc] at hsz hpfn
    refine wp_bind (wp_pgdirOf hd₁ (wp_bind (wp_get (wp_bind (wp_vm ?_)))))
    refine (copyuvm_supply hsz hpfn h₁).post fun o m₂ h₂ => ?_
    obtain ⟨o, d'⟩ := o
    refine wp_bind (wp_updProc ?_)
    cases o with
    | none =>
      exact (freeKstack_supply i h₂).bind fun _ k₃ h₃ => wp_bind (wp_updProc (wp_pure h₃))
    | some child => exact wp_bind (wp_updProc (wp_bind (wp_get (wp_pure h₂))))

/-- A program without segments. -/
def Elf.blank : Elf := ⟨[], []⟩

omit [Layout] in
/-- A program without segments gets a guard page and a stack page. -/
lemma image_blank : ∃ s, Space.image Elf.blank [] = some s ∧ s.sz = 2 * PGSIZE ∧
    s.guard = some 0 := by
  have hzero : PGROUNDUP Space.empty.sz * PGSIZE = 0 := by decide
  have halloc : ({ Space.empty with sz := 0 } : Space).alloc (0 + 2 * PGSIZE) =
      some (Space.empty.grow (2 * PGSIZE)) := by
    rw [Space.alloc, if_neg (by decide), if_neg (by decide), if_neg (by decide), Nat.zero_add]
    rfl
  have hcopy : ∀ s : Space, s.sz = 2 * PGSIZE → s.guard = some 0 → ∀ a bs, a = 2 * PGSIZE - 16 →
      bs.length = 16 → s.copyout a bs = some (s.write a bs) := by
    intro s hsz hguard a bs ha hlen
    refine if_pos (Or.inr fun q hq hq' => ⟨?_, ?_⟩)
    · rw [hsz, PGROUNDUP_mul]
      simp only [PGSIZE] at ha hq
      omega
    · rw [hguard]
      simp only [PGSIZE] at ha hq'
      rw [Ne, Option.some.injEq]
      omega
  refine ⟨(⟨2 * PGSIZE, some 0, (Space.empty.grow (2 * PGSIZE)).bytes⟩ : Space).write
    (2 * PGSIZE - 16) (ustackBytes (2 * PGSIZE) []), ?_, Space.write_sz _ _ _,
    Space.write_guard _ _ _⟩
  rw [Space.image, Elf.blank, Space.load, Option.bind_some, hzero, Space.stack, halloc,
    Option.bind_some, Space.pushArgs, Option.bind_some]
  exact hcopy ⟨2 * PGSIZE, some 0, (Space.empty.grow (2 * PGSIZE)).bytes⟩ rfl rfl _ _ (by decide)
    (by decide)
lemma exec_supply {d : PageDir} (hd : (k.proc c).pgdir = some d) (argv : List (List UInt8))
    (h : Supply k.mem.alloc (NPTENTRIES + n + 3)) :
    Wp (exec c (some Elf.blank) argv) NotEmpty (fun _ k' => Supply k'.mem.alloc n) k := by
  unfold exec
  refine wp_bind (wp_vm ((setupkvm_supply (r := n + 2) h).post fun o m₁ ho => ?_))
  obtain ⟨d₁, rfl, h₁⟩ := ho
  rw [← Nat.add_assoc] at h₁
  refine wp_bind (wp_vm ?_)
  have hbuild : Wp (buildImage d₁ Elf.blank argv) NotEmpty (fun _ m' => Supply m'.alloc n)
      (k.setMem m₁).mem := by
    unfold buildImage
    exact wp_bind (wp_pure (buildStack_supply _ argv h₁))
  refine hbuild.post fun o m₂ h₂ => ?_
  rcases o with ⟨_ | sz, d₂⟩
  · exact wp_bind (wp_vm ((freevm_supply h₂).post fun _ m₃ h₃ => wp_pure h₃))
  · refine wp_bind (wp_pgdirOf (k := (k.setMem m₁).setMem m₂) hd (wp_bind (wp_updProc ?_)))
    exact wp_bind (wp_vm ((freevm_supply h₂).post fun _ m₃ h₃ => wp_pure h₃))

/-! ### With enough free pages an operation succeeds -/

variable {R : Set ℕ}

omit [Layout] in
lemma firstUnused_eq {k : Kernel} {i : Slot} (hi : (k.proc i).state = .unused)
    (hlt : ∀ j, j < i → (k.proc j).state ≠ .unused) : firstUnused k = some i := by
  rw [firstUnused, slots, List.find?_eq_some_iff_getElem]
  refine ⟨by simpa using hi, i, by simp, by simp, fun j hj => ?_⟩
  simpa using hlt ⟨j, by omega⟩ hj

/-- The pages that a process maps have counters. -/
lemma Inv.pfn_lt (hR : ∀ f ∈ R, Kmem.Usable f) (h : Inv R k) {d : PageDir}
    (hd : (k.proc c).pgdir = some d) {q : ℕ} {e : Pte} (hq : q < NUPAGE)
    (he : d.entry q = some e) : e.pfn < NPAGE := by
  have hle := k.proc_le_holders c e.pfn
  have hone := one_le_userHolds hq he
  rw [Proc.holders, hd, Option.elim_some] at hle
  simp only [Pi.add_apply, holds] at hle
  exact (hR _ (h.counts.held _ (by omega))).2

/-- The first process of a system that has just started. -/
lemma userinit_ok {free : List ℕ} {k : Kernel} (hboot : Boot free k)
    (hinv : Inv {f | f ∈ free} k) (init : List UInt8) (hlen : init.length < PGSIZE)
    (hn : NPTENTRIES + n + 3 ≤ free.length) :
    ∃ k', Step k (.userinit init) k' ∧ Inv {f | f ∈ free} k' ∧ (∃ f d m',
      k' = k.booted 0 f d m' ∧ Shows m' d (Space.initial init) ∧
      Private k'.holders d (Space.initial init)) ∧ Supply k'.mem.alloc n := by
  obtain ⟨hfree, pages, rfl⟩ := hboot
  have hfirst : firstUnused (Kernel.boot free pages) = some 0 :=
    firstUnused_eq rfl fun j hj => absurd hj (Fin.not_lt_zero j)
  have hsupply : Supply (Kernel.boot free pages).mem.alloc (NPTENTRIES + n + 3) :=
    ⟨hn, fun f hf => (hfree.usable f hf).2⟩
  have hspec := userinit_spec hfree.usable (fun _ h => h) hinv init
    (fun h => absurd h (not_le.mpr hlen)) fun h => absurd (hfirst.symm.trans h) (by simp)
  have hboth := (hspec.and (userinit_supply init hsupply)).bind
    (f := fun _ => (pure .nothing : KM Reply)) (Q := fun _ k' => (Inv {f | f ∈ free} k' ∧
      ∃ f d m', k' = (Kernel.boot free pages).booted 0 f d m' ∧
        Shows m' d (Space.initial init) ∧ Private k'.holders d (Space.initial init)) ∧
        Supply k'.mem.alloc n)
    fun _ k' hk' => wp_pure ?_
  · obtain ⟨r, k', hr, ⟨hinv', hbooted⟩, hs⟩ := hboth.exists_ok fun e he => he.2 he.1
    exact ⟨k', ⟨rfl, r, hr⟩, hinv', hbooted, hs⟩
  · obtain ⟨⟨hinv', i, f, d, m', hi, heq, -, hshows, hown⟩, hs⟩ := hk'
    obtain rfl := Option.some.inj (hfirst.symm.trans hi)
    exact ⟨⟨hinv', f, d, m', heq, hshows, hown⟩, hs⟩

/-- `fork` with a free slot and enough free pages. -/
lemma fork_ok (hR : ∀ f ∈ R, Kmem.Usable f) (h : Inv R k) (hc : (k.proc c).state = .runnable)
    {i : Slot} (hi : firstUnused k = some i) {d : PageDir} (hd : (k.proc c).pgdir = some d)
    (hpresent : ∀ q, q < PGROUNDUP (k.proc c).sz → (d.entry q).isSome)
    (hs : Supply k.mem.alloc (NPTENTRIES + n + 2)) :
    ∃ k', Step k (.fork c) k' ∧ Inv R k' ∧ (∃ f d' child m', Forked k k' c i f d d' child m') ∧
      Supply k'.mem.alloc n := by
  obtain ⟨-, d₀, -, hd₀, hok⟩ := h.live (c := c) (by rw [hc]; simp)
  obtain rfl := Option.some.inj (hd.symm.trans hd₀)
  have hup := PGROUNDUP_le hok.le
  have herr : CopyErr NoPage d 0 (PGROUNDUP (k.proc c).sz) := by
    refine ⟨fun _ h => h, fun ⟨q, _, hq, hnone⟩ => ?_⟩
    have hsome := hpresent q hq
    rw [hnone] at hsome
    exact absurd hsome (by simp)
  have hsupply := fork_supply hd (by rw [hc]; simp) hok.le
    (fun q e hq he => h.pfn_lt hR hd (lt_of_lt_of_le hq hup) he) hs
  have hboth := ((fork_spec hR h hc hd herr).and hsupply).bind
    (f := fun r => (pure (.value r) : KM Reply)) (Q := fun _ k' => (Inv R k' ∧
      ∃ f d' child m', Forked k k' c i f d d' child m') ∧ Supply k'.mem.alloc n)
    fun r k' hk' => wp_pure ?_
  · obtain ⟨r, k', hr, ⟨hinv', hfork⟩, hs'⟩ := hboth.exists_ok fun e he => he.2 he.1
    exact ⟨k', ⟨hc, r, hr⟩, hinv', hfork, hs'⟩
  · obtain ⟨⟨hinv', ⟨-, hnone, -⟩ | ⟨i', f, d', child, m', -, hi', hfork⟩⟩, hs'⟩ := hk'
    · exact absurd (hi.symm.trans hnone) (by simp)
    · obtain rfl := Option.some.inj (hi.symm.trans hi')
      exact ⟨⟨hinv', f, d', child, m', hfork⟩, hs'⟩

/-- `exec` of a program without segments, with enough free pages. -/
lemma exec_ok (hR : ∀ f ∈ R, Kmem.Usable f) (h : Inv R k) (hc : (k.proc c).state = .runnable)
    {s : Space} (hs : Space.image Elf.blank [] = some s)
    (hn : Supply k.mem.alloc (NPTENTRIES + n + 3)) :
    ∃ k', perform (.exec c (some Elf.blank) []) k = .ok (.value 0, k') ∧ Inv R k' ∧ (∃ d m',
      k' = k.setSpace c m' d s.sz ∧ Shows m' d s ∧ Private k'.holders d s) ∧
      Supply k'.mem.alloc n := by
  obtain ⟨f, d, -, hd, -⟩ := h.live (c := c) (by rw [hc]; simp)
  have hspec := exec_spec hR (fun _ h => h) h hc (some Elf.blank) [] fun elf helf hnone => by
    obtain rfl := Option.some.inj helf
    exact absurd (hs.symm.trans hnone) (by simp)
  rw [Option.bind_some, hs] at hspec
  have hboth := (hspec.and (exec_supply hd [] hn)).bind
    (f := fun r => (pure (.value r) : KM Reply)) (Q := fun r k' => r = .value 0 ∧ (Inv R k' ∧
      ∃ d m', k' = k.setSpace c m' d s.sz ∧ Shows m' d s ∧ Private k'.holders d s) ∧
      Supply k'.mem.alloc n) fun r k' hk' => wp_pure ?_
  · obtain ⟨r, k', hr, rfl, ⟨hinv', hspace⟩, hs'⟩ := hboth.exists_ok fun e he => he.2 he.1
    exact ⟨k', hr, hinv', hspace, hs'⟩
  · obtain ⟨⟨hinv', d₀, d', sz', m', -, heq, rfl, rfl, hshows, hown, -⟩, hs'⟩ := hk'
    exact ⟨rfl, ⟨hinv', d', m', heq, hshows, hown⟩, hs'⟩

/-! ### A system -/

/-- A kernel that ends at `0x80115000`. -/
@[reducible] def Layout.sample : Layout where
  data := 0x80108000
  kend := 0x80115000
  data_aligned := by decide
  kernlink_lt := by decide
  data_le := by decide
  kend_lt := by decide

/-- Free pages for it. -/
def sampleFree : List ℕ := List.range' 1024 8192

omit [Layout] in
lemma sampleFree_freeList : @FreeList Layout.sample sampleFree := by
  refine @FreeList.mk Layout.sample _ (List.nodup_range' 1) fun f hf => ?_
  obtain ⟨i, hi, rfl⟩ := List.mem_range'.mp hf
  show (0x80115000 : ℕ) ≤ KERNBASE + (1024 + 1 * i) * PGSIZE ∧ 1024 + 1 * i < PHYSTOP / PGSIZE
  simp only [KERNBASE, PGSIZE, PHYSTOP]
  omega
end Xv6Projects.Cow
