import Xv6Projects.Cow.Invariant
import Xv6Projects.Cow.System

/-!
# What one operation does

For each operation of a process: the invariant is kept, the error is the end of the free
pages unless a page of the process is missing, and what became of the address spaces.
-/

namespace Xv6Projects.Cow

open Library Vm Finset

section Rules
variable {k : Kernel} {E : Err → Prop} {α : Type}

lemma wp_vm {x : VmM Kmem α} {Q : α → Kernel → Prop}
    (h : Wp x E (fun a m => Q a (k.setMem m)) k.mem) : Wp (vm x) E Q k :=
  wp_zoom h

lemma wp_updProc {i : Slot} {f : Proc → Proc} {Q : Unit → Kernel → Prop}
    (h : Q () (k.setProc i (f (k.proc i)))) : Wp (updProc i f) E Q k :=
  wp_modify h

/-- The state after the change is known. -/
lemma wp_updProc_eq {i : Slot} {f : Proc → Proc} {k' : Kernel} {Q : Unit → Kernel → Prop}
    (hk : k.setProc i (f (k.proc i)) = k') (h : Q () k') : Wp (updProc i f) E Q k :=
  wp_updProc (hk ▸ h)

lemma wp_pgdirOf {i : Slot} {d : PageDir} (hd : (k.proc i).pgdir = some d)
    {Q : PageDir → Kernel → Prop} (h : Q d k) : Wp (pgdirOf i) E Q k := by
  refine wp_bind (wp_get ?_)
  rw [hd]
  exact wp_pure h

lemma pgdirOf_ok {i : Slot} {d : PageDir} (hd : (k.proc i).pgdir = some d) :
    pgdirOf i k = .ok (d, k) := by
  obtain ⟨d', k', hr, rfl, rfl⟩ := (wp_pgdirOf (E := fun _ => False) hd
    (Q := fun d' k' => d' = d ∧ k' = k) ⟨rfl, rfl⟩).exists_ok fun _ => id
  exact hr

/-- The page directory of a process is written back. -/
lemma wp_setDir {c : Slot} {m : Mem Kmem} {d : PageDir} {Q : Unit → Kernel → Prop}
    (h : Q () (k.setSpace c m d (k.proc c).sz)) :
    Wp (updProc c fun p => { p with pgdir := some d }) E Q (k.setMem m) :=
  wp_updProc h

lemma wp_setSz {c : Slot} {m : Mem Kmem} {d : PageDir} {sz sz' : ℕ} {Q : Unit → Kernel → Prop}
    (h : Q () (k.setSpace c m d sz')) :
    Wp (updProc c fun p => { p with sz := sz' }) E Q (k.setSpace c m d sz) := by
  have hself : (k.setSpace c m d sz).proc c = { k.proc c with pgdir := some d, sz := sz } :=
    Function.update_self _ _ _
  refine wp_updProc ?_
  rw [hself]
  simp only [Kernel.setSpace, Kernel.setProc, Function.update_idem] at h ⊢
  exact h

end Rules

variable [Layout] {R : Set ℕ} {k : Kernel} {c : Slot} {E : Err → Prop}

/-- The pages that others than process `c` hold keep their contents, and get no holders. -/
def KeepsOthers (k k' : Kernel) (c : Slot) : Prop :=
  ∀ g, 0 < k.others c g → k'.holders g ≤ k.holders g ∧ k'.mem.pages g = k.mem.pages g

/-! ### sbrk -/

/-- What `growproc` by `n` bytes does: nothing, growing, or shrinking. -/
inductive Resized (n : ℤ) (h h' : ℕ → ℕ) (d d' : PageDir) (sz sz' : ℕ) (m m' : Mem Kmem) (r : ℤ) :
    Prop
  | same (hg : Grows h h' m m') (hd : d' = d) (hsz : sz' = sz)
      (hgrow : 0 < n → (KERNBASE : ℤ) ≤ sz + n ∧ r = -1) (hzero : n = 0 → r = 0)
      (hshrink : n < 0 → sz + n < 0)
  | grown (hn : 0 < n) (hsz : (sz' : ℤ) = sz + n) (hlt : sz' < KERNBASE) (hr : r = 0)
      (hg : Grows h h' m m') (hfresh : GrownFresh h' d d' (PGROUNDUP sz) (PGROUNDUP sz') m')
  | shrunk (newsz : ℕ) (hn : n < 0) (hnew : (newsz : ℤ) = sz + n) (hs : Shrinks h h' m m')
      (hd : Cleared d d' (PGROUNDUP newsz) (PGROUNDUP sz)) (hdir : dirHolds d' = dirHolds d)
      (hsz : sz' = if newsz = 0 then sz else newsz) (hr : r = if newsz = 0 then -1 else 0)

omit [Layout] in
/-- The size that `growproc` computes. -/
lemma newsz_eq {sz : ℕ} {n : ℤ} (hsz : sz ≤ KERNBASE) (hlo : -2 ^ 31 ≤ n) (hhi : n < 2 ^ 31) :
    (0 ≤ sz + n → (((((sz : ℤ) + n) % 2 ^ 32).toNat : ℕ) : ℤ) = sz + n) ∧
      (sz + n < 0 → sz ≤ (((sz : ℤ) + n) % 2 ^ 32).toNat) := by
  have hk : (sz : ℤ) ≤ 2147483648 := by
    simp only [KERNBASE] at hsz
    omega
  norm_num at hlo hhi ⊢
  constructor
  · intro h
    omega
  · intro h
    omega

lemma DirOk.cleared {d d' : PageDir} {sz v sz' : ℕ} (hd : DirOk d sz)
    (h : Cleared d d' v (PGROUNDUP sz)) (hv : v ≤ PGROUNDUP sz') (hle : sz' ≤ sz) : DirOk d' sz' := by
  have hup := PGROUNDUP_le hd.le
  refine ⟨hle.trans hd.le, fun q hq hq' => ?_, fun q hq => ?_⟩
  · rw [h q]
    by_cases hin : v ≤ q ∧ q < PGROUNDUP sz
    · rw [if_pos hin]
    · rw [if_neg hin]
      exact hd.unmapped q (by omega) hq'
  · rw [h q, if_neg (by omega)]
    exact hd.kernel q hq

lemma DirOk.grown {h' : ℕ → ℕ} {d d' : PageDir} {sz sz' : ℕ} {m' : Mem Kmem} (hd : DirOk d sz)
    (hle : sz ≤ sz') (hlt : sz' < KERNBASE)
    (h : GrownFresh h' d d' (PGROUNDUP sz) (PGROUNDUP sz') m') : DirOk d' sz' := by
  have hup := PGROUNDUP_le hlt.le
  have hmono := PGROUNDUP_mono hle
  refine ⟨hlt.le, fun q hq hq' => ?_, fun q hq => ?_⟩
  · have hq₁ := h q
    rw [if_neg (by omega)] at hq₁
    rw [hq₁]
    exact hd.unmapped q (by omega) hq'
  · have hq₁ := h q
    rw [if_neg (by omega)] at hq₁
    rw [hq₁]
    exact hd.kernel q hq

/-- **`growproc`**. -/
lemma growproc_spec (hR : ∀ f ∈ R, Kmem.Usable f) (h : Inv R k)
    (hc : (k.proc c).state = .runnable) {n : ℤ} (hlo : -2 ^ 31 ≤ n) (hhi : n < 2 ^ 31) :
    Wp (growproc c n) NoPage (fun r k' => Inv R k' ∧ ∃ d d' sz' m',
      (k.proc c).pgdir = some d ∧ k' = k.setSpace c m' d' sz' ∧
      Resized n k.holders k'.holders d d' (k.proc c).sz sz' k.mem m' r) k := by
  obtain ⟨f, d, hf, hd, hok⟩ := h.live (c := c) (by rw [hc]; simp)
  have hholds := holders_of_live hf hd
  have hcounts := h.counts
  rw [hholds] at hcounts
  obtain ⟨hnew, hnew'⟩ := newsz_eq hok.le hlo hhi
  unfold growproc
  refine wp_bind (wp_get (wp_bind (wp_pgdirOf hd ?_)))
  generalize (((k.proc c).sz : ℤ) + n) % 2 ^ 32 = t at hnew hnew' ⊢
  refine wp_ite (fun hpos => ?_) fun hpos => wp_ite (fun hneg => ?_) fun hneg => ?_
  · -- growing: `allocuvm` maps new pages, or returns zero
    have hnew := hnew (by omega)
    refine wp_bind (wp_vm ((allocuvm_counts hR hok.unmapped hcounts).post fun r m' hr => ?_))
    obtain ⟨sz', d'⟩ := r
    obtain ⟨hc', hg, hout⟩ := hr
    refine wp_bind (wp_setDir ?_)
    dsimp only at hc' hg hout ⊢
    rcases hout with ⟨rfl, hle, hlt, hfresh⟩ | ⟨rfl, hle, rfl⟩ | ⟨-, hlt, -, -⟩
    · refine wp_ite (fun hzero => by omega) fun _ => wp_bind (wp_setSz (wp_pure ?_))
      refine ⟨h.setSpace hc hf hc' (hok.grown hle hlt hfresh), d, d', _, m', hd, rfl, ?_⟩
      rw [holders_setSpace hf, hholds]
      exact .grown hpos hnew hlt rfl hg hfresh
    · refine wp_ite (fun _ => wp_pure ?_) fun hne => absurd rfl hne
      refine ⟨h.setSpace hc hf hc' hok, d', d', _, m', hd, rfl, ?_⟩
      rw [holders_setSpace hf, hholds]
      exact .same hg rfl rfl (fun _ => ⟨by omega, rfl⟩) (by omega) (by omega)
    · omega
  · -- shrinking
    by_cases hin : 0 ≤ (k.proc c).sz + n
    · have hnew := hnew hin
      refine wp_bind (wp_vm ((deallocuvm_counts hR hok.le hcounts).post fun r m' hr => ?_))
      obtain ⟨sz', d'⟩ := r
      obtain ⟨hsz', hcl, hc', hs, hframe, htable⟩ := hr
      have hdir : dirHolds d' = dirHolds d := by rw [dirHolds, dirHolds, hframe, htable]
      refine wp_bind (wp_setDir ?_)
      dsimp only at hsz' hcl hc' hs ⊢
      rw [if_neg (by omega)] at hsz'
      subst hsz'
      refine wp_ite (fun hzero => wp_pure ?_) fun hne => wp_bind (wp_setSz (wp_pure ?_))
      · have hok' := hok.cleared hcl (PGROUNDUP_mono (by omega)) le_rfl
        refine ⟨h.setSpace hc hf hc' hok', d, d', _, m', hd, rfl, ?_⟩
        rw [holders_setSpace hf, hholds]
        exact .shrunk _ hneg hnew hs hcl hdir (by rw [if_pos hzero]) (by rw [if_pos hzero])
      · have hok' := hok.cleared hcl le_rfl (by omega)
        refine ⟨h.setSpace hc hf hc' hok', d, d', _, m', hd, rfl, ?_⟩
        rw [holders_setSpace hf, hholds]
        exact .shrunk _ hneg hnew hs hcl hdir (by rw [if_neg hne]) (by rw [if_neg hne])
    · -- the new size wraps around to one that is not smaller
      have hwrap := hnew' (by omega)
      have hdealloc : deallocuvm (A := Kmem) d (k.proc c).sz t.toNat = pure ((k.proc c).sz, d) :=
        if_pos hwrap
      rw [hdealloc]
      refine wp_bind (wp_vm (wp_pure (wp_bind (wp_setDir ?_))))
      have hsame : ∀ r, Resized n k.holders k.holders d d (k.proc c).sz (k.proc c).sz k.mem k.mem r :=
        fun r => .same (Grows.refl _ _) rfl rfl (by omega) (by omega) (by omega)
      refine wp_ite (fun _ => wp_pure ?_) fun _ => wp_bind (wp_setSz (wp_pure ?_))
      · refine ⟨?_, d, d, (k.proc c).sz, k.mem, hd, rfl, ?_⟩
        · rw [setSpace_self hd]
          exact h
        · rw [setSpace_self hd]
          exact hsame _
      · refine ⟨?_, d, d, (k.proc c).sz, k.mem, hd, rfl, ?_⟩
        · rw [setSpace_self hd]
          exact h
        · rw [setSpace_self hd]
          exact hsame _
  · -- `n` is zero
    refine wp_pure ⟨h, d, d, (k.proc c).sz, k.mem, hd, (setSpace_self hd).symm, ?_⟩
    exact .same (Grows.refl _ _) rfl rfl (by omega) (fun _ => rfl) (by omega)

/-! ### exec -/

omit [Layout] in
lemma setMem_eq_setSpace {d : PageDir} (hd : (k.proc c).pgdir = some d) (m : Mem Kmem) :
    k.setMem m = k.setSpace c m d (k.proc c).sz := by
  conv_lhs => rw [← setSpace_self hd]
  rfl

omit [Layout] in
/-- Pages are given back that were taken after `h` held. -/
lemma Grows.shrinks {h h' : ℕ → ℕ} {m m₁ m' : Mem Kmem} (hg : Grows h h' m m₁)
    (hs : Shrinks h' h m₁ m') : Grows h h m m' :=
  ⟨fun _ _ => rfl, fun g hg' => (hs.pages g hg').trans (hg.pages g hg')⟩

/-- **`exec`**: the process gets the image of the program, or keeps its address space. -/
lemma exec_spec (hR : ∀ f ∈ R, Kmem.Usable f) (hE : ∀ e, NoPage e → E e) (h : Inv R k)
    (hc : (k.proc c).state = .runnable) (file : Option Elf) (argv : List (List UInt8))
    (hnull : ∀ elf, file = some elf → Space.image elf argv = none → E .nullDeref) :
    Wp (exec c file argv) E (fun r k' => Inv R k' ∧ ∃ d d' sz' m',
      (k.proc c).pgdir = some d ∧ k' = k.setSpace c m' d' sz' ∧
      match file.bind fun elf => Space.image elf argv with
      -- the file does not exist
      | none => r = -1 ∧ d' = d ∧ sz' = (k.proc c).sz ∧ Grows k.holders k'.holders k.mem m'
      | some s => r = 0 ∧ sz' = s.sz ∧ Shows m' d' s ∧ Private k'.holders d' s ∧
          KeepsOthers k k' c ∧ ∀ g, 0 < k.holders g → holds d' g = 0) k := by
  obtain ⟨f, d, hf, hd, hok⟩ := h.live (c := c) (by rw [hc]; simp)
  have hholds := holders_of_live hf hd
  unfold exec
  cases file with
  | none =>
    refine wp_pure ⟨h, d, d, (k.proc c).sz, k.mem, hd, (setSpace_self hd).symm, ?_⟩
    exact ⟨rfl, rfl, rfl, Grows.refl _ _⟩
  | some elf =>
    refine wp_bind (wp_vm (((setupkvm_counts hR h.counts).mono (fun _ _ h => h) hE).post
      fun r m₁ hr₁ => ?_))
    obtain ⟨d₁, rfl, hentry, hc₁, hg₁⟩ := hr₁
    refine wp_bind (wp_vm ((buildImage_built hR hE elf argv (hnull elf rfl) hentry hc₁ hg₁).post
      fun r m₂ hr₂ => ?_))
    obtain ⟨o, d₂⟩ := r
    obtain ⟨rfl, hb⟩ := hr₂
    dsimp only [Option.bind_some] at hb ⊢
    cases himage : Space.image elf argv with
    | none =>
      rw [himage] at hb
      -- the image cannot be built, and what there is of it is freed
      refine wp_bind (wp_vm (((freevm_counts hR hb.counts).mono (fun _ _ h => h) hE).post
        fun _ m₃ hm₃ => wp_pure ?_))
      obtain ⟨hc₃, hs₃⟩ := hm₃
      refine ⟨⟨hc₃, h.proc, h.kpgdir⟩, d, d, (k.proc c).sz, m₃, hd, setMem_eq_setSpace hd m₃, ?_⟩
      exact ⟨rfl, rfl, rfl, hb.grows.shrinks hs₃⟩
    | some s =>
      rw [himage] at hb
      have hshows := hb.shows s rfl
      have hown := hb.own s rfl
      -- the new directory is added to the holders, and the old one is taken away
      have hsplit : k.holders + holds d₂ = k.others c + Pi.single f 1 + holds d₂ + holds d := by
        rw [hholds]
        abel
      have hc₂ := hb.counts
      rw [hsplit] at hc₂
      refine wp_bind (wp_pgdirOf (k := (k.setMem m₁).setMem m₂) hd (wp_bind (wp_updProc ?_)))
      refine wp_bind (wp_vm (((freevm_counts hR hc₂).mono (fun _ _ h => h) hE).post
        fun _ m₃ hm₃ => wp_pure ?_))
      obtain ⟨hc₃, hs₃⟩ := hm₃
      have hok' : DirOk d₂ s.sz := ⟨hshows.le, hshows.unmapped, hb.kernel s rfl⟩
      refine ⟨h.setSpace hc hf hc₃ hok', d, d₂, s.sz, m₃, hd, rfl, rfl, rfl, ?_, ?_,
        fun g hg => ?_, fun g hg => ?_⟩
      · refine ⟨hshows.le, hshows.guard, fun q hq => ?_, hshows.unmapped⟩
        obtain ⟨e, he, hbytes⟩ := hshows.mapped q hq
        have hheld := one_le_userHolds (hshows.lt hq) he
        refine ⟨e, he, fun i hi => ?_⟩
        rw [hs₃.pages _ (by simp only [Pi.add_apply, holds]; omega), hbytes i hi]
      · intro q e hq he
        obtain ⟨hw, hone, hu⟩ := hown q e hq he
        refine ⟨hw, ?_, hu⟩
        have hheld := one_le_userHolds hq he
        have hsum := congrFun hsplit e.pfn
        rw [hone] at hsum
        show (k.setSpace c m₃ d₂ s.sz).holders e.pfn = 1
        rw [holders_setSpace hf]
        simp only [Pi.add_apply, holds] at hsum ⊢
        omega
      · show (k.setSpace c m₃ d₂ s.sz).holders g ≤ _ ∧ _
        rw [holders_setSpace hf]
        have hpos : 0 < k.holders g := hg.trans_le (by rw [k.holders_eq c]; exact Nat.le_add_right _ _)
        have hsame := hb.grows.count g hpos
        have hsum := congrFun hsplit g
        simp only [Pi.add_apply] at hsame hsum ⊢
        refine ⟨by omega, ?_⟩
        show m₃.pages g = _
        rw [hs₃.pages g (by simp only [Pi.add_apply]; omega), hb.grows.pages g hpos]
      · have hsame := hb.grows.count g hg
        simp only [Pi.add_apply] at hsame
        omega

/-! ### Page faults -/

/-- What a page fault at page `v` does: the handler repairs a user entry, or it leaves the
entries and the memory as they are. -/
inductive Faulted (k k' : Kernel) (d d' : PageDir) (v : ℕ) (m' : Mem Kmem) : Prop
  | user (e : Pte) (hv : v < NUPAGE) (he : d.entry v = some e)
      (hh : Handled k.holders d d' v e k.mem m')
  | kernel (hv : NUPAGE ≤ v) (hd : d'.entry = d.entry) (hm : m' = k.mem)

/-- The page that the entry of `v` selects has a counter, of at most one. -/
def LowCount (k : Kernel) (d : PageDir) (v : ℕ) : Prop :=
  ∀ e, d.entry v = some e → e.pfn < NPAGE ∧ k.mem.alloc.pgRef e.pfn ≤ 1

/-- The kernel's data and the free memory are mapped writable. -/
lemma kernelEntry_w {q : ℕ} {e : Pte} (h : kernelEntry kmap q = some e) (hf : Kmem.Usable e.pfn) :
    e.w = true := by
  obtain ⟨l, hl, rfl⟩ := Option.map_eq_some_iff.mp h
  have hmem := List.mem_of_find?_eq_some hl
  have hcov : l.Covers q := by simpa using List.find?_some hl
  have h1 := Layout.kernlink_lt
  have h2 := Layout.data_le
  have h3 := Layout.data_aligned
  have h4 := Layout.kend_lt
  have hkend := hf.1
  simp only [kmap, List.mem_cons, List.not_mem_nil, or_false] at hmem
  rcases hmem with rfl | rfl | rfl | rfl
  · rfl
  · -- the text of the kernel is not free memory
    obtain ⟨hc1, hc2⟩ := hcov
    simp only [Kmap.pte, Kmap.size, KERNLINK, KERNBASE, EXTMEM, PGSIZE, PHYSTOP]
      at hkend hc1 hc2 h1 h2 h3 h4
    omega
  · rfl
  · rfl

lemma cowHandler_kernel {d : PageDir} {va : ℕ} (hv : NUPAGE ≤ va / PGSIZE)
    (hR : ∀ f ∈ R, Kmem.Usable f) (h : k.mem.alloc.Counts R k.holders)
    (hkernel : ∀ q, NUPAGE ≤ q → d.entry q = kernelEntry kmap q)
    (hlow : LowCount k d (va / PGSIZE)) :
    Wp (cowHandler d va) (fun e => d.entry (va / PGSIZE) = none ∧ Clean e) (fun d' m' =>
      d'.frame = d.frame ∧ d'.table = d.table ∧ d'.entry = d.entry ∧ m' = k.mem) k.mem := by
  unfold cowHandler
  generalize va / PGSIZE = v at hv hlow ⊢
  cases hp : d.pde (PDX v) with
  | none =>
    refine wp_throw ⟨by rw [PageDir.entry, hp]; rfl, ?_⟩
    simp [Clean, Err.FromAllocator]
  | some t =>
    cases he : d.entry v with
    | none =>
      refine wp_throw ⟨rfl, ?_⟩
      simp [Clean, Err.FromAllocator]
    | some e =>
      obtain ⟨hlt, hle⟩ := hlow e he
      have hread : Wp (getRefc e.pfn) (fun err => some e = none ∧ Clean err)
          (fun r m' => r = k.mem.alloc.pgRef e.pfn ∧ m' = k.mem) k.mem := by
        have hok : getRefc e.pfn k.mem = .ok (k.mem.alloc.pgRef e.pfn, k.mem) := by
          rw [getRefc, Kmem.getRefc_of_lt hlt]
          rfl
        rw [Wp, hok]
        exact ⟨rfl, rfl⟩
      refine hread.bind fun r m₁ hr₁ => ?_
      obtain ⟨rfl, rfl⟩ := hr₁
      refine wp_ite (fun hmany => by omega) fun _ => wp_ite (fun hone => ?_) fun _ => ?_
      · -- a page with a holder is free memory, which is writable already
        have hheld : 0 < k.holders e.pfn := by
          have hcount := h.count e.pfn
          omega
        have hw : e.w = true := kernelEntry_w ((hkernel v hv).symm.trans he) (hR _ (h.held _ hheld))
        have hset := PageDir.setEntry_entry d (d.table_isSome_of_entry he) (some { e with w := true })
        refine wp_pure ⟨d.setEntry_frame _ _, d.setEntry_table _ _, ?_, rfl⟩
        have heq : ({ e with w := true } : Pte) = e := by rw [← hw]
        rw [hset, heq, ← he, Function.update_eq_self]
      · exact wp_pure ⟨rfl, rfl, rfl, rfl⟩

lemma DirOk.congr {d d' : PageDir} {sz : ℕ} (hd : DirOk d sz)
    (h : ∀ q, d.entry q = none ∨ NUPAGE ≤ q → d'.entry q = d.entry q) : DirOk d' sz := by
  refine ⟨hd.le, fun q hq hq' => ?_, fun q hq => ?_⟩
  · rw [h q (Or.inl (hd.unmapped q hq hq'))]
    exact hd.unmapped q hq hq'
  · rw [h q (Or.inr hq)]
    exact hd.kernel q hq

/-- **A page fault**, in the user half or at a page with a low counter. -/
lemma fault_spec (hR : ∀ f ∈ R, Kmem.Usable f) (h : Inv R k) (hc : (k.proc c).state = .runnable)
    {d : PageDir} (hd : (k.proc c).pgdir = some d) {va : ℕ}
    (hva : va / PGSIZE < NUPAGE ∨ LowCount k d (va / PGSIZE)) :
    Wp (fault c va) (fun e => NoPage e ∨ d.entry (va / PGSIZE) = none ∧ Clean e)
      (fun _ k' => Inv R k' ∧ ∃ d' m', k' = k.setSpace c m' d' (k.proc c).sz ∧
        d'.frame = d.frame ∧ d'.table = d.table ∧ Faulted k k' d d' (va / PGSIZE) m') k := by
  obtain ⟨f, d₀, hf, hd₀, hok⟩ := h.live (c := c) (by rw [hc]; simp)
  obtain rfl := Option.some.inj (hd₀.symm.trans hd)
  have hholds := holders_of_live hf hd
  unfold fault
  refine wp_bind (wp_pgdirOf hd ?_)
  rcases lt_or_ge (va / PGSIZE) NUPAGE with hv | hv
  · have hcounts := h.counts
    rw [hholds] at hcounts
    refine wp_bind (wp_vm ((cowHandler_counts hR hv (fun _ => Or.inl)
      (fun hnone e he => Or.inr ⟨hnone, he⟩) hcounts).post fun d' m' hr => wp_setDir ?_))
    obtain ⟨hframe, htable, hc', e, he, hh⟩ := hr
    rw [← hholds] at hh
    have hother : ∀ q, d₀.entry q = none ∨ NUPAGE ≤ q → d'.entry q = d₀.entry q := by
      intro q hq
      have hne : q ≠ va / PGSIZE := by
        rintro rfl
        rcases hq with hq | hq
        · rw [he] at hq
          exact absurd hq (by simp)
        · omega
      cases hh with
      | write _ hentry _ => rw [hentry, Function.update_of_ne hne]
      | copy _ _ _ hentry _ => rw [hentry, Function.update_of_ne hne]
    exact ⟨h.setSpace hc hf hc' (hok.congr hother), d', m', rfl, hframe, htable,
      .user e hv he hh⟩
  · have hlow := hva.resolve_left (by omega)
    refine wp_bind (wp_vm ((cowHandler_kernel hv hR h.counts hok.kernel hlow).mono
      (fun d' m' hr => wp_setDir ?_) fun _ => Or.inr))
    obtain ⟨hframe, htable, hentry, rfl⟩ := hr
    have hholds' : holds d' = holds d₀ := by
      rw [holds, holds, userHolds_congr hentry, dirHolds, dirHolds, hframe, htable]
    have hc' := h.counts
    rw [hholds, ← hholds'] at hc'
    exact ⟨h.setSpace hc hf hc' (hok.congr fun q _ => by rw [hentry]), d', k.mem, rfl, hframe,
      htable, .kernel hv hentry rfl⟩

/-! ### fork -/

omit [Layout] in
lemma slots_find {P : Slot → Prop} [DecidablePred P] {i : Slot}
    (h : slots.find? (fun i => decide (P i)) = some i) : P i := by
  simpa using List.find?_some h

omit [Layout] in
lemma slots_find_none {P : Slot → Prop} [DecidablePred P]
    (h : slots.find? (fun i => decide (P i)) = none) (i : Slot) : ¬P i := by
  simpa using List.find?_eq_none.mp h i (List.mem_finRange i)

omit [Layout] in
lemma ne_of_unused {i : Slot} (hc : (k.proc c).state = .runnable)
    (hi : (k.proc i).state = .unused) : i ≠ c := by
  rintro rfl
  rw [hc] at hi
  exact absurd hi (by simp)

/-- The first unused slot. -/
def firstUnused (k : Kernel) : Option Slot := slots.find? fun i => (k.proc i).state = .unused

/-- The table after `allocproc` took slot `i` and page `f`. -/
def Kernel.allocated (k : Kernel) (i : Slot) (f : ℕ) (m : Mem Kmem) : Kernel :=
  { (k.setMem m).setProc i { k.proc i with state := .embryo, pid := k.nextpid, kstack := some f } with
    nextpid := k.nextpid + 1 }

/-- **`allocproc`**. -/
lemma allocproc_spec (hR : ∀ f ∈ R, Kmem.Usable f) (h : Inv R k) :
    Wp allocproc NoPage (fun r k' => (r = none ∧ firstUnused k = none ∧ k' = k) ∨
      ∃ i f m', r = some i ∧ firstUnused k = some i ∧ k' = k.allocated i f m' ∧
        k.holders f = 0 ∧ m'.alloc.Counts R (k.holders + Pi.single f 1) ∧
        m'.pages = k.mem.pages) k := by
  unfold allocproc
  refine wp_bind (wp_get ?_)
  cases hfind : slots.find? fun i => decide ((k.proc i).state = .unused) with
  | none => exact wp_pure (Or.inl ⟨rfl, hfind, rfl⟩)
  | some i =>
    refine wp_bind (wp_updProc (wp_bind (wp_modify (wp_bind (wp_vm ?_)))))
    refine (kalloc_counts hR h.counts).post fun r m' hr => ?_
    obtain ⟨f, rfl, -, hf, hc, hpages⟩ := hr
    refine wp_bind (wp_updProc (wp_pure (Or.inr ⟨i, f, m', rfl, hfind, ?_, hf, hc, hpages⟩)))
    simp only [Kernel.allocated, Kernel.setProc, Kernel.setMem, Function.update_idem,
      Function.update_self]

/-- The state after a successful `fork` into slot `i`. -/
def Kernel.forked (k : Kernel) (c i : Slot) (f : ℕ) (d' child : PageDir) (m : Mem Kmem) : Kernel :=
  { (k.setSpace c m d' (k.proc c).sz).setProc i
      ⟨.runnable, k.nextpid, some c, (k.proc c).sz, some f, some child⟩ with
    nextpid := k.nextpid + 1 }

/-- What a successful `fork` does. -/
structure Forked (k k' : Kernel) (c i : Slot) (f : ℕ) (d d' child : PageDir) (m' : Mem Kmem) :
    Prop where
  pgdir : (k.proc c).pgdir = some d
  state : k' = k.forked c i f d' child m'
  frame : d'.frame = d.frame
  present : ∀ q, q < PGROUNDUP (k.proc c).sz → (d.entry q).isSome
  parent : ∀ q, d'.entry q =
    if q < PGROUNDUP (k.proc c).sz then (d.entry q).map Pte.readOnly else d.entry q
  child : ∀ q, child.entry q =
    if q < PGROUNDUP (k.proc c).sz then (d.entry q).map Pte.readOnly else kernelEntry kmap q
  pages : ∀ g, 0 < k.holders g → m'.pages g = k.mem.pages g
  count : ∀ g, 0 < k.holders g → k'.holders g = k.holders g + userHolds d g

omit [Layout] in
lemma allocated_setDir {i : Slot} (hic : i ≠ c) (f : ℕ) (m₁ m : Mem Kmem) (d' : PageDir) :
    ((k.allocated i f m₁).setMem m).setProc c
        { ((k.allocated i f m₁).setMem m).proc c with pgdir := some d' } =
      (k.setSpace c m d' (k.proc c).sz).allocated i f m := by
  have hc : ((k.allocated i f m₁).setMem m).proc c = k.proc c := Function.update_of_ne hic.symm _ _
  rw [hc]
  simp only [Kernel.allocated, Kernel.setSpace, Kernel.setProc, Kernel.setMem,
    Function.update_of_ne hic, Function.update_comm hic]

omit [Layout] in
lemma forked_eq {i : Slot} (f : ℕ) (m : Mem Kmem) (d' child : PageDir) :
    ((k.setSpace c m d' (k.proc c).sz).allocated i f m).setProc i
        { ((k.setSpace c m d' (k.proc c).sz).allocated i f m).proc i with
          pgdir := some child, sz := (k.proc c).sz, parent := some c, state := .runnable } =
      k.forked c i f d' child m := by
  simp only [Kernel.allocated, Kernel.forked, Kernel.setProc, Kernel.setMem, Function.update_idem,
    Function.update_self]
  rfl

omit [Layout] in
lemma holders_forked {i : Slot} (hic : i ≠ c) (hi : (k.proc i).holders = 0) (f : ℕ) (m : Mem Kmem)
    (d' child : PageDir) : (k.forked c i f d' child m).holders =
      (k.setSpace c m d' (k.proc c).sz).holders + (Pi.single f 1 + holds child) := by
  have hzero : ((k.setSpace c m d' (k.proc c).sz).proc i).holders = 0 := by
    rw [Kernel.setSpace, Kernel.setProc_proc, Function.update_of_ne hic]
    exact hi
  have hsplit := (k.setSpace c m d' (k.proc c).sz).holders_eq i
  rw [hzero, add_zero] at hsplit
  rw [hsplit]
  refine ((k.setSpace c m d' (k.proc c).sz).holders_setProc i _).trans ?_
  rw [Proc.holders_of rfl rfl]

section
variable (k c) (i : Slot) (f : ℕ) (d' child : PageDir) (m : Mem Kmem)

omit [Layout] in
lemma forked_child : (k.forked c i f d' child m).proc i =
    ⟨.runnable, k.nextpid, some c, (k.proc c).sz, some f, some child⟩ :=
  Function.update_self _ _ _

omit [Layout] in
lemma forked_parent {i : Slot} (hic : i ≠ c) : (k.forked c i f d' child m).proc c =
    { k.proc c with pgdir := some d', sz := (k.proc c).sz } := by
  refine (Function.update_of_ne hic.symm _ _).trans ?_
  exact Function.update_self _ _ _

omit [Layout] in
lemma forked_other {i j : Slot} (hji : j ≠ i) (hjc : j ≠ c) :
    (k.forked c i f d' child m).proc j = k.proc j := by
  refine (Function.update_of_ne hji _ _).trans ?_
  exact Function.update_of_ne hjc _ _

end

section
variable {i : Slot} {f : ℕ} {d d' child : PageDir} {m' : Mem Kmem} {k' : Kernel}

lemma Forked.proc_child (h : Forked k k' c i f d d' child m') : k'.proc i =
    ⟨.runnable, k.nextpid, some c, (k.proc c).sz, some f, some child⟩ := by
  rw [h.state, forked_child]

lemma Forked.proc_parent (h : Forked k k' c i f d d' child m') (hic : i ≠ c) : k'.proc c =
    { k.proc c with pgdir := some d', sz := (k.proc c).sz } := by
  rw [h.state, forked_parent k c f d' child m' hic]

lemma Forked.proc_other {j : Slot} (h : Forked k k' c i f d d' child m') (hji : j ≠ i)
    (hjc : j ≠ c) : k'.proc j = k.proc j := by
  rw [h.state, forked_other k c f d' child m' hji hjc]

lemma Forked.child_pgdir (h : Forked k k' c i f d d' child m') : (k'.proc i).pgdir = some child := by
  rw [h.proc_child]

lemma Forked.parent_pgdir (h : Forked k k' c i f d d' child m') (hic : i ≠ c) :
    (k'.proc c).pgdir = some d' := by
  rw [h.proc_parent hic]

/-- Parent and child have the pages of the parent, read-only. -/
lemma Forked.pte {j : Slot} {q : ℕ} (h : Forked k k' c i f d d' child m') (hic : i ≠ c)
    (hj : j = i ∨ j = c) (hq : q < PGROUNDUP (k.proc c).sz) :
    k'.pte j q = (k.pte c q).map Pte.readOnly := by
  rw [pte_of_pgdir h.pgdir]
  rcases hj with rfl | rfl
  · rw [pte_of_pgdir h.child_pgdir, h.child q, if_pos hq]
  · rw [pte_of_pgdir (h.parent_pgdir hic), h.parent q, if_pos hq]

end

/-- **`fork`**: the child gets the pages of its parent, and both may only read them. -/
lemma fork_spec (hR : ∀ f ∈ R, Kmem.Usable f) (h : Inv R k) (hc : (k.proc c).state = .runnable)
    {d : PageDir} (hd : (k.proc c).pgdir = some d) (herr : CopyErr E d 0 (PGROUNDUP (k.proc c).sz)) :
    Wp (fork c) E (fun r k' => Inv R k' ∧
      ((r = -1 ∧ firstUnused k = none ∧ k' = k) ∨
        ∃ i f d' child m', r = k.nextpid ∧ firstUnused k = some i ∧
          Forked k k' c i f d d' child m')) k := by
  obtain ⟨fc, d₀, hfc, hd₀, hok⟩ := h.live (c := c) (by rw [hc]; simp)
  obtain rfl := Option.some.inj (hd₀.symm.trans hd)
  have hholds := holders_of_live hfc hd
  unfold fork
  refine ((allocproc_spec hR h).mono (fun _ _ h => h) herr.noPage).bind fun r k₁ hr₁ => ?_
  rcases hr₁ with ⟨rfl, hnone, rfl⟩ | ⟨i, f, m₁, rfl, hfind, rfl, hf, hc₁, hpages₁⟩
  · exact wp_pure ⟨h, Or.inl ⟨rfl, hnone, rfl⟩⟩
  have hunused : (k.proc i).state = .unused := slots_find hfind
  have hic := ne_of_unused hc hunused
  have hproc : (k.allocated i f m₁).proc c = k.proc c := Function.update_of_ne hic.symm _ _
  have hd₁ : ((k.allocated i f m₁).proc c).pgdir = some d₀ := by rw [hproc, hd]
  refine wp_bind (wp_pgdirOf hd₁ (wp_bind (wp_get ?_)))
  rw [hproc]
  dsimp only
  -- the child holds its kernel stack, and its directory after `copyuvm`
  have hsplit : k.holders + Pi.single f 1 = k.others c + Pi.single fc 1 + Pi.single f 1 + holds d₀ := by
    rw [hholds]
    abel
  rw [hsplit] at hc₁
  refine wp_bind (wp_vm ((copyuvm_counts hR hok.le herr hc₁).post fun r m₂ hr₂ => ?_))
  obtain ⟨o, d'⟩ := r
  obtain ⟨c₀, child, rfl, hentry₀, hcopy, hg'⟩ := hr₂
  refine wp_bind (wp_updProc_eq (allocated_setDir hic f m₁ m₂ d') ?_)
  refine wp_bind (wp_updProc_eq (forked_eq f m₂ d' child) (wp_bind (wp_get (wp_pure ?_))))
  have hchild := forked_child k c i f d' child m₂
  have hself := forked_parent k c f d' child m₂ hic
  have hholds' := holders_forked hic (h.holders_unused hunused) f m₂ d' child
  rw [holders_setSpace hfc] at hholds'
  have hchildEntry : ∀ q, child.entry q =
      if q < PGROUNDUP (k.proc c).sz then (d₀.entry q).map Pte.readOnly else kernelEntry kmap q := by
    intro q
    have hq := hcopy.child q
    rw [hentry₀] at hq
    simpa using hq
  have hparentEntry : ∀ q, d'.entry q =
      if q < PGROUNDUP (k.proc c).sz then (d₀.entry q).map Pte.readOnly else d₀.entry q := by
    intro q
    simpa using hcopy.parent q
  have hlast := PGROUNDUP_le hok.le
  -- parent and child name the same pages
  have huser : userHolds child = userHolds d₀ := by
    refine sum_congr rfl fun q hq => ?_
    rw [hchildEntry q]
    by_cases hin : q < PGROUNDUP (k.proc c).sz
    · rw [if_pos hin]
      cases d₀.entry q <;> rfl
    · rw [if_neg hin, kernelEntry_user (mem_range.mp hq),
        hok.unmapped q (not_lt.mp hin) (mem_range.mp hq)]
  have hparent := holds_readOnly hcopy.parent hcopy.frame hcopy.table
  dsimp only at hparent
  have hpos : ∀ g, 0 < k.holders g →
      0 < (k.others c + Pi.single fc 1 + Pi.single f 1 + holds d₀ : ℕ → ℕ) g := by
    intro g hg
    rw [← hsplit]
    exact Nat.add_pos_left hg _
  have hcount : ∀ g, 0 < k.holders g →
      (k.forked c i f d' child m₂).holders g = k.holders g + userHolds d₀ g := by
    intro g hg
    have hdir := hg'.count g (hpos g hg)
    have hgf : g ≠ f := by
      rintro rfl
      omega
    rw [hholds', hparent, hholds, holds.eq_1 child, huser]
    simp only [Pi.add_apply, Pi.single_eq_of_ne hgf] at hdir ⊢
    omega
  refine ⟨⟨?_, fun j => ?_, h.kpgdir⟩, Or.inr ⟨i, f, d', child, m₂, ?_, hfind, hd, rfl,
    hcopy.frame, fun q => hcopy.present q (Nat.zero_le _), hparentEntry, hchildEntry, ?_, hcount⟩⟩
  · have hc₂ := hcopy.counts
    have heq : k.others c + Pi.single fc 1 + Pi.single f 1 + holds d' + holds child =
        k.others c + Pi.single fc 1 + holds d' + (Pi.single f 1 + holds child) := by abel
    rw [hholds', ← heq]
    exact hc₂
  · rcases eq_or_ne j i with rfl | hji
    · rw [hchild]
      refine ⟨f, child, rfl, rfl, hok.le, fun q hq hq' => ?_, fun q hq => ?_⟩
      · rw [hchildEntry q, if_neg (not_lt.mpr hq)]
        exact kernelEntry_user hq'
      · rw [hchildEntry q, if_neg (by omega)]
    · rcases eq_or_ne j c with rfl | hjc
      · rw [hself]
        refine ProcOk.of_live (Or.inl hc) hfc rfl (hok.congr fun q hq => ?_)
        rw [hparentEntry q]
        by_cases hin : q < PGROUNDUP (k.proc j).sz
        · rw [if_pos hin]
          rcases hq with hq | hq
          · rw [hq]
            rfl
          · omega
        · rw [if_neg hin]
      · rw [forked_other k c f d' child m₂ hji hjc]
        exact h.proc j
  · exact congrArg Proc.pid hchild
  · intro g hg
    rw [hg'.pages g (hpos g hg), hpages₁]

/-! ### exit and wait -/

/-- The state after `exit`. -/
def Kernel.exited (k : Kernel) (c : Slot) : Kernel :=
  { k with
    proc := fun i =>
      let p := if (k.proc i).parent = some c then { k.proc i with parent := k.initproc }
        else k.proc i
      if i = c then { p with state := .zombie } else p }

omit [Layout] in
/-- `exit` changes states and parents only. -/
lemma exited_proc (k : Kernel) (c i : Slot) :
    ((k.exited c).proc i).kstack = (k.proc i).kstack ∧
      ((k.exited c).proc i).pgdir = (k.proc i).pgdir ∧ ((k.exited c).proc i).sz = (k.proc i).sz ∧
      ((k.exited c).proc i).pid = (k.proc i).pid ∧
      ((k.exited c).proc i).state = if i = c then .zombie else (k.proc i).state := by
  simp only [Kernel.exited]
  split_ifs <;> simp

omit [Layout] in
lemma holders_exited (k : Kernel) (c : Slot) : (k.exited c).holders = k.holders := by
  have hsum : ∑ i, ((k.exited c).proc i).holders = ∑ i, (k.proc i).holders := by
    refine sum_congr rfl fun i _ => ?_
    obtain ⟨hk, hd, -⟩ := exited_proc k c i
    rw [Proc.holders, Proc.holders, hk, hd]
  rw [Kernel.holders, hsum]
  rfl

/-- **`exit`**. -/
lemma exit_spec (h : Inv R k) (hc : (k.proc c).state = .runnable)
    (hinit : k.initproc = some c → E (.panic "init exiting")) :
    Wp (exit c) E (fun _ k' => Inv R k' ∧ k' = k.exited c) k := by
  have hinv : Inv R (k.exited c) := by
    refine ⟨?_, fun i => ?_, h.kpgdir⟩
    · rw [holders_exited]
      exact h.counts
    · obtain ⟨hk, hd, hsz, -, hs⟩ := exited_proc k c i
      have hi := h.proc i
      rw [ProcOk] at hi ⊢
      rw [hk, hd, hsz, hs]
      rcases eq_or_ne i c with rfl | hne
      · rw [if_pos rfl]
        rwa [hc] at hi
      · rwa [if_neg hne]
  unfold exit
  refine wp_bind (wp_get (wp_ite (fun heq => wp_throw (hinit heq)) fun _ => ?_))
  have heq : ({ k with
      proc := fun i => if (k.proc i).parent = some c then { k.proc i with parent := k.initproc }
        else k.proc i } : Kernel).setProc c
      { (if (k.proc c).parent = some c then { k.proc c with parent := k.initproc } else k.proc c) with
        state := .zombie } = k.exited c := by
    simp only [Kernel.setProc, Kernel.exited, Kernel.mk.injEq, true_and, and_true]
    funext i
    rcases eq_or_ne i c with rfl | hne
    · rw [Function.update_self, if_pos rfl]
    · rw [Function.update_of_ne hne, if_neg hne]
  exact wp_bind (wp_modify (wp_updProc_eq heq ⟨hinv, rfl⟩))

/-- The first zombie child of process `c`. -/
def zombieChild (k : Kernel) (c : Slot) : Option Slot :=
  slots.find? fun i => (k.proc i).parent = some c ∧ (k.proc i).state = .zombie

/-- The state after process `i` was reaped. -/
def Kernel.reaped (k : Kernel) (i : Slot) (m : Mem Kmem) : Kernel :=
  (k.setMem m).setProc i { k.proc i with
    kstack := none, pgdir := none, pid := 0, parent := none, state := .unused }

omit [Layout] in
lemma reaped_self (k : Kernel) (i : Slot) (m : Mem Kmem) :
    (k.reaped i m).proc i = ⟨.unused, 0, none, (k.proc i).sz, none, none⟩ :=
  Function.update_self _ _ _

omit [Layout] in
lemma reaped_other {i j : Slot} (hj : j ≠ i) (m : Mem Kmem) : (k.reaped i m).proc j = k.proc j :=
  Function.update_of_ne hj _ _

omit [Layout] in
lemma holders_reaped (k : Kernel) (i : Slot) (m : Mem Kmem) :
    (k.reaped i m).holders = k.others i := by
  refine ((k.setMem m).holders_setProc i _).trans ?_
  exact add_zero _

/-- **`wait`**. -/
lemma wait_spec (hR : ∀ f ∈ R, Kmem.Usable f) (h : Inv R k) :
    Wp (wait c) NoPage (fun r k' => Inv R k' ∧
      ((r = none ∧ zombieChild k c = none ∧ k' = k) ∨
        ∃ i m', r = some (k.proc i).pid ∧ zombieChild k c = some i ∧ k' = k.reaped i m' ∧
          KeepsOthers k k' i)) k := by
  unfold wait
  refine wp_bind (wp_get ?_)
  cases hfind : slots.find? fun i =>
      decide ((k.proc i).parent = some c ∧ (k.proc i).state = .zombie) with
  | none => exact wp_pure ⟨h, Or.inl ⟨rfl, hfind, rfl⟩⟩
  | some i =>
    have hi := (slots_find hfind).2
    obtain ⟨f, d, hf, hd, hok⟩ := h.live (c := i) (by rw [hi]; simp)
    have hholds := holders_of_live hf hd
    have hc₀ := h.counts
    -- first the kernel stack of the zombie is freed, and then its directory
    have hsplit : k.holders = k.others i + holds d + Pi.single f 1 := by
      rw [hholds]
      abel
    rw [hsplit] at hc₀
    have hkstack : Wp (freeKstack i) NoPage (fun _ k' => ∃ m₁,
        k' = (k.setMem m₁).setProc i { k.proc i with kstack := none } ∧
        m₁.alloc.Counts R (k.others i + holds d) ∧
        Shrinks (k.others i + holds d + Pi.single f 1) (k.others i + holds d) k.mem m₁) k := by
      unfold freeKstack
      refine wp_bind (wp_get ?_)
      rw [hf]
      refine wp_bind (wp_vm ((kfree_shrinks hR hc₀).post fun _ m₁ hm₁ => wp_updProc ?_))
      exact ⟨m₁, rfl, hm₁⟩
    refine hkstack.bind fun _ k₁ hk₁ => ?_
    obtain ⟨m₁, rfl, hc₁, hs₁⟩ := hk₁
    have hd₁ : (((k.setMem m₁).setProc i { k.proc i with kstack := none }).proc i).pgdir = some d := by
      rw [Kernel.setProc_proc, Function.update_self]
      exact hd
    refine wp_bind (wp_pgdirOf hd₁ (wp_bind (wp_vm ?_)))
    refine (freevm_counts hR hc₁).post fun _ m₂ hm₂ => ?_
    obtain ⟨hc₂, hs₂⟩ := hm₂
    have heq : ((((k.setMem m₁).setProc i { k.proc i with kstack := none }).setMem m₂).setProc i
        { (((k.setMem m₁).setProc i { k.proc i with kstack := none }).setMem m₂).proc i with
          pgdir := none, pid := 0, parent := none, state := .unused }) = k.reaped i m₂ := by
      simp only [Kernel.reaped, Kernel.setProc, Kernel.setMem, Function.update_idem,
        Function.update_self]
    have hholds' := holders_reaped k i m₂
    refine wp_bind (wp_updProc_eq heq (wp_pure ⟨⟨?_, fun j => ?_, h.kpgdir⟩,
      Or.inr ⟨i, m₂, rfl, hfind, rfl, fun g hg => ?_⟩⟩))
    · rw [hholds']
      exact hc₂
    · rcases eq_or_ne j i with rfl | hji
      · rw [reaped_self]
        exact ⟨rfl, rfl⟩
      · rw [reaped_other hji]
        exact h.proc j
    · rw [hholds', k.holders_eq i]
      refine ⟨Nat.le_add_right _ _, ?_⟩
      show m₂.pages g = k.mem.pages g
      rw [hs₂.pages g hg, hs₁.pages g (Nat.add_pos_left hg _)]

/-! ### Boot -/

/-- **`kvmalloc`**. -/
lemma kvmalloc_spec (hR : ∀ f ∈ R, Kmem.Usable f) (h : Inv R k) (hboot : k.kpgdir = none) :
    Wp kvmalloc NoPage (fun _ k' => Inv R k' ∧ k'.proc = k.proc ∧ k'.nextpid = k.nextpid ∧
      k'.initproc = k.initproc ∧ Grows k.holders k'.holders k.mem k'.mem) k := by
  unfold kvmalloc
  refine wp_bind (wp_vm ((setupkvm_counts hR h.counts).post fun r m' hr => wp_modify ?_))
  obtain ⟨d, rfl, hentry, hc, hg⟩ := hr
  have huser : userHolds d = 0 := userHolds_eq_zero fun q hq => by
    rw [hentry]
    exact kernelEntry_user hq
  have hholds : ({ k.setMem m' with kpgdir := some d } : Kernel).holders =
      k.holders + dirHolds d := by
    have hd : holds d = dirHolds d := by rw [holds, huser, add_zero]
    rw [Kernel.holders, Kernel.holders, hboot, Option.elim_some, Option.elim_none, hd, zero_add]
    show dirHolds d + ∑ i, (k.proc i).holders + pipeHolders k.pipes = _
    abel
  refine ⟨⟨?_, h.proc, fun d' hd' => ?_⟩, rfl, rfl, rfl, ?_⟩
  · rw [hholds]
    exact hc
  · obtain rfl := Option.some.inj hd'
    exact hentry
  · rw [hholds]
    exact hg

/-- **`inituvm`**. -/
lemma inituvm_built (hR : ∀ f ∈ R, Kmem.Usable f) {hr : ℕ → ℕ} {m₀ m : Mem Kmem} {d : PageDir}
    (hE : ∀ e, NoPage e → E e) (init : List UInt8)
    (hlen : PGSIZE ≤ init.length → E (.panic "inituvm: more than a page"))
    (hentry : d.entry = kernelEntry kmap) (hc : m.alloc.Counts R (hr + dirHolds d))
    (hg : Grows hr (hr + dirHolds d) m₀ m) :
    Wp (inituvm d init) E (fun d' m' => Built R hr m₀ m' d' (some (Space.initial init))) m := by
  have hpage : (0 : ℕ) < NUPAGE := by decide
  have hone : PGROUNDUP PGSIZE = 1 := by decide
  unfold inituvm
  refine wp_ite (fun h => wp_throw (hlen h)) fun _ => ?_
  refine ((kalloc_counts hR hc).mono (fun _ _ h => h) hE).bind fun r m₁ hr₁ => ?_
  obtain ⟨f, rfl, -, hf, hc₁, hpages₁⟩ := hr₁
  have hcomm : hr + dirHolds d + Pi.single f 1 = hr + Pi.single f 1 + dirHolds d := by abel
  rw [hcomm] at hc₁
  have hnone : d.entry 0 = none := by rw [hentry]; exact kernelEntry_user hpage
  have hmap := mappages_page_counts (f := f) hR true true (show 0 < NVPAGE by decide) hnone hc₁
  rw [Nat.zero_mul] at hmap
  refine Wp.bind (hmap.mono (fun _ _ h => h) hE) fun r m₂ hr₂ => ?_
  obtain ⟨ok, d₁⟩ := r
  obtain ⟨rfl, hentry₁, hc₂, hg₂⟩ := hr₂
  -- the page is the only user page
  have huser : userHolds d₁ = Pi.single f 1 := by
    have hupd := userHolds_update hpage hentry₁
    have hzero : userHolds d = 0 := userHolds_eq_zero fun q hq => by
      rw [hentry]
      exact kernelEntry_user hq
    have hnone' : one ((d.entry 0).map Pte.pfn) = 0 := by rw [hnone]; rfl
    rw [hnone', hzero, add_zero, zero_add] at hupd
    exact hupd
  have hsum : hr + Pi.single f 1 + dirHolds d₁ = hr + holds d₁ := by
    rw [holds, huser]
    abel
  rw [hsum] at hc₂ hg₂
  -- it was free, so nobody else holds it
  have hzero : hr f = 0 ∧ (hr + holds d₁) f = 1 := by
    have hpos : 0 < (hr + Pi.single f 1 + dirHolds d : ℕ → ℕ) f := by
      simp only [Pi.add_apply, Pi.single_eq_same]
      omega
    have hcount := hg₂.count f hpos
    simp only [Pi.add_apply, Pi.single_eq_same] at hf hcount ⊢
    omega
  have hother : ∀ q, q ≠ 0 → d₁.entry q = kernelEntry kmap q := fun q hq => by
    rw [hentry₁, Function.update_of_ne hq, hentry]
  have hself : d₁.entry 0 = some ⟨f, true, true⟩ := by rw [hentry₁, Function.update_self]
  refine wp_bind (wp_setPage (wp_pure ⟨hc₂, ⟨fun g hg' => ?_, fun g hg' => ?_⟩, fun s hs => ?_,
    fun s hs => ?_, fun s _ q hq => hother q (by omega)⟩))
  · have hfirst := hg.count g hg'
    have hpos : 0 < (hr + Pi.single f 1 + dirHolds d : ℕ → ℕ) g := by
      simp only [Pi.add_apply]
      omega
    have hgf : g ≠ f := by
      rintro rfl
      omega
    rw [hg₂.count g hpos]
    simp only [Pi.add_apply, Pi.single_eq_of_ne hgf] at hfirst ⊢
    omega
  · have hgf : g ≠ f := by
      rintro rfl
      omega
    have hpos : 0 < (hr + Pi.single f 1 + dirHolds d : ℕ → ℕ) g := by
      simp only [Pi.add_apply]
      omega
    rw [Mem.put_pages, Function.update_of_ne hgf, hg₂.pages g hpos, hpages₁, hg.pages g hg']
  · obtain rfl := Option.some.inj hs
    refine ⟨(show PGSIZE ≤ KERNBASE by decide), by simp [Space.initial], fun q hq => ?_,
      fun q hq hq' => ?_⟩
    · obtain rfl : q = 0 := by
        have hq' : q < PGROUNDUP PGSIZE := hq
        omega
      refine ⟨_, hself, fun i _ => ?_⟩
      rw [Mem.put_pages, Function.update_self]
      show _ = init.getD (0 * PGSIZE + i) 0
      rw [Nat.zero_mul, Nat.zero_add]
    · have hq₁ : PGROUNDUP PGSIZE ≤ q := hq
      rw [hother q (by omega)]
      exact kernelEntry_user hq'
  · obtain rfl := Option.some.inj hs
    intro q e hq he
    rcases eq_or_ne q 0 with rfl | hne
    · obtain rfl := Option.some.inj (hself.symm.trans he)
      exact ⟨rfl, hzero.2, by simp [Space.initial]⟩
    · rw [hother q hne, kernelEntry_user hq] at he
      exact absurd he (by simp)

/-- The state after `userinit` put the first process in slot `i`. -/
def Kernel.booted (k : Kernel) (i : Slot) (f : ℕ) (d : PageDir) (m : Mem Kmem) : Kernel :=
  { (k.setMem m).setProc i ⟨.runnable, k.nextpid, (k.proc i).parent, PGSIZE, some f, some d⟩ with
    nextpid := k.nextpid + 1
    initproc := some i }

section
variable (k) (i : Slot) (f : ℕ) (d : PageDir) (m : Mem Kmem)

omit [Layout] in
lemma booted_self : (k.booted i f d m).proc i =
    ⟨.runnable, k.nextpid, (k.proc i).parent, PGSIZE, some f, some d⟩ :=
  Function.update_self _ _ _

omit [Layout] in
lemma booted_other {i j : Slot} (hj : j ≠ i) : (k.booted i f d m).proc j = k.proc j :=
  Function.update_of_ne hj _ _

end

/-- **`userinit`**. -/
lemma userinit_spec (hR : ∀ f ∈ R, Kmem.Usable f) (hE : ∀ e, NoPage e → E e) (h : Inv R k)
    (init : List UInt8) (hlen : PGSIZE ≤ init.length → E (.panic "inituvm: more than a page"))
    (hfull : firstUnused k = none → E .nullDeref) :
    Wp (userinit init) E (fun _ k' => Inv R k' ∧ ∃ i f d m', firstUnused k = some i ∧
      k' = k.booted i f d m' ∧ Grows k.holders k'.holders k.mem m' ∧
      Shows m' d (Space.initial init) ∧ Private k'.holders d (Space.initial init)) k := by
  unfold userinit
  refine ((allocproc_spec hR h).mono (fun _ _ h => h) hE).bind fun r k₁ hr₁ => ?_
  rcases hr₁ with ⟨rfl, hnone, rfl⟩ | ⟨i, f, m₁, rfl, hfind, rfl, hf, hc₁, hpages₁⟩
  · exact wp_throw (hfull hnone)
  have hunused : (k.proc i).state = .unused := slots_find hfind
  refine wp_bind (wp_modify (wp_bind (wp_vm ?_)))
  refine ((setupkvm_counts hR hc₁).mono (fun _ _ h => h) hE).post fun r m₂ hr₂ => ?_
  obtain ⟨d₁, rfl, hentry, hc₂, hg₂⟩ := hr₂
  refine wp_bind (wp_vm ((inituvm_built hR hE init hlen hentry hc₂ hg₂).post fun d m₃ hb => ?_))
  have heq : (({ k.allocated i f m₁ with initproc := some i } : Kernel).setMem m₂ |>.setMem m₃).setProc
      i { (({ k.allocated i f m₁ with initproc := some i } : Kernel).setMem m₂ |>.setMem m₃).proc i
        with pgdir := some d, sz := PGSIZE, state := .runnable } = k.booted i f d m₃ := by
    simp only [Kernel.allocated, Kernel.booted, Kernel.setProc, Kernel.setMem, Function.update_idem,
      Function.update_self]
  have hshows := hb.shows _ rfl
  have hproc := booted_self k i f d m₃
  have hholds : (k.booted i f d m₃).holders = k.holders + Pi.single f 1 + holds d := by
    have hsplit := k.holders_eq i
    rw [h.holders_unused hunused, add_zero] at hsplit
    refine ((k.setMem m₃).holders_setProc i _).trans ?_
    rw [Proc.holders_of rfl rfl, hsplit, add_assoc]
    rfl
  have hg : Grows k.holders (k.holders + Pi.single f 1) k.mem m₁ :=
    Grows.alloc hf fun g _ => by rw [hpages₁]
  refine wp_updProc_eq heq ⟨⟨?_, fun j => ?_, h.kpgdir⟩, i, f, d, m₃, hfind, rfl, ?_, hshows, ?_⟩
  · rw [hholds]
    exact hb.counts
  · rcases eq_or_ne j i with rfl | hj
    · rw [hproc]
      exact ⟨f, d, rfl, rfl, hshows.le, hshows.unmapped, hb.kernel _ rfl⟩
    · rw [booted_other k f d m₃ hj]
      exact h.proc j
  · rw [hholds]
    exact hg.trans hb.grows
  · rw [hholds]
    exact hb.own _ rfl

/-! ### Pipes -/

omit [Layout] in
lemma holders_setPipe_some {f : ℕ} {p : Pipe} (hf : k.pipes f = none) :
    (k.setPipe f (some p)).holders = k.holders + Pi.single f 1 := by
  have hpipe : pipeHolders (Function.update k.pipes f (some p)) =
      pipeHolders k.pipes + Pi.single f 1 := by
    funext g
    rcases eq_or_ne g f with rfl | hgf
    · simp [pipeHolders, hf]
    · simp [pipeHolders, hgf]
  show _ + _ + pipeHolders (Function.update k.pipes f (some p)) = _
  rw [hpipe, ← add_assoc]
  rfl

omit [Layout] in
lemma holders_setPipe_congr {f : ℕ} {p p' : Pipe} (hf : k.pipes f = some p) :
    (k.setPipe f (some p')).holders = k.holders := by
  have hpipe : pipeHolders (Function.update k.pipes f (some p')) = pipeHolders k.pipes := by
    funext g
    rcases eq_or_ne g f with rfl | hgf
    · simp [pipeHolders, hf]
    · simp [pipeHolders, hgf]
  rw [Kernel.holders, Kernel.holders, ← hpipe]
  rfl

omit [Layout] in
lemma holders_setPipe_none {f : ℕ} {p : Pipe} (hf : k.pipes f = some p) :
    (k.setPipe f none).holders + Pi.single f 1 = k.holders := by
  have hpipe : pipeHolders (Function.update k.pipes f none) + Pi.single f 1 =
      pipeHolders k.pipes := by
    funext g
    rcases eq_or_ne g f with rfl | hgf
    · simp [pipeHolders, hf]
    · simp [pipeHolders, hgf]
  rw [Kernel.holders, Kernel.holders, add_assoc, ← hpipe]
  rfl

/-- **`pipealloc`**. -/
lemma pipealloc_spec (hR : ∀ f ∈ R, Kmem.Usable f) (h : Inv R k) (files : Bool) :
    Wp (pipealloc files) NoPage (fun _ k' => Inv R k' ∧ k'.proc = k.proc ∧
      k'.nextpid = k.nextpid ∧ k'.initproc = k.initproc ∧
      Grows k.holders k'.holders k.mem k'.mem) k := by
  unfold pipealloc
  refine wp_ite (fun _ => wp_pure ⟨h, rfl, rfl, rfl, Grows.refl _ _⟩) fun _ => ?_
  refine wp_bind (wp_vm ((kalloc_counts hR h.counts).post fun r m' hr => ?_))
  obtain ⟨f, rfl, -, hf, hc, hpages⟩ := hr
  have hnone : k.pipes f = none := by
    cases hp : k.pipes f with
    | none => rfl
    | some p =>
      have hone : pipeHolders k.pipes f = 1 := by simp [pipeHolders, hp]
      simp only [Kernel.holders, Pi.add_apply] at hf
      omega
  have hholds : ((k.setMem m').setPipe f (some ⟨true, true⟩)).holders = k.holders + Pi.single f 1 :=
    holders_setPipe_some (k := k.setMem m') hnone
  refine wp_bind (wp_modify (wp_pure ⟨⟨?_, h.proc, h.kpgdir⟩, rfl, rfl, rfl, ?_⟩))
  · rw [hholds]
    exact hc
  · rw [hholds]
    exact Grows.alloc hf fun g _ => congrFun hpages g

/-- **`pipeclose`**. -/
lemma pipeclose_spec (hR : ∀ f ∈ R, Kmem.Usable f) (h : Inv R k) {f : ℕ} {p : Pipe}
    (hp : k.pipes f = some p) (writable : Bool) :
    Wp (pipeclose f writable) NoPage (fun _ k' => Inv R k' ∧ k'.proc = k.proc ∧
      k'.nextpid = k.nextpid ∧ k'.initproc = k.initproc ∧
      Shrinks k.holders k'.holders k.mem k'.mem) k := by
  unfold pipeclose
  refine wp_bind (wp_get ?_)
  rw [hp]
  dsimp only
  generalize (if writable = true then ({ p with writeopen := false } : Pipe)
    else { p with readopen := false }) = p'
  refine wp_ite (fun _ => ?_) fun _ => wp_modify ?_
  · have hc := h.counts
    rw [← holders_setPipe_none hp] at hc
    refine wp_bind (wp_modify (wp_vm ((kfree_shrinks hR hc).post fun _ m' hm' => ?_)))
    refine ⟨⟨hm'.1, h.proc, h.kpgdir⟩, rfl, rfl, rfl, ?_⟩
    rw [← holders_setPipe_none hp]
    exact hm'.2
  · have hholds : (k.setPipe f (some p')).holders = k.holders := holders_setPipe_congr hp
    refine ⟨⟨?_, h.proc, h.kpgdir⟩, rfl, rfl, rfl, ?_⟩
    · rw [hholds]
      exact h.counts
    · rw [hholds]
      exact Shrinks.refl _ _

end Xv6Projects.Cow
