import Xv6Projects.Cow.Eager
import Xv6Projects.Cow.RefCounts
import Xv6Projects.Library.Simulation

/-!
# Copy-on-write refines eager copying

The relation between the two systems: each process sees the bytes of its own address space, a
page that may be written has one holder, and only the guard page is closed to user code.
-/

namespace Xv6Projects.Cow

open Library Vm Finset

/-- A writable page has no other holder, and only the guard page is closed to user code. -/
def Owned (h : ℕ → ℕ) (d : PageDir) (s : Space) : Prop :=
  ∀ q e, q < NUPAGE → d.entry q = some e →
    (e.w = true → h e.pfn ≤ 1) ∧ (e.u = false → s.guard = some q)

/-- The memory of process `i` is the address space `s`. -/
def Shown (k : Kernel) (i : Slot) (s : Space) : Prop :=
  ∃ d, (k.proc i).pgdir = some d ∧ (k.proc i).sz = s.sz ∧ Shows k.mem d s ∧ Owned k.holders d s

/-- **The simulation relation.** -/
structure Sim [Layout] (R : Set ℕ) (k : Kernel) (a : Eager) : Prop where
  inv : Inv R k
  state : ∀ i, (a.proc i).state = (k.proc i).state
  pid : ∀ i, (a.proc i).pid = (k.proc i).pid
  parent : ∀ i, (a.proc i).parent = (k.proc i).parent
  nextpid : a.nextpid = k.nextpid
  initproc : a.initproc = k.initproc
  shown : ∀ i, (k.proc i).state ≠ .unused → Shown k i (a.proc i).space

/-- Slot `i` has the same state, number and parent in both machines. -/
def SameEntry (k : Kernel) (a : Eager) (i : Slot) : Prop :=
  (a.proc i).state = (k.proc i).state ∧ (a.proc i).pid = (k.proc i).pid ∧
    (a.proc i).parent = (k.proc i).parent

lemma Sim.of_entries [Layout] {R : Set ℕ} {k : Kernel} {a : Eager} (hinv : Inv R k)
    (hentry : ∀ i, SameEntry k a i) (hnext : a.nextpid = k.nextpid)
    (hinit : a.initproc = k.initproc)
    (hshown : ∀ i, (k.proc i).state ≠ .unused → Shown k i (a.proc i).space) : Sim R k a :=
  ⟨hinv, fun i => (hentry i).1, fun i => (hentry i).2.1, fun i => (hentry i).2.2, hnext, hinit,
    hshown⟩

lemma Sim.entry [Layout] {R : Set ℕ} {k : Kernel} {a : Eager} (h : Sim R k a) (i : Slot) :
    SameEntry k a i :=
  ⟨h.state i, h.pid i, h.parent i⟩

lemma Private.owned {h : ℕ → ℕ} {d : PageDir} {s : Space} (hp : Private h d s) : Owned h d s := by
  intro q e hq he
  obtain ⟨-, hone, hu⟩ := hp q e hq he
  refine ⟨fun _ => hone.le, fun hclosed => ?_⟩
  by_contra hguard
  rw [hu.mpr hguard] at hclosed
  exact absurd hclosed (by simp)

/-- The pages that process `i` holds are kept: their contents, and that they have one holder. -/
def KeepsPages (k k' : Kernel) (i : Slot) : Prop :=
  ∀ g, 0 < (k.proc i).holders g →
    (k.holders g ≤ 1 → k'.holders g ≤ 1) ∧ k'.mem.pages g = k.mem.pages g

section
variable {k k' : Kernel} {i c : Slot} {s : Space}

/-- The page of an entry is held by the process. -/
lemma holders_pos_of_entry {d : PageDir} {v : ℕ} {e : Pte} (hd : (k.proc c).pgdir = some d)
    (hv : v < NUPAGE) (he : d.entry v = some e) : 0 < (k.proc c).holders e.pfn := by
  have hone := one_le_userHolds hv he
  rw [Proc.holders, hd, Option.elim_some]
  simp only [Pi.add_apply, holds]
  omega

/-- A process whose pages are kept sees the same memory. -/
lemma Shown.keeps (h : Shown k i s) (hpgdir : (k'.proc i).pgdir = (k.proc i).pgdir)
    (hsz : (k'.proc i).sz = (k.proc i).sz) (hkeep : KeepsPages k k' i) : Shown k' i s := by
  obtain ⟨d, hd, hs, hshows, hown⟩ := h
  refine ⟨d, hpgdir.trans hd, hsz.trans hs, ⟨hshows.le, hshows.guard, fun q hq => ?_,
    hshows.unmapped⟩, fun q e hq he => ⟨fun hw => ?_, (hown q e hq he).2⟩⟩
  · obtain ⟨e, he, hbytes⟩ := hshows.mapped q hq
    refine ⟨e, he, fun o ho => ?_⟩
    rw [(hkeep _ (holders_pos_of_entry hd (hshows.lt hq) he)).2, hbytes o ho]
  · exact (hkeep _ (holders_pos_of_entry hd hq he)).1 ((hown q e hq he).1 hw)

/-- The pages that others hold are kept when the operation of process `c` keeps them. -/
lemma KeepsOthers.keepsPages (h : KeepsOthers k k' c) (hi : i ≠ c) : KeepsPages k k' i := by
  intro g hg
  have hle := k.proc_le_others hi g
  obtain ⟨hcount, hpages⟩ := h g (by omega)
  exact ⟨fun hone => hcount.trans hone, hpages⟩

/-- The pages that have a holder are kept when nothing but free pages changes. -/
lemma Grows.keepsPages (h : Grows k.holders k'.holders k.mem k'.mem) : KeepsPages k k' i := by
  intro g hg
  have hle := k.proc_le_holders i g
  have hpos : 0 < k.holders g := by omega
  exact ⟨fun hone => (h.count g hpos).trans_le hone, h.pages g hpos⟩

end

variable [Layout] {R : Set ℕ} {k k' : Kernel} {a : Eager} {c : Slot}

/-- Nothing but free pages changes. -/
lemma Sim.grows (h : Sim R k a) (hinv : Inv R k') (hproc : k'.proc = k.proc)
    (hnext : k'.nextpid = k.nextpid) (hinit : k'.initproc = k.initproc)
    (hg : Grows k.holders k'.holders k.mem k'.mem) : Sim R k' a := by
  refine ⟨hinv, fun i => ?_, fun i => ?_, fun i => ?_, h.nextpid.trans hnext.symm,
    h.initproc.trans hinit.symm, fun i hi => ?_⟩
  · rw [hproc, h.state]
  · rw [hproc, h.pid]
  · rw [hproc, h.parent]
  · rw [hproc] at hi
    exact (h.shown i hi).keeps (by rw [hproc]) (by rw [hproc]) hg.keepsPages

/-- Process `c` changes its own address space. -/
lemma Sim.setSpace (h : Sim R k a) {m : Mem Kmem} {d : PageDir} {sz : ℕ} {s : Space}
    (hinv : Inv R (k.setSpace c m d sz)) (hs : Shown (k.setSpace c m d sz) c s)
    (hkeep : ∀ i, i ≠ c → KeepsPages k (k.setSpace c m d sz) i) :
    Sim R (k.setSpace c m d sz) (a.setSpace c s) := by
  have hself : (a.setSpace c s).proc c = { a.proc c with space := s } := Function.update_self _ _ _
  have hother : ∀ i, i ≠ c → (a.setSpace c s).proc i = a.proc i :=
    fun i hi => Function.update_of_ne hi _ _
  refine ⟨hinv, fun i => ?_, fun i => ?_, fun i => ?_, h.nextpid, h.initproc, fun i hi => ?_⟩
  · rcases eq_or_ne i c with rfl | hi
    · rw [hself, setSpace_proc]
      exact h.state i
    · rw [hother i hi, setSpace_other hi, h.state]
  · rcases eq_or_ne i c with rfl | hi
    · rw [hself, setSpace_proc]
      exact h.pid i
    · rw [hother i hi, setSpace_other hi, h.pid]
  · rcases eq_or_ne i c with rfl | hi
    · rw [hself, setSpace_proc]
      exact h.parent i
    · rw [hother i hi, setSpace_other hi, h.parent]
  · rcases eq_or_ne i c with rfl | hne
    · rw [hself]
      exact hs
    · rw [setSpace_other hne] at hi
      rw [hother i hne]
      exact (h.shown i hi).keeps (by rw [setSpace_other hne]) (by rw [setSpace_other hne])
        (hkeep i hne)

omit [Layout] in
/-- Nothing changes for the abstract machine. -/
lemma Eager.setSpace_self (a : Eager) (c : Slot) : a.setSpace c (a.proc c).space = a := by
  have hp : ({ a.proc c with space := (a.proc c).space } : EagerProc) = a.proc c := rfl
  rw [Eager.setSpace, hp, Eager.setProc, Function.update_eq_self]

/-! ### Memory accesses -/

section Handler
variable {fc v : ℕ} {d d' : PageDir} {e : Pte} {m : Mem Kmem} {s : Space}

omit [Layout] in
/-- One user entry of process `c` changes. -/
lemma holders_remap (hfc : (k.proc c).kstack = some fc) (hd : (k.proc c).pgdir = some d)
    (hframe : d'.frame = d.frame) (htable : d'.table = d.table) (hv : v < NUPAGE)
    (he : d.entry v = some e) {e' : Pte} (hentry : d'.entry = Function.update d.entry v (some e'))
    (m : Mem Kmem) (sz : ℕ) :
    (k.setSpace c m d' sz).holders + Pi.single e.pfn 1 = k.holders + Pi.single e'.pfn 1 := by
  have hupd := userHolds_update hv hentry
  rw [he, Option.map_some, Option.map_some, one_some, one_some] at hupd
  have hdir : dirHolds d' = dirHolds d := by rw [dirHolds, dirHolds, hframe, htable]
  rw [holders_setSpace hfc, holders_of_live hfc hd, holds, holds, hdir]
  simp only [add_assoc]
  rw [hupd]

omit [Layout] in
lemma Shows.page_lt (h : Shows m d s) {va : ℕ} (hva : va < s.sz) :
    va / PGSIZE < PGROUNDUP s.sz ∧ va / PGSIZE < NUPAGE := by
  have hle := h.le
  simp only [PGROUNDUP, NUPAGE, KERNBASE, PGSIZE] at hle ⊢
  omega

variable (hfc : (k.proc c).kstack = some fc) (hd : (k.proc c).pgdir = some d)
  (hsz : (k.proc c).sz = s.sz) (hshows : Shows k.mem d s) (hown : Owned k.holders d s)
  (hframe : d'.frame = d.frame) (htable : d'.table = d.table) (hv : v < NUPAGE)
  (he : d.entry v = some e)

include hfc hd hsz hshows hown hframe htable hv he

omit [Layout] in
/-- The handler makes a page writable that has no other holder. -/
lemma shown_of_write (hone : k.holders e.pfn = 1)
    (hentry : d'.entry = Function.update d.entry v (some { e with w := true })) (hmem : m = k.mem) :
    Shown (k.setSpace c m d' (k.proc c).sz) c s ∧
      ∀ i, KeepsPages k (k.setSpace c m d' (k.proc c).sz) i := by
  subst hmem
  have hself := setSpace_proc (k := k) (c := c) k.mem d' (k.proc c).sz
  have hsum := holders_remap hfc hd hframe htable hv he hentry k.mem (k.proc c).sz
  have hholds : (k.setSpace c k.mem d' (k.proc c).sz).holders = k.holders := add_right_cancel hsum
  have hlt : v < PGROUNDUP s.sz := by
    by_contra hge
    rw [hshows.unmapped v (not_lt.mp hge) hv] at he
    exact absurd he (by simp)
  constructor
  · refine ⟨d', by rw [hself], by rw [hself]; exact hsz, ⟨hshows.le, hshows.guard, fun q hq => ?_,
      fun q hq hq' => ?_⟩, fun q e' hq he' => ?_⟩
    · obtain ⟨e', he', hbytes⟩ := hshows.mapped q hq
      rcases eq_or_ne q v with rfl | hne
      · obtain rfl := Option.some.inj (he.symm.trans he')
        exact ⟨{ e with w := true }, by rw [hentry, Function.update_self], hbytes⟩
      · exact ⟨e', by rw [hentry, Function.update_of_ne hne, he'], hbytes⟩
    · rw [hentry, Function.update_of_ne (by omega)]
      exact hshows.unmapped q hq hq'
    · rw [hholds]
      rcases eq_or_ne q v with rfl | hne
      · rw [hentry, Function.update_self] at he'
        obtain rfl := Option.some.inj he'
        exact ⟨fun _ => hone.le, (hown _ e hq he).2⟩
      · rw [hentry, Function.update_of_ne hne] at he'
        exact hown q e' hq he'
  · intro i g _
    rw [hholds]
    exact ⟨id, rfl⟩

omit [Layout] in
/-- The handler gives the process a copy of a page that has other holders. -/
lemma shown_of_copy {f : ℕ} (hf : k.holders f = 0)
    (hentry : d'.entry = Function.update d.entry v (some ⟨f, true, true⟩))
    (hpages : m.pages = Function.update k.mem.pages f (k.mem.pages e.pfn)) :
    Shown (k.setSpace c m d' (k.proc c).sz) c s ∧
      ∀ i, KeepsPages k (k.setSpace c m d' (k.proc c).sz) i := by
  have hself := setSpace_proc (k := k) (c := c) m d' (k.proc c).sz
  have hsum := holders_remap hfc hd hframe htable hv he hentry m (k.proc c).sz
  have hle : ∀ g, g ≠ f → (k.setSpace c m d' (k.proc c).sz).holders g ≤ k.holders g := by
    intro g hg
    have hsum := congrFun hsum g
    simp only [Pi.add_apply, Pi.single_eq_of_ne hg] at hsum
    omega
  have hnew : (k.setSpace c m d' (k.proc c).sz).holders f ≤ 1 := by
    have hsum := congrFun hsum f
    simp only [Pi.add_apply, Pi.single_eq_same, hf] at hsum
    omega
  have hne_f : ∀ i g, 0 < (k.proc i).holders g → g ≠ f := by
    rintro i g hg rfl
    have hle := k.proc_le_holders i g
    omega
  have hlt : v < PGROUNDUP s.sz := by
    by_contra hge
    rw [hshows.unmapped v (not_lt.mp hge) hv] at he
    exact absurd he (by simp)
  have hpage : ∀ g, g ≠ f → (k.setSpace c m d' (k.proc c).sz).mem.pages g = k.mem.pages g := by
    intro g hg
    show m.pages g = _
    rw [hpages, Function.update_of_ne hg]
  constructor
  · refine ⟨d', by rw [hself], by rw [hself]; exact hsz, ⟨hshows.le, hshows.guard, fun q hq => ?_,
      fun q hq hq' => ?_⟩, fun q e' hq he' => ?_⟩
    · obtain ⟨e', he', hbytes⟩ := hshows.mapped q hq
      rcases eq_or_ne q v with rfl | hne
      · obtain rfl := Option.some.inj (he.symm.trans he')
        refine ⟨_, by rw [hentry, Function.update_self], fun o ho => ?_⟩
        show m.pages f o = _
        rw [hpages, Function.update_self, hbytes o ho]
      · refine ⟨e', by rw [hentry, Function.update_of_ne hne, he'], fun o ho => ?_⟩
        rw [hpage _ (hne_f c _ (holders_pos_of_entry hd (hshows.lt hq) he')), hbytes o ho]
    · rw [hentry, Function.update_of_ne (by omega)]
      exact hshows.unmapped q hq hq'
    · rcases eq_or_ne q v with rfl | hne
      · rw [hentry, Function.update_self] at he'
        obtain rfl := Option.some.inj he'
        exact ⟨fun _ => hnew, fun hu => absurd hu (by simp)⟩
      · rw [hentry, Function.update_of_ne hne] at he'
        obtain ⟨hw, hu⟩ := hown q e' hq he'
        exact ⟨fun h => (hle _ (hne_f c _ (holders_pos_of_entry hd hq he'))).trans (hw h), hu⟩
  · intro i g hg
    exact ⟨fun hone => (hle g (hne_f i g hg)).trans hone, hpage g (hne_f i g hg)⟩

omit [Layout] hframe htable in
/-- A store to a writable page. -/
lemma shown_of_store (hw : e.w = true) {va : ℕ} (hva : va / PGSIZE = v) (b : UInt8)
    (hm : m = k.mem.put e.pfn (Function.update (k.mem.pages e.pfn) (va % PGSIZE) b)) :
    Shown (k.setSpace c m d (k.proc c).sz) c (s.write va [b]) ∧
      ∀ i, i ≠ c → KeepsPages k (k.setSpace c m d (k.proc c).sz) i := by
  subst hm
  have hself := setSpace_proc (k := k) (c := c)
    (k.mem.put e.pfn (Function.update (k.mem.pages e.pfn) (va % PGSIZE) b)) d (k.proc c).sz
  have hone := (hown v e hv he).1 hw
  have hholds : (k.setSpace c (k.mem.put e.pfn (Function.update (k.mem.pages e.pfn) (va % PGSIZE) b))
      d (k.proc c).sz).holders = k.holders := by
    rw [holders_setSpace hfc, holders_of_live hfc hd]
  have hpos := holders_pos_of_entry hd hv he
  have huser : userHolds d e.pfn ≤ 1 := by
    have hle := k.proc_le_holders c e.pfn
    rw [Proc.holders, hd, Option.elim_some] at hle
    simp only [Pi.add_apply, holds] at hle
    omega
  have hdiv := Nat.div_add_mod va PGSIZE
  have hmod := Nat.mod_lt va (show 0 < PGSIZE by decide)
  rw [hva, Nat.mul_comm] at hdiv
  constructor
  · refine ⟨d, by rw [hself], by rw [hself]; exact hsz, ⟨hshows.le, hshows.guard, fun q hq => ?_,
      hshows.unmapped⟩, fun q e' hq he' => ?_⟩
    · obtain ⟨e', he', hbytes⟩ := hshows.mapped q hq
      refine ⟨e', he', fun o ho => ?_⟩
      rcases eq_or_ne q v with rfl | hne
      · obtain rfl := Option.some.inj (he.symm.trans he')
        show Function.update k.mem.pages e.pfn _ e.pfn o = writeBytes s.bytes va [b] _
        rw [Function.update_self]
        rcases eq_or_ne o (va % PGSIZE) with rfl | hno
        · rw [Function.update_self, writeBytes, if_pos (by simp; omega), hdiv, Nat.sub_self]
          rfl
        · rw [Function.update_of_ne hno, hbytes o ho]
          exact (writeBytes_of_not (by simp only [List.length_singleton]; omega)).symm
      · have hpfn : e'.pfn ≠ e.pfn := fun h =>
          hne (entry_inj hv (hshows.lt hq) he he' h huser)
        show Function.update k.mem.pages e.pfn _ e'.pfn o = writeBytes s.bytes va [b] _
        rw [Function.update_of_ne hpfn, hbytes o ho]
        have hapart : q * PGSIZE + PGSIZE ≤ v * PGSIZE ∨ v * PGSIZE + PGSIZE ≤ q * PGSIZE := by
          simp only [PGSIZE]
          omega
        exact (writeBytes_of_not (by simp only [List.length_singleton]; omega)).symm
    · rw [hholds]
      exact hown q e' hq he'
  · intro i hi g hg
    rw [hholds]
    refine ⟨id, Function.update_of_ne ?_ _ _⟩
    rintro rfl
    have hle := k.proc_le_others hi e.pfn
    have hsum := congrFun (k.holders_eq c) e.pfn
    simp only [Pi.add_apply] at hsum
    omega

end Handler

/-- **A page fault** changes nothing for the eager machine, and makes the page writable. -/
lemma Sim.fault (hR : ∀ f ∈ R, Kmem.Usable f) (h : Sim R k a) (hc : (k.proc c).state = .runnable)
    {va : ℕ} (hva : va < (a.proc c).space.sz) :
    Wp (fault c va) NoPage (fun _ k' => Sim R k' a ∧ (k'.proc c).state = .runnable ∧
      ∃ d e, (k'.proc c).pgdir = some d ∧ d.entry (va / PGSIZE) = some e ∧ e.w = true) k := by
  obtain ⟨d, hd, hsz, hshows, hown⟩ := h.shown c (by rw [hc]; simp)
  obtain ⟨fc, -, hfc, -, -⟩ := h.inv.live (c := c) (by rw [hc]; simp)
  obtain ⟨hpage, hv⟩ := hshows.page_lt hva
  obtain ⟨e, he, -⟩ := hshows.mapped _ hpage
  refine (fault_spec hR h.inv hc hd (Or.inl hv)).mono (fun _ k' hk' => ?_)
    fun err herr => ?_
  · obtain ⟨hinv, d', m', rfl, hframe, htable, hf⟩ := hk'
    have hself := setSpace_proc (k := k) (c := c) m' d' (k.proc c).sz
    have hsim : (Shown (k.setSpace c m' d' (k.proc c).sz) c (a.proc c).space ∧
        ∀ i, KeepsPages k (k.setSpace c m' d' (k.proc c).sz) i) →
        Sim R (k.setSpace c m' d' (k.proc c).sz) a := by
      intro hshown
      have hs := h.setSpace hinv hshown.1 fun i _ => hshown.2 i
      rwa [Eager.setSpace_self] at hs
    cases hf with
    | kernel hge _ _ => exact absurd hv (not_lt.mpr hge)
    | user e₀ _ he₀ hh =>
      obtain rfl := Option.some.inj (he.symm.trans he₀)
      cases hh with
      | write hone hentry hmem =>
        refine ⟨hsim (shown_of_write hfc hd hsz hshows hown hframe htable hv he hone hentry hmem),
          by rw [hself]; exact hc, d', _, by rw [hself], by rw [hentry, Function.update_self], rfl⟩
      | copy f _ hf hentry hpages =>
        refine ⟨hsim (shown_of_copy hfc hd hsz hshows hown hframe htable hv he hf hentry hpages),
          by rw [hself]; exact hc, d', _, by rw [hself], by rw [hentry, Function.update_self], rfl⟩
  · rcases herr with herr | ⟨hnone, -⟩
    · exact herr
    · exact absurd (hnone.symm.trans he) (by simp)

/-- An access that the entry allows. -/
lemma access_hit {E : Err → Prop} {va : ℕ} {user : Bool} {x : Access} {n : ℕ} {d : PageDir} {e : Pte}
    {Q : Option UInt8 → Kernel → Prop} (hd : (k.proc c).pgdir = some d)
    (he : d.entry (va / PGSIZE) = some e) (hallow : Pte.allows e user x = true)
    (hload : x = .load → Q (some (k.mem.pages e.pfn (va % PGSIZE))) k)
    (hstore : ∀ b, x = .store b → Q (some b) (k.setMem (k.mem.put e.pfn
      (Function.update (k.mem.pages e.pfn) (va % PGSIZE) b)))) :
    Wp (access c va user x (n + 1)) E Q k := by
  have hfilter : (d.entry (va / PGSIZE)).filter (fun e => Pte.allows e user x) = some e := by
    rw [he]
    exact Option.filter_eq_some_iff.mpr ⟨rfl, hallow⟩
  unfold access
  refine wp_bind (wp_pgdirOf hd ?_)
  rw [hfilter]
  refine wp_bind (wp_vm (wp_getPage ?_))
  cases x with
  | load => exact wp_pure (hload rfl)
  | store b => exact wp_bind (wp_vm (wp_setPage (wp_pure (hstore b rfl))))

/-- An access that the entry denies. -/
lemma access_miss {E : Err → Prop} {va : ℕ} {user : Bool} {x : Access} {n : ℕ} {d : PageDir} {e : Pte}
    {Q : Option UInt8 → Kernel → Prop} (hd : (k.proc c).pgdir = some d)
    (he : d.entry (va / PGSIZE) = some e) (hdeny : Pte.allows e user x = false)
    (hfault : Wp (fault c va) E (fun _ k' => Wp (access c va user x n) E Q k') k) :
    Wp (access c va user x (n + 1)) E Q k := by
  have hfilter : (d.entry (va / PGSIZE)).filter (fun e => Pte.allows e user x) = none := by
    rw [he]
    refine Option.filter_eq_none_iff.mpr fun e' he' => ?_
    obtain rfl := Option.some.inj he'
    simp [hdeny]
  unfold access
  refine wp_bind (wp_pgdirOf hd ?_)
  rw [hfilter]
  exact wp_bind hfault

/-- An access at a page that may be written. -/
lemma Sim.access_writable (h : Sim R k a) (hc : (k.proc c).state = .runnable) {va : ℕ}
    {user : Bool} {x : Access} {n : ℕ} (hva : va < (a.proc c).space.sz)
    (hguard : user = true → (a.proc c).space.guard ≠ some (va / PGSIZE)) {d : PageDir} {e : Pte}
    (hd : (k.proc c).pgdir = some d) (he : d.entry (va / PGSIZE) = some e)
    (hw : x = .load ∨ e.w = true) :
    Wp (access c va user x (n + 1)) NoPage (fun r k' =>
      (r.map Reply.byte).getD .nothing = (a.access c va x).1 ∧ Sim R k' (a.access c va x).2) k := by
  obtain ⟨d₀, hd₀, hsz, hshows, hown⟩ := h.shown c (by rw [hc]; simp)
  obtain rfl := Option.some.inj (hd.symm.trans hd₀)
  obtain ⟨fc, -, hfc, -, hok⟩ := h.inv.live (c := c) (by rw [hc]; simp)
  obtain ⟨hpage, hv⟩ := hshows.page_lt hva
  have hu : user = true → e.u = true := by
    intro huser
    by_contra hne
    exact hguard huser ((hown _ e hv he).2 (by simpa using hne))
  have hallow : Pte.allows e user x = true := by
    cases user <;> cases x <;> simp_all [Pte.allows]
  refine access_hit hd he hallow (fun hx => ?_) fun b hx => ?_
  · subst hx
    obtain ⟨e', he', hbytes⟩ := hshows.mapped _ hpage
    obtain rfl := Option.some.inj (he.symm.trans he')
    refine ⟨?_, h⟩
    have hdiv := Nat.div_add_mod va PGSIZE
    rw [Nat.mul_comm] at hdiv
    rw [hbytes _ (Nat.mod_lt va (by decide)), hdiv]
    rfl
  · subst hx
    have hw' := hw.resolve_left (by simp)
    obtain ⟨hshown, hkeep⟩ := shown_of_store hfc hd hsz hshows hown hv he hw' rfl b rfl
    refine ⟨rfl, ?_⟩
    rw [setMem_eq_setSpace hd]
    refine h.setSpace ?_ hshown hkeep
    rw [← setMem_eq_setSpace hd]
    exact ⟨h.inv.counts, h.inv.proc, h.inv.kpgdir⟩

/-- **A load or store**: the byte is the one of the eager machine, after one page fault at
most. -/
lemma Sim.access (hR : ∀ f ∈ R, Kmem.Usable f) (h : Sim R k a) (hc : (k.proc c).state = .runnable)
    {va : ℕ} {user : Bool} {x : Access} {n : ℕ} (hva : va < (a.proc c).space.sz)
    (hguard : user = true → (a.proc c).space.guard ≠ some (va / PGSIZE)) (hn : 2 ≤ n) :
    Wp (access c va user x n) NoPage (fun r k' =>
      (r.map Reply.byte).getD .nothing = (a.access c va x).1 ∧ Sim R k' (a.access c va x).2) k := by
  obtain ⟨n, rfl⟩ := Nat.exists_eq_add_of_le hn
  rw [Nat.add_comm]
  obtain ⟨d, hd, -, hshows, hown⟩ := h.shown c (by rw [hc]; simp)
  obtain ⟨hpage, -⟩ := hshows.page_lt hva
  obtain ⟨e, he, -⟩ := hshows.mapped _ hpage
  by_cases hw : x = .load ∨ e.w = true
  · exact h.access_writable hc hva hguard hd he hw
  · have hdeny : Pte.allows e user x = false := by
      obtain ⟨hx, hw⟩ := not_or.mp hw
      cases x with
      | load => exact absurd rfl hx
      | store b => simp_all [Pte.allows]
    refine access_miss hd he hdeny ((h.fault hR hc hva).post fun _ k' hk' => ?_)
    obtain ⟨h', hc', d', e', hd', he', hw'⟩ := hk'
    exact h'.access_writable hc' hva hguard hd' he' (Or.inr hw')

/-! ### The other operations -/

/-- **`sbrk`** to a size that stays positive. -/
lemma Sim.sbrk (hR : ∀ f ∈ R, Kmem.Usable f) (h : Sim R k a) (hc : (k.proc c).state = .runnable)
    {n : ℤ} (hlo : -2 ^ 31 ≤ n) (hhi : n < 2 ^ 31) (hpos : n < 0 → 0 < (a.proc c).space.sz + n) :
    Wp (growproc c n) NoPage (fun r k' => Reply.value r = (a.sbrk c n).1 ∧ Sim R k' (a.sbrk c n).2)
      k := by
  obtain ⟨d, hd, hsz, hshows, hown⟩ := h.shown c (by rw [hc]; simp)
  obtain ⟨fc, d₀, hfc, hd₀, hok⟩ := h.inv.live (c := c) (by rw [hc]; simp)
  obtain rfl := Option.some.inj (hd.symm.trans hd₀)
  have hkernel : ((KERNBASE : ℕ) : ℤ) = 0x80000000 := rfl
  refine (growproc_spec hR h.inv hc hlo hhi).post fun r k' hk' => ?_
  obtain ⟨hinv, d₁, d', sz', m', hd₁, rfl, hres⟩ := hk'
  obtain rfl := Option.some.inj (hd.symm.trans hd₁)
  have hself := setSpace_proc (k := k) (c := c) m' d' sz'
  unfold Eager.sbrk
  cases hres with
  -- `growproc` has left the address space, and only a size above `KERNBASE` is refused
  | same hg hdir hsize hgrow hzero hshrink =>
    subst hdir hsize
    have hsim : Sim R (k.setSpace c m' d' (k.proc c).sz) a := by
      refine h.grows hinv ?_ rfl rfl hg
      rw [← setMem_eq_setSpace hd]
      rfl
    rcases lt_trichotomy n 0 with hneg | rfl | hgt
    · have hp := hpos hneg
      have hs := hshrink hneg
      omega
    · rw [hzero rfl]
      exact ⟨rfl, hsim⟩
    · obtain ⟨hbig, rfl⟩ := hgrow hgt
      have hle : KERNBASE ≤ (((a.proc c).space.sz : ℤ) + n).toNat := by omega
      simp only [if_pos hgt, if_pos hle]
      exact ⟨trivial, hsim⟩
  | grown hn hsize hlt hr hg hfresh =>
    subst hr
    have hnew : ((((a.proc c).space.sz : ℤ) + n).toNat) = sz' := by omega
    simp only [if_pos hn, hnew, if_neg (not_le.mpr hlt)]
    refine ⟨trivial, h.setSpace hinv ⟨d', by rw [hself], by rw [hself]; rfl, ⟨hlt.le, fun q hq => ?_,
      fun q hq => ?_, fun q hq hq' => ?_⟩, fun q e hq he => ?_⟩ fun i hi => hg.keepsPages⟩
    · exact (hshows.guard q hq).trans_le (PGROUNDUP_mono (by rw [Space.grow_sz]; omega))
    · -- the pages above the old size are new and zero, the others as before
      have hq' := hfresh q
      rw [Space.grow_sz] at hq
      rw [hsz] at hq'
      by_cases hin : PGROUNDUP (a.proc c).space.sz ≤ q
      · rw [if_pos ⟨hin, hq⟩] at hq'
        obtain ⟨f, hf, -, hzero⟩ := hq'
        refine ⟨_, hf, fun o _ => ?_⟩
        have hge : PGROUNDUP (a.proc c).space.sz * PGSIZE ≤ q * PGSIZE + o :=
          (Nat.mul_le_mul_right _ hin).trans (Nat.le_add_right _ _)
        show m'.pages f o = if _ then 0 else _
        rw [if_pos hge, hzero]
        rfl
      · rw [if_neg (by omega)] at hq'
        obtain ⟨e, he, hbytes⟩ := hshows.mapped q (by omega)
        refine ⟨e, hq'.trans he, fun o ho => ?_⟩
        have hlt' : ¬PGROUNDUP (a.proc c).space.sz * PGSIZE ≤ q * PGSIZE + o := by
          simp only [PGSIZE] at ho ⊢
          omega
        have hheld := holders_pos_of_entry hd (hshows.lt (by omega)) he
        have hle := k.proc_le_holders c e.pfn
        show m'.pages e.pfn o = if _ then 0 else _
        rw [if_neg hlt', hg.pages _ (by omega), hbytes o ho]
    · have hin := hfresh q
      rw [Space.grow_sz] at hq
      rw [if_neg (by omega)] at hin
      rw [hin]
      refine hok.unmapped q ?_ hq'
      exact (PGROUNDUP_mono (by omega)).trans hq
    · have hq' := hfresh q
      split_ifs at hq' with hin
      · obtain ⟨f, hf, hone, -⟩ := hq'
        obtain rfl := Option.some.inj (hf.symm.trans he)
        exact ⟨fun _ => hone.le, fun hu => absurd hu (by simp)⟩
      · rw [hq'] at he
        obtain ⟨hw, hu⟩ := hown q e hq he
        refine ⟨fun hwe => ?_, hu⟩
        have hheld := holders_pos_of_entry hd hq he
        have hle := k.proc_le_holders c e.pfn
        rw [hg.count _ (by omega)]
        exact hw hwe
  | shrunk newsz hn hnew hs hcl _ hsize hr =>
    have hp := hpos hn
    rw [if_neg (by omega)] at hsize hr
    subst hsize hr
    have hnew' : ((((a.proc c).space.sz : ℤ) + n).toNat) = sz' := by omega
    have hle : sz' ≤ (a.proc c).space.sz := by omega
    have hup := PGROUNDUP_mono hle
    -- `deallocuvm` clears the entries from the new size on
    have hcl' : ∀ q, q < NUPAGE → d'.entry q = if q < PGROUNDUP sz' then d.entry q else none := by
      intro q hq
      rw [hcl q, hsz]
      by_cases hin : q < PGROUNDUP sz'
      · rw [if_neg (by omega), if_pos hin]
      · rw [if_neg hin]
        by_cases hin' : q < PGROUNDUP (a.proc c).space.sz
        · rw [if_pos (by omega)]
        · rw [if_neg (by omega)]
          exact hshows.unmapped q (by omega) hq
    have hkeep : ∀ q e, q < NUPAGE → d'.entry q = some e →
        q < PGROUNDUP sz' ∧ d.entry q = some e ∧ (k.setSpace c m' d' sz').holders e.pfn ≤
          k.holders e.pfn ∧ m'.pages e.pfn = k.mem.pages e.pfn := by
      intro q e hq he
      have hheld : 0 < (k.setSpace c m' d' sz').holders e.pfn := by
        have hpos' := holders_pos_of_entry (k := k.setSpace c m' d' sz') (c := c) (d := d')
          (by rw [hself]) hq he
        exact hpos'.trans_le (Kernel.proc_le_holders _ c e.pfn)
      rw [hcl' q hq] at he
      split_ifs at he with hin
      exact ⟨hin, he, hs.count _, hs.pages _ hheld⟩
    simp only [if_neg (by omega : ¬0 < n), if_pos hn, hnew']
    refine ⟨trivial, h.setSpace hinv ⟨d', by rw [hself], by rw [hself]; rfl, ⟨hle.trans hshows.le,
      fun q hq => ?_, fun q hq => ?_, fun q hq hq' => ?_⟩, fun q e hq he => ?_⟩ fun i hi g hg => ?_⟩
    · obtain ⟨-, hlt⟩ := Option.filter_eq_some_iff.mp hq
      rw [Space.shrink_sz]
      simpa using hlt
    · have hq' : q < PGROUNDUP sz' := hq
      obtain ⟨e, he, hbytes⟩ := hshows.mapped q (by omega)
      have hqu := hshows.lt (show q < PGROUNDUP (a.proc c).space.sz by omega)
      have hd' : d'.entry q = some e := by rw [hcl' q hqu, if_pos hq', he]
      refine ⟨e, hd', fun o ho => ?_⟩
      show m'.pages e.pfn o = _
      rw [(hkeep q e hqu hd').2.2.2]
      exact hbytes o ho
    · rw [Space.shrink_sz] at hq
      rw [hcl' q hq', if_neg (not_lt.mpr hq)]
    · obtain ⟨hin, he', hcount, -⟩ := hkeep q e hq he
      obtain ⟨hw, hu⟩ := hown q e hq he'
      refine ⟨fun hwe => hcount.trans (hw hwe), fun hue => ?_⟩
      exact Option.filter_eq_some_iff.mpr ⟨hu hue, by simpa using hin⟩
    · -- what another process holds is held still
      have hheld : 0 < (k.setSpace c m' d' sz').holders g := by
        have hle' := (k.setSpace c m' d' sz').proc_le_holders i g
        rw [setSpace_other hi] at hle'
        omega
      exact ⟨fun hone => (hs.count g).trans hone, hs.pages g hheld⟩

/-- The errors with which an operation of a run can end: there is no free page; or an `exec` that
fails dereferences a null pointer. -/
def RunErr : Op → Err → Prop
  | .exec _ file argv, e =>
      NoPage e ∨ e = .nullDeref ∧ (file.bind fun elf => Space.image elf argv) = none
  | _, e => NoPage e

/-- **`exec`**. -/
lemma Sim.exec (hR : ∀ f ∈ R, Kmem.Usable f) (h : Sim R k a) (hc : (k.proc c).state = .runnable)
    (file : Option Elf) (argv : List (List UInt8)) :
    Wp (exec c file argv) (RunErr (.exec c file argv)) (fun r k' =>
      Reply.value r = (a.exec c file argv).1 ∧ Sim R k' (a.exec c file argv).2) k := by
  have hnull : ∀ elf, file = some elf → Space.image elf argv = none →
      RunErr (.exec c file argv) .nullDeref := by
    intro elf helf hnone
    refine Or.inr ⟨rfl, ?_⟩
    rw [helf, Option.bind_some, hnone]
  refine (exec_spec (E := RunErr (.exec c file argv)) hR (fun _ => Or.inl) h.inv hc file argv
    hnull).post fun r k' hk' => ?_
  obtain ⟨hinv, d, d', sz', m', hd, rfl, hout⟩ := hk'
  have hself := setSpace_proc (k := k) (c := c) m' d' sz'
  unfold Eager.exec
  cases himage : file.bind fun elf => Space.image elf argv with
  | none =>
    rw [himage] at hout
    obtain ⟨rfl, rfl, rfl, hg⟩ := hout
    refine ⟨rfl, h.grows hinv ?_ rfl rfl hg⟩
    rw [← setMem_eq_setSpace hd]
    rfl
  | some s =>
    rw [himage] at hout
    obtain ⟨rfl, rfl, hshows, hown, hkeep, -⟩ := hout
    refine ⟨rfl, h.setSpace hinv ⟨d', by rw [hself], by rw [hself], hshows, hown.owned⟩ ?_⟩
    exact fun i hi => hkeep.keepsPages hi

/-- `fork` keeps the pages of the processes other than the parent. -/
lemma Forked.keepsPages {i : Slot} {f : ℕ} {d d' child : PageDir} {m' : Mem Kmem}
    (hf : Forked k k' c i f d d' child m') {j : Slot} (hj : j ≠ c) : KeepsPages k k' j := by
  intro g hg
  have hle := k.proc_le_holders j g
  have hpos : 0 < k.holders g := by omega
  refine ⟨fun hone => ?_, ?_⟩
  · -- the only holder is `j`, so the parent does not map the page
    have hothers := k.proc_le_others hj g
    have hsum := congrFun (k.holders_eq c) g
    rw [Proc.holders, hf.pgdir, Option.elim_some] at hsum
    simp only [Pi.add_apply, holds] at hsum
    rw [hf.count g hpos]
    omega
  · rw [hf.state]
    exact hf.pages g hpos

/-- **`fork`**: the child sees what its parent sees. -/
lemma Sim.fork (hR : ∀ f ∈ R, Kmem.Usable f) (h : Sim R k a) (hc : (k.proc c).state = .runnable) :
    Wp (fork c) NoPage (fun r k' => Reply.value r = (a.fork c).1 ∧ Sim R k' (a.fork c).2) k := by
  obtain ⟨d, hd, hsz, hshows, hown⟩ := h.shown c (by rw [hc]; simp)
  have herr : CopyErr NoPage d 0 (PGROUNDUP (k.proc c).sz) := by
    refine ⟨fun _ h => h, fun ⟨q, _, hq, hnone⟩ => ?_⟩
    rw [hsz] at hq
    obtain ⟨e, he, -⟩ := hshows.mapped q hq
    exact absurd (hnone.symm.trans he) (by simp)
  have hfind : (slots.find? fun i => decide ((a.proc i).state = .unused)) = firstUnused k := by
    simp only [h.state]
    rfl
  refine (fork_spec hR h.inv hc hd herr).post fun r k' hk' => ?_
  unfold Eager.fork
  rw [hfind]
  obtain ⟨hinv, ⟨rfl, hnone, rfl⟩ | ⟨i, f, d', child, m', rfl, hi, hf⟩⟩ := hk'
  · rw [hnone]
    exact ⟨rfl, h⟩
  · rw [hi]
    have hunused : (k.proc i).state = .unused := slots_find hi
    have hic := ne_of_unused hc hunused
    have hchild := hf.proc_child
    have hself := hf.proc_parent hic
    have hother : ∀ j, j ≠ i → j ≠ c → k'.proc j = k.proc j := fun j => hf.proc_other
    have hnext : k'.nextpid = k.nextpid + 1 := by rw [hf.state]; rfl
    have hinit : k'.initproc = k.initproc := by rw [hf.state]; rfl
    -- both page tables map the parent's pages, read-only
    have hread : ∀ dir : PageDir, (∀ q, q < PGROUNDUP (k.proc c).sz → dir.entry q =
        (d.entry q).map Pte.readOnly) → (∀ q, PGROUNDUP (k.proc c).sz ≤ q → q < NUPAGE →
        dir.entry q = none) → Shows k'.mem dir (a.proc c).space ∧
        Owned k'.holders dir (a.proc c).space := by
      intro dir hlow hhigh
      rw [hsz] at hlow hhigh
      refine ⟨⟨hshows.le, hshows.guard, fun q hq => ?_, hhigh⟩, fun q e hq he => ?_⟩
      · obtain ⟨e, he, hbytes⟩ := hshows.mapped q hq
        refine ⟨Pte.readOnly e, by rw [hlow q hq, he]; rfl, fun o ho => ?_⟩
        have hheld := holders_pos_of_entry hd (hshows.lt hq) he
        have hle := k.proc_le_holders c e.pfn
        rw [Pte.readOnly_pfn, hf.state]
        exact (congrFun (hf.pages _ (by omega)) o).trans (hbytes o ho)
      · have hin : q < PGROUNDUP (a.proc c).space.sz := by
          by_contra hge
          rw [hhigh q (not_lt.mp hge) hq] at he
          exact absurd he (by simp)
        rw [hlow q hin] at he
        obtain ⟨e₀, he₀, rfl⟩ := Option.map_eq_some_iff.mp he
        exact ⟨fun hw => absurd hw (by simp), (hown q e₀ hq he₀).2⟩
    have hparent := hread d' (fun q hq => by rw [hf.parent, if_pos hq]) fun q hq hq' => by
      rw [hf.parent, if_neg (not_lt.mpr hq)]
      exact hshows.unmapped q (by rwa [← hsz]) hq'
    have hkid := hread child (fun q hq => by rw [hf.child, if_pos hq]) fun q hq hq' => by
      rw [hf.child, if_neg (not_lt.mpr hq)]
      exact kernelEntry_user hq'
    have hachild : ({ a.setProc i ⟨.runnable, a.nextpid, some c, (a.proc c).space⟩ with
        nextpid := a.nextpid + 1 } : Eager).proc i =
        ⟨.runnable, a.nextpid, some c, (a.proc c).space⟩ := Function.update_self _ _ _
    have haother : ∀ j, j ≠ i → ({ a.setProc i ⟨.runnable, a.nextpid, some c, (a.proc c).space⟩ with
        nextpid := a.nextpid + 1 } : Eager).proc j = a.proc j := fun j hj => Function.update_of_ne hj _ _
    have htable : ∀ j, j ≠ i → (k'.proc j).state = (k.proc j).state ∧
        (k'.proc j).pid = (k.proc j).pid ∧ (k'.proc j).parent = (k.proc j).parent := by
      intro j hj
      rcases eq_or_ne j c with rfl | hjc
      · rw [hself]
        exact ⟨rfl, rfl, rfl⟩
      · rw [hother j hj hjc]
        exact ⟨rfl, rfl, rfl⟩
    refine ⟨by rw [h.nextpid], .of_entries hinv (fun j => ?_) ?_ ?_ fun j hj => ?_⟩
    · rcases eq_or_ne j i with rfl | hji
      · rw [SameEntry, hachild, hchild, h.nextpid]
        exact ⟨rfl, rfl, rfl⟩
      · obtain ⟨hs, hpid, hpar⟩ := htable j hji
        rw [SameEntry, haother j hji, hs, hpid, hpar]
        exact h.entry j
    · rw [hnext, ← h.nextpid]
    · rw [hinit]
      exact h.initproc
    · rcases eq_or_ne j i with rfl | hji
      · rw [hachild]
        exact ⟨child, by rw [hchild], by rw [hchild, hsz], hkid⟩
      · rw [haother j hji]
        rcases eq_or_ne j c with rfl | hjc
        · exact ⟨d', by rw [hself], by rw [hself]; exact hsz, hparent⟩
        · rw [hother j hji hjc] at hj
          exact (h.shown j hj).keeps (by rw [hother j hji hjc]) (by rw [hother j hji hjc])
            (hf.keepsPages hjc)

/-- **`exit`**. -/
lemma Sim.exit (h : Sim R k a) (hc : (k.proc c).state = .runnable) (hinit : a.initproc ≠ some c) :
    Wp (exit c) NoPage (fun _ k' => Sim R k' (a.exit c).2) k := by
  have hne : k.initproc ≠ some c := by rwa [← h.initproc]
  refine (exit_spec h.inv hc fun heq => absurd heq hne).post fun _ k' hk' => ?_
  obtain ⟨hinv, rfl⟩ := hk'
  have hparent : ∀ i, ((k.exited c).proc i).parent =
      if (k.proc i).parent = some c then k.initproc else (k.proc i).parent := by
    intro i
    simp only [Kernel.exited]
    split_ifs <;> rfl
  have haproc : ∀ i, ((a.exit c).2.proc i).space = (a.proc i).space ∧
      ((a.exit c).2.proc i).pid = (a.proc i).pid ∧
      ((a.exit c).2.proc i).state = (if i = c then .zombie else (a.proc i).state) ∧
      ((a.exit c).2.proc i).parent =
        if (a.proc i).parent = some c then a.initproc else (a.proc i).parent := by
    intro i
    simp only [Eager.exit]
    split_ifs <;> simp
  refine ⟨hinv, fun i => ?_, fun i => ?_, fun i => ?_, h.nextpid, h.initproc, fun i hi => ?_⟩
  · obtain ⟨-, -, -, -, hs⟩ := exited_proc k c i
    rw [(haproc i).2.2.1, hs, h.state]
  · obtain ⟨-, -, -, hp, -⟩ := exited_proc k c i
    rw [(haproc i).2.1, hp, h.pid]
  · rw [(haproc i).2.2.2, hparent, h.parent, h.initproc]
  · obtain ⟨-, hd, hsz, -, hs⟩ := exited_proc k c i
    rw [(haproc i).1]
    refine (h.shown i ?_).keeps hd hsz fun g _ => ?_
    · rw [hs] at hi
      split_ifs at hi with hic
      · rw [hic, hc]
        simp
      · exact hi
    · rw [holders_exited]
      exact ⟨id, rfl⟩

/-- **`wait`**. -/
lemma Sim.wait (hR : ∀ f ∈ R, Kmem.Usable f) (h : Sim R k a) :
    Wp (wait c) NoPage (fun r k' => (r.map Reply.value).getD .nothing = (a.wait c).1 ∧
      Sim R k' (a.wait c).2) k := by
  have hfind : (slots.find? fun i => decide ((a.proc i).parent = some c ∧ (a.proc i).state = .zombie)) =
      zombieChild k c := by
    simp only [h.state, h.parent]
    rfl
  refine (wait_spec hR h.inv).post fun r k' hk' => ?_
  unfold Eager.wait
  rw [hfind]
  obtain ⟨hinv, ⟨rfl, hnone, rfl⟩ | ⟨i, m', rfl, hi, rfl, hkeep⟩⟩ := hk'
  · rw [hnone]
    exact ⟨rfl, h⟩
  · rw [hi]
    have hself := reaped_self k i m'
    have hother : ∀ j, j ≠ i → (k.reaped i m').proc j = k.proc j := fun j hj => reaped_other hj m'
    have haself : (a.setProc i ⟨.unused, 0, none, (a.proc i).space⟩).proc i =
        ⟨.unused, 0, none, (a.proc i).space⟩ := Function.update_self _ _ _
    have haother : ∀ j, j ≠ i → (a.setProc i ⟨.unused, 0, none, (a.proc i).space⟩).proc j = a.proc j :=
      fun j hj => Function.update_of_ne hj _ _
    refine ⟨by rw [← h.pid i]; rfl,
      .of_entries hinv (fun j => ?_) h.nextpid h.initproc fun j hj => ?_⟩
    · rcases eq_or_ne j i with rfl | hji
      · rw [SameEntry, haself, hself]
        exact ⟨rfl, rfl, rfl⟩
      · rw [SameEntry, haother j hji, hother j hji]
        exact h.entry j
    · rcases eq_or_ne j i with rfl | hji
      · rw [hself] at hj
        exact absurd rfl hj
      · rw [haother j hji]
        rw [hother j hji] at hj
        exact (h.shown j hj).keeps (by rw [hother j hji]) (by rw [hother j hji])
          (hkeep.keepsPages hji)

/-- **One operation** has the reply of the eager machine, and keeps the relation. -/
theorem Sim.perform (hR : ∀ f ∈ R, Kmem.Usable f) (h : Sim R k a) {op : Op} (hop : a.Allows op) :
    Wp (perform op) (RunErr op) (fun r k' => r = (a.next op).1 ∧ Sim R k' (a.next op).2) k := by
  cases op with
  | kvmalloc => exact hop.elim
  | userinit init => exact hop.elim
  | pipealloc c files => exact hop.elim
  | pipeclose c f writable => exact hop.elim
  | fork c =>
    have hc : (k.proc c).state = .runnable := (h.state c).symm.trans hop
    exact (h.fork hR hc).bind fun r k' hk' => wp_pure hk'
  | exec c file argv =>
    have hc : (k.proc c).state = .runnable := (h.state c).symm.trans hop
    exact (h.exec hR hc file argv).bind fun r k' hk' => wp_pure hk'
  | sbrk c n =>
    obtain ⟨hstate, hlo, hhi, hpos⟩ := hop
    exact (h.sbrk hR ((h.state c).symm.trans hstate) hlo hhi hpos).bind fun r k' hk' => wp_pure hk'
  | access c va user x n =>
    obtain ⟨hstate, hva, hguard, hn⟩ := hop
    exact (h.access hR ((h.state c).symm.trans hstate) hva hguard hn).bind fun r k' hk' => wp_pure hk'
  | exit c =>
    obtain ⟨hstate, hinit⟩ := hop
    exact (h.exit ((h.state c).symm.trans hstate) hinit).bind fun r k' hk' => wp_pure ⟨rfl, hk'⟩
  | wait c => exact (h.wait hR).bind fun r k' hk' => wp_pure hk'

/-- The first process is the one of the eager machine. -/
lemma sim_initial (hR : ∀ f ∈ R, Kmem.Usable f) (hinv : Inv R k)
    (hproc : k.proc = fun _ => Proc.zero) (hnext : k.nextpid = 1) {init : List UInt8}
    (hlen : init.length < PGSIZE) :
    Wp (userinit init) NoPage (fun _ k' => Sim R k' (Eager.initial init)) k := by
  have hfirst : firstUnused k = some 0 :=
    firstUnused_eq (by rw [hproc]; rfl) fun j hj => absurd hj (Fin.not_lt_zero j)
  refine (userinit_spec hR (fun _ h => h) hinv init (fun h => absurd h (not_le.mpr hlen))
    fun h => absurd (hfirst.symm.trans h) (by simp)).post fun _ k' hk' => ?_
  obtain ⟨hinv', i, f, d, m', hi, rfl, -, hshows, hown⟩ := hk'
  obtain rfl := Option.some.inj (hfirst.symm.trans hi)
  have hself := booted_self k 0 f d m'
  have hother : ∀ j, j ≠ 0 → (k.booted 0 f d m').proc j = Proc.zero := fun j hj => by
    rw [booted_other k f d m' hj, hproc]
  have hparent : (k.proc 0).parent = none := by
    rw [hproc]
    rfl
  have haself : (Eager.initial init).proc 0 = ⟨.runnable, 1, none, Space.initial init⟩ := rfl
  have haother : ∀ j, j ≠ 0 → (Eager.initial init).proc j = ⟨.unused, 0, none, Space.empty⟩ :=
    fun j hj => if_neg hj
  refine .of_entries hinv' (fun j => ?_) ?_ rfl fun j hj => ?_
  · rcases eq_or_ne j 0 with rfl | hne
    · rw [SameEntry, haself, hself, hnext, hparent]
      exact ⟨rfl, rfl, rfl⟩
    · rw [SameEntry, haother j hne, hother j hne]
      exact ⟨rfl, rfl, rfl⟩
  · show 2 = k.nextpid + 1
    rw [hnext]
    rfl
  · rcases eq_or_ne j 0 with rfl | hne
    · rw [haself]
      exact ⟨d, by rw [hself], by rw [hself]; rfl, hshows, hown.owned⟩
    · rw [hother j hne] at hj
      exact absurd rfl hj

/-! ### Runs -/

/-- **Copy-on-write refines eager copying.**  Every run of the system has the replies of the
machine in which `fork` copies the whole address space: every load returns the byte of the
process' own address space, where each `fork` made a copy and each store changed one byte.  A run
ends early only when there is no free page, or in an `exec` that fails. -/
theorem cow_refines_eager {free : List ℕ} (hboot : Boot free k) {init : List UInt8}
    (hlen : init.length < PGSIZE) {ops : List Op}
    (hops : AllowsAll Eager.next Eager.Allows (Eager.initial init) ops) :
    Wp (performAll perform (.kvmalloc :: .userinit init :: ops))
      (fun e => NoPage e ∨ ∃ op ∈ ops, RunErr op e)
      (fun rs _ => rs = .nothing :: .nothing :: replies Eager.next (Eager.initial init) ops) k := by
  have hR := hboot.1.usable
  have hinv := Inv.boot hboot
  obtain ⟨-, pages, rfl⟩ := hboot
  have hkvm := kvmalloc_spec hR hinv rfl
  refine Wp.bind (P := fun r k' => r = .nothing ∧ Inv {f | f ∈ free} k' ∧
    (k'.proc = fun _ => Proc.zero) ∧ k'.nextpid = 1) ?_ fun r k₁ hk₁ => ?_
  · refine (hkvm.mono (fun _ _ h => h) fun _ h => Or.inl h).bind fun _ k' hk' => wp_pure ?_
    obtain ⟨hinv', hproc, hnext, -⟩ := hk'
    exact ⟨rfl, hinv', hproc, hnext⟩
  obtain ⟨rfl, hinv₁, hproc₁, hnext₁⟩ := hk₁
  refine Wp.bind (P := fun rs _ => rs = .nothing :: replies Eager.next (Eager.initial init) ops) ?_
    fun rs k₂ hrs => wp_pure (by rw [hrs])
  refine Wp.bind (P := fun r k' => r = .nothing ∧ Sim {f | f ∈ free} k' (Eager.initial init)) ?_
    fun r k₂ hk₂ => ?_
  · exact ((sim_initial hR hinv₁ hproc₁ hnext₁ hlen).mono (fun _ _ h => h) fun _ h => Or.inl h).bind
      fun _ k' hk' => wp_pure ⟨rfl, hk'⟩
  obtain ⟨rfl, hsim⟩ := hk₂
  have hstep : ∀ k a op, Sim {f | f ∈ free} k a → Eager.Allows a op →
      Wp (perform op) (RunErr op) (fun r k' => r = (a.next op).1 ∧
        Sim {f | f ∈ free} k' (a.next op).2) k := fun _ _ _ hs hop => hs.perform hR hop
  have hrun := wp_performAll hstep ops k₂ _ hsim hops
  exact (hrun.mono (fun _ _ h => h) fun _ h => Or.inr h).bind fun rs k₃ hrs => wp_pure (by rw [hrs])

omit [Layout] in
/-- A child stores a byte, which its parent does not see. -/
theorem cow_refines_eager_child :
    Wp (@performAll _ _ _ _ (@perform Layout.sample) [.kvmalloc, .userinit [], .fork 0,
        .access 1 0 true (.store 7) 2, .access 0 0 true .load 2, .access 1 0 true .load 2])
      NoPage (fun rs _ => rs = [.nothing, .nothing, .value 2, .byte 7, .byte 0, .byte 7])
      (Kernel.boot sampleFree fun _ => zeroPage) := by
  have hboot : @Boot Layout.sample sampleFree (Kernel.boot sampleFree fun _ => zeroPage) :=
    ⟨sampleFree_freeList, fun _ => zeroPage, rfl⟩
  have hrun := @cow_refines_eager Layout.sample _ _ hboot [] (by decide)
    [.fork 0, .access 1 0 true (.store 7) 2, .access 0 0 true .load 2, .access 1 0 true .load 2]
    ?_
  · refine hrun.mono (fun rs _ h => h) fun e he => ?_
    rcases he with he | ⟨op, hop, he⟩
    · exact he
    · simp only [List.mem_cons, List.not_mem_nil, or_false] at hop
      rcases hop with rfl | rfl | rfl | rfl <;> exact he
  · refine ⟨rfl, ⟨rfl, ?_, ?_, le_rfl⟩, ⟨rfl, ?_, ?_, le_rfl⟩, ⟨rfl, ?_, ?_, le_rfl⟩, trivial⟩ <;> decide

/-! ### The guard page -/

/-- The page of process `c` at page `v` is closed to user code, and has no other holder. -/
def ClosedAlone (k : Kernel) (c : Slot) (v : ℕ) : Prop :=
  ∃ d e, (k.proc c).pgdir = some d ∧ d.entry v = some e ∧ e.u = false ∧ e.pfn < NPAGE ∧
    k.mem.alloc.pgRef e.pfn = 1

/-- The handler makes a closed page writable, and leaves it closed. -/
lemma fault_closedAlone {va : ℕ} (h : ClosedAlone k c (va / PGSIZE)) :
    Wp (fault c va) (fun _ => False) (fun _ k' => ClosedAlone k' c (va / PGSIZE)) k := by
  obtain ⟨d, e, hd, he, hu, hlt, hone⟩ := h
  have hread : getRefc e.pfn k.mem = .ok (1, k.mem) := by
    rw [getRefc, Kmem.getRefc_of_lt hlt, hone]
    rfl
  unfold fault cowHandler
  refine wp_bind (wp_pgdirOf hd (wp_bind (wp_vm ?_)))
  cases hp : d.pde (PDX (va / PGSIZE)) with
  | none =>
    rw [PageDir.entry, hp] at he
    exact absurd he (by simp)
  | some t =>
    rw [he]
    refine wp_bind ?_
    rw [Wp, hread]
    refine wp_ite (fun h => absurd h (by decide)) fun _ => wp_ite (fun _ => ?_) fun h => absurd rfl h
    have hset := PageDir.setEntry_entry d (d.table_isSome_of_entry he) (some { e with w := true })
    refine wp_pure (wp_setDir ⟨_, { e with w := true }, congrArg Proc.pgdir (setSpace_proc _ _ _), ?_,
      hu, hlt, hone⟩)
    rw [hset, Function.update_self]

/-- An access by user code to a closed page faults again and again. -/
lemma access_closedAlone {va : ℕ} (x : Access) (h : ClosedAlone k c (va / PGSIZE)) (n : ℕ) :
    Wp (access c va true x n) (fun _ => False) (fun r _ => r = none) k := by
  refine access_rule (P := fun k => ClosedAlone k c (va / PGSIZE)) (fun k hk => ?_)
    (fun k d hk _ _ => fault_closedAlone hk) (fun k d e hk hd he hallow hx => ?_)
    (fun k d e b hk hd he hallow hx => ?_) (fun _ _ => rfl) n k h
  · obtain ⟨d, -, hd, -⟩ := hk
    exact ⟨d, hd⟩
  · obtain ⟨d₀, e₀, hd₀, he₀, hu, -⟩ := hk
    obtain rfl := Option.some.inj (hd.symm.trans hd₀)
    obtain rfl := Option.some.inj (he.symm.trans he₀)
    subst hx
    exact absurd hallow (by simp [Pte.allows, hu])
  · obtain ⟨d₀, e₀, hd₀, he₀, hu, -⟩ := hk
    obtain rfl := Option.some.inj (hd.symm.trans hd₀)
    obtain rfl := Option.some.inj (he.symm.trans he₀)
    subst hx
    exact absurd hallow (by simp [Pte.allows, hu])

/-- With enough free pages the first process gets a program with a guard page. -/
lemma CountReach.exists_guard {free : List ℕ} (hfree : FreeList free)
    (hn : 2 * NPTENTRIES + 6 ≤ free.length) : ∃ k, CountReach free k ∧
      (k.proc 0).state = .runnable ∧ 0 < (k.proc 0).sz ∧ ClosedAlone k 0 0 := by
  have hboot : Boot free (Kernel.boot free fun _ => zeroPage) := ⟨hfree, _, rfl⟩
  obtain ⟨k₁, k₂, d, hstep₁, he₂, hr₂, hinv₂, hrun, hsz, hd, hpages, -⟩ :=
    firstExec_ok (n := 0) hfree hn
  obtain ⟨e, he, hone, hu⟩ := hpages 0 (by decide)
  refine ⟨k₂, ((Reachable.start hboot).next ⟨hstep₁, trivial⟩).next ⟨⟨he₂, _, hr₂⟩, trivial⟩,
    hrun, by rw [hsz]; decide, d, e, hd, he, by simpa using hu,
    hinv₂.pfn_lt hfree.usable hd (by decide) he, ?_⟩
  rw [hinv₂.counts.count, hone]
  rfl

omit [Layout] in
/-- A load by user code from an address below the size of its process that never returns. -/
theorem guard_load_never_returns : ∃ k, @CountReach Layout.sample sampleFree k ∧
    (k.proc 0).state = .runnable ∧ 0 < (k.proc 0).sz ∧
    ∀ n, ∃ k', @access Layout.sample 0 0 true .load n k = .ok (none, k') := by
  obtain ⟨k, hk, hrun, hsz, hclosed⟩ := @CountReach.exists_guard Layout.sample _ sampleFree_freeList
    (by rw [sampleFree, List.length_range']; decide)
  refine ⟨k, hk, hrun, hsz, fun n => ?_⟩
  obtain ⟨r, k', hr, rfl⟩ :=
    (@access_closedAlone Layout.sample k 0 0 .load hclosed n).exists_ok fun _ => id
  exact ⟨k', hr⟩

end Xv6Projects.Cow
