import Xv6Projects.Cow.Exhaustion
import Xv6Projects.Cow.Refinement

/-!
# The pages that processes map

What the holders of a mapped page are, in every state between two operations: user entries only,
all for the same virtual page, so at most one of each process; and a single one where the page
may be written.
-/

namespace Xv6Projects.Cow

open Library Vm Finset

/-- The holders that the user entries of a process are. -/
def Proc.userHolds (p : Proc) : ℕ → ℕ := p.pgdir.elim 0 Cow.userHolds

namespace Kernel

/-- The holders that user entries are. -/
def userHolds (k : Kernel) : ℕ → ℕ := ∑ i, (k.proc i).userHolds

/-- The user page `q` of process `i` has entry `e`. -/
def UserPte (k : Kernel) (i : Slot) (q : ℕ) (e : Pte) : Prop :=
  q < NUPAGE ∧ ∃ d, (k.proc i).pgdir = some d ∧ d.entry q = some e

end Kernel

/-- **User pages**: a mapped page is held by user entries only, they are entries of one virtual
page, and a page that may be written has one. -/
structure UserPages (k : Kernel) : Prop where
  only : ∀ g, 0 < k.userHolds g → k.holders g = k.userHolds g
  aligned : ∀ i j q q' e e', k.UserPte i q e → k.UserPte j q' e' → e.pfn = e'.pfn → q = q'
  writable : ∀ i q e, k.UserPte i q e → e.w = true → k.holders e.pfn = 1

/-! ### Counting entries -/

variable {k k' : Kernel} {i j c : Slot} {d d' : PageDir} {q q' g : ℕ} {e e' : Pte}

/-- A page is held by the user entries that map it. -/
lemma userHolds_pos_iff : 0 < userHolds d g ↔ ∃ q e, q < NUPAGE ∧ d.entry q = some e ∧ e.pfn = g := by
  constructor
  · intro hpos
    rw [userHolds, Finset.sum_apply] at hpos
    obtain ⟨q, hq, hone⟩ := exists_ne_zero_of_sum_ne_zero hpos.ne'
    cases he : d.entry q with
    | none => simp [he] at hone
    | some e =>
      refine ⟨q, e, mem_range.mp hq, he, ?_⟩
      by_contra hne
      simp [he, Ne.symm hne] at hone
  · rintro ⟨q, e, hq, he, rfl⟩
    exact one_le_userHolds hq he

lemma proc_userHolds_of_pgdir (hd : (k.proc i).pgdir = some d) :
    (k.proc i).userHolds = userHolds d := by
  rw [Proc.userHolds, hd, Option.elim_some]

lemma proc_userHolds_le (i : Slot) (g : ℕ) : (k.proc i).userHolds g ≤ (k.proc i).holders g := by
  rw [Proc.userHolds, Proc.holders]
  cases (k.proc i).pgdir with
  | none =>
    rw [Option.elim_none]
    exact Nat.zero_le _
  | some d =>
    rw [Option.elim_some, Option.elim_some, holds, Pi.add_apply, Pi.add_apply]
    omega

lemma proc_userHolds_pos_iff : 0 < (k.proc i).userHolds g ↔ ∃ q e, k.UserPte i q e ∧ e.pfn = g := by
  cases hd : (k.proc i).pgdir with
  | none => simp [Proc.userHolds, Kernel.UserPte, hd]
  | some d =>
    rw [proc_userHolds_of_pgdir hd, userHolds_pos_iff]
    constructor
    · rintro ⟨q, e, hq, he, rfl⟩
      exact ⟨q, e, ⟨hq, d, hd, he⟩, rfl⟩
    · rintro ⟨q, e, ⟨hq, d', hd', he⟩, rfl⟩
      obtain rfl := Option.some.inj (hd.symm.trans hd')
      exact ⟨q, e, hq, he, rfl⟩

lemma Kernel.userHolds_apply (k : Kernel) (g : ℕ) :
    k.userHolds g = ∑ i, (k.proc i).userHolds g := by
  rw [Kernel.userHolds, Finset.sum_apply]

lemma Kernel.userHolds_pos_iff : 0 < k.userHolds g ↔ ∃ i q e, k.UserPte i q e ∧ e.pfn = g := by
  rw [k.userHolds_apply, sum_pos_iff]
  constructor
  · rintro ⟨i, -, hpos⟩
    obtain ⟨q, e, h⟩ := proc_userHolds_pos_iff.mp hpos
    exact ⟨i, q, e, h⟩
  · rintro ⟨i, q, e, h⟩
    exact ⟨i, mem_univ i, proc_userHolds_pos_iff.mpr ⟨q, e, h⟩⟩

lemma Kernel.userHolds_le_holders (k : Kernel) (g : ℕ) : k.userHolds g ≤ k.holders g := by
  have hle : ∑ i, (k.proc i).userHolds g ≤ ∑ i, (k.proc i).holders g :=
    sum_le_sum fun i _ => proc_userHolds_le i g
  rw [k.userHolds_apply]
  simp only [Kernel.holders, Pi.add_apply, Finset.sum_apply]
  omega

/-- A page with one holder has one entry. -/
lemma Kernel.UserPte.eq_of_one (h : k.UserPte i q e) (h' : k.UserPte j q' e') (hpfn : e.pfn = e'.pfn)
    (hone : k.holders e.pfn = 1) : i = j ∧ q = q' := by
  have hle := (k.userHolds_le_holders e.pfn).trans hone.le
  rw [k.userHolds_apply] at hle
  have hpos := proc_userHolds_pos_iff.mpr ⟨q, e, h, rfl⟩
  have hpos' := proc_userHolds_pos_iff.mpr ⟨q', e', h', hpfn.symm⟩
  have hij : i = j := by
    by_contra hne
    have hsum := Finset.add_le_sum (f := fun i => (k.proc i).userHolds e.pfn)
      (fun i _ => Nat.zero_le _) (mem_univ i) (mem_univ j) hne
    omega
  subst hij
  obtain ⟨hq, d, hd, he⟩ := h
  obtain ⟨hq', d', hd', he'⟩ := h'
  obtain rfl := Option.some.inj (hd.symm.trans hd')
  have hone := single_le_sum (f := fun i => (k.proc i).userHolds e.pfn)
    (fun i _ => Nat.zero_le _) (mem_univ i)
  simp only [proc_userHolds_of_pgdir hd] at hone
  exact ⟨rfl, (entry_inj hq hq' he he' hpfn.symm (by omega)).symm⟩

/-- A process holds each page by one user entry at most. -/
lemma UserPages.proc_userHolds_le_one (h : UserPages k) (i : Slot) (g : ℕ) :
    (k.proc i).userHolds g ≤ 1 := by
  cases hd : (k.proc i).pgdir with
  | none =>
    rw [Proc.userHolds, hd, Option.elim_none]
    exact Nat.zero_le _
  | some d =>
    rw [proc_userHolds_of_pgdir hd]
    by_contra hmany
    obtain ⟨q, e, hq, he, rfl⟩ := userHolds_pos_iff.mp (by omega : 0 < userHolds d g)
    have hother : ∀ q' ∈ range NUPAGE, q' ≠ q → one ((d.entry q').map Pte.pfn) e.pfn = 0 := by
      intro q' hq' hne
      cases he' : d.entry q' with
      | none => rfl
      | some e' =>
        have hpfn : e.pfn ≠ e'.pfn := fun hpfn => hne
          (h.aligned i i q q' e e' ⟨hq, d, hd, he⟩ ⟨mem_range.mp hq', d, hd, he'⟩ hpfn).symm
        simp [hpfn]
    have hsum : userHolds d e.pfn = one ((d.entry q).map Pte.pfn) e.pfn := by
      rw [userHolds, Finset.sum_apply]
      exact sum_eq_single_of_mem q (mem_range.mpr hq) hother
    have hone : one ((d.entry q).map Pte.pfn) e.pfn = 1 := by simp [he]
    omega

/-! ### One operation -/

/-- What an operation does with mapped pages, when the processes with `P` fork: they get no
holders other than user entries, and each entry is the only holder of its page, or has the page of
an earlier entry at its address, of the process or of one that forks; where it may be written, the
earlier entry could, and the page has no more holders. -/
structure MapsOn (P : Slot → Prop) (k k' : Kernel) : Prop where
  count : ∀ g, 0 < k.userHolds g → k'.holders g + k.userHolds g ≤ k.holders g + k'.userHolds g
  entry : ∀ i q e', k'.UserPte i q e' → k'.holders e'.pfn = 1 ∨
    ∃ j e, (j = i ∨ P j) ∧ k.UserPte j q e ∧ e.pfn = e'.pfn ∧
      (e'.w = true → e.w = true ∧ k'.holders e.pfn ≤ k.holders e.pfn)

variable {P : Slot → Prop}

lemma UserPages.next (h : UserPages k) (hs : MapsOn P k k') : UserPages k' := by
  refine ⟨fun g hg => ?_, fun i j q q' e e' hq hq' hpfn => ?_, fun i q e' hq hw => ?_⟩
  · obtain ⟨i, q, e', hq, rfl⟩ := Kernel.userHolds_pos_iff.mp hg
    have hle := k'.userHolds_le_holders e'.pfn
    rcases hs.entry i q e' hq with hone | ⟨j, e, -, he, hpfn, -⟩
    · omega
    · have hpos := Kernel.userHolds_pos_iff.mpr ⟨j, q, e, he, hpfn⟩
      have hcount := hs.count _ hpos
      have honly := h.only _ hpos
      omega
  · rcases hs.entry i q e hq with hone | ⟨i', e₁, -, he₁, hpfn₁, -⟩
    · exact (hq.eq_of_one hq' hpfn hone).2
    · rcases hs.entry j q' e' hq' with hone | ⟨j', e₂, -, he₂, hpfn₂, -⟩
      · exact (hq'.eq_of_one hq hpfn.symm hone).2.symm
      · exact h.aligned i' j' q q' e₁ e₂ he₁ he₂ (by rw [hpfn₁, hpfn₂, hpfn])
  · rcases hs.entry i q e' hq with hone | ⟨j, e, -, he, hpfn, hwrite⟩
    · exact hone
    · obtain ⟨hw', hle⟩ := hwrite hw
      have hone := h.writable j q e he hw'
      have hpos := Kernel.userHolds_pos_iff.mpr ⟨i, q, e', hq, rfl⟩
      have hheld := k'.userHolds_le_holders e'.pfn
      rw [hpfn] at hle hone
      omega

/-- The page directories stay, and no page in use gets a holder. -/
lemma MapsOn.of_pgdir (hp : ∀ i, (k'.proc i).pgdir = (k.proc i).pgdir)
    (hle : ∀ g, 0 < k.holders g → k'.holders g ≤ k.holders g) : MapsOn P k k' := by
  have huser : k'.userHolds = k.userHolds :=
    sum_congr rfl fun i _ => by rw [Proc.userHolds, Proc.userHolds, hp i]
  refine ⟨fun g hg => ?_, fun i q e' hq => Or.inr ⟨i, e', Or.inl rfl, ?_, rfl,
    fun hw => ⟨hw, hle _ ?_⟩⟩⟩
  · rw [huser]
    have hheld := k.userHolds_le_holders g
    have hle := hle g (by omega)
    omega
  · rwa [Kernel.UserPte, hp i] at hq
  · have hpos : 0 < k.userHolds e'.pfn := by
      rw [← huser]
      exact Kernel.userHolds_pos_iff.mpr ⟨i, q, e', hq, rfl⟩
    exact hpos.trans_le (k.userHolds_le_holders _)

lemma userHolds_setSpace (hd : (k.proc c).pgdir = some d) (d' : PageDir) (m : Mem Kmem)
    (sz g : ℕ) :
    (k.setSpace c m d' sz).userHolds g + userHolds d g = k.userHolds g + userHolds d' g := by
  have hsum := sum_univ_add_of_eq_off (f := fun i => ((k.setSpace c m d' sz).proc i).userHolds g)
    (g := fun i => (k.proc i).userHolds g) c fun i hi => by rw [setSpace_other hi]
  have hself : ((k.setSpace c m d' sz).proc c).userHolds = userHolds d' :=
    proc_userHolds_of_pgdir (congrArg Proc.pgdir (setSpace_proc m d' sz))
  rw [hself, proc_userHolds_of_pgdir hd] at hsum
  rw [Kernel.userHolds_apply, Kernel.userHolds_apply]
  exact hsum

/-- One process changes its address space: its page directory and page tables occupy no page that
was mapped. -/
lemma MapsOn.setSpace {f sz : ℕ} {m : Mem Kmem} (hf : (k.proc c).kstack = some f)
    (hd : (k.proc c).pgdir = some d)
    (hle : ∀ g, 0 < k.holders g → (k.setSpace c m d' sz).holders g ≤ k.holders g)
    (hdir : ∀ g, 0 < k.userHolds g → dirHolds d' g ≤ dirHolds d g)
    (hentry : ∀ q e', q < NUPAGE → d'.entry q = some e' →
      (k.setSpace c m d' sz).holders e'.pfn = 1 ∨
        ∃ e, d.entry q = some e ∧ e.pfn = e'.pfn ∧ (e'.w = true → e.w = true)) :
    MapsOn P k (k.setSpace c m d' sz) := by
  have hheld : ∀ j q e, k.UserPte j q e → 0 < k.holders e.pfn := fun j q e he =>
    (Kernel.userHolds_pos_iff.mpr ⟨j, q, e, he, rfl⟩).trans_le (k.userHolds_le_holders _)
  refine ⟨fun g hg => ?_, fun i q e' hq => ?_⟩
  · have huser := userHolds_setSpace hd d' m sz g
    have hsplit := congrFun (holders_of_live hf hd) g
    have hsplit' := congrFun (holders_setSpace hf m d' sz) g
    have hdir := hdir g hg
    simp only [Pi.add_apply, holds] at hsplit hsplit'
    omega
  · obtain ⟨hq, d₁, hd₁, he'⟩ := hq
    rcases eq_or_ne i c with rfl | hi
    · rw [setSpace_proc] at hd₁
      obtain rfl := Option.some.inj hd₁
      refine (hentry q e' hq he').imp_right fun hold => ?_
      obtain ⟨e, he, hpfn, hw⟩ := hold
      have hq₀ : k.UserPte i q e := ⟨hq, d, hd, he⟩
      exact ⟨i, e, Or.inl rfl, hq₀, hpfn, fun hw' => ⟨hw hw', hle _ (hheld i q e hq₀)⟩⟩
    · rw [setSpace_other hi] at hd₁
      have hq₀ : k.UserPte i q e' := ⟨hq, d₁, hd₁, he'⟩
      exact Or.inr ⟨i, e', Or.inl rfl, hq₀, rfl, fun hw => ⟨hw, hle _ (hheld i q e' hq₀)⟩⟩

/-! ### The operations -/

lemma userHolds_mono (h : ∀ q e, q < NUPAGE → d.entry q = some e → d'.entry q = some e) (g : ℕ) :
    userHolds d g ≤ userHolds d' g := by
  rw [userHolds, userHolds, Finset.sum_apply, Finset.sum_apply]
  refine sum_le_sum fun q hq => ?_
  cases he : d.entry q with
  | none => exact Nat.zero_le _
  | some e => rw [h q e (mem_range.mp hq) he]

variable [Layout] {R : Set ℕ} {m' : Mem Kmem} {sz' : ℕ}

/-- `sbrk`. -/
lemma Resized.mapsOn {n r : ℤ} (h : Inv R k) (hc : (k.proc c).state = .runnable)
    (hd : (k.proc c).pgdir = some d)
    (hr : Resized n k.holders (k.setSpace c m' d' sz').holders d d' (k.proc c).sz sz' k.mem m' r) :
    MapsOn P k (k.setSpace c m' d' sz') := by
  obtain ⟨f, d₀, hf, hd₀, hok⟩ := h.live (c := c) (by rw [hc]; simp)
  obtain rfl := Option.some.inj (hd.symm.trans hd₀)
  cases hr with
  | same hg hdir _ _ _ _ =>
    subst hdir
    exact .setSpace hf hd (fun g hg' => (hg.count g hg').le) (fun _ _ => le_rfl)
      fun q e' _ he' => Or.inr ⟨e', he', rfl, id⟩
  | grown _ _ _ _ hg hfresh =>
    have hkept : ∀ q e, q < NUPAGE → d.entry q = some e → d'.entry q = some e := by
      intro q e hq he
      have hq' := hfresh q
      have hin : q < PGROUNDUP (k.proc c).sz := by
        by_contra hge
        rw [hok.unmapped q (not_lt.mp hge) hq] at he
        exact absurd he (by simp)
      rw [if_neg (by omega)] at hq'
      rw [hq', he]
    refine .setSpace hf hd (fun g hg' => (hg.count g hg').le) (fun g hg' => ?_) fun q e' hq he' => ?_
    · have hheld := k.userHolds_le_holders g
      have hsame := hg.count g (by omega)
      rw [holders_setSpace hf, holders_of_live hf hd] at hsame
      have hmono := userHolds_mono hkept g
      simp only [Pi.add_apply, holds] at hsame
      omega
    · have hq' := hfresh q
      split_ifs at hq' with hin
      · obtain ⟨f', he, hone, -⟩ := hq'
        obtain rfl := Option.some.inj (he.symm.trans he')
        exact Or.inl hone
      · exact Or.inr ⟨e', by rw [← hq', he'], rfl, id⟩
  | shrunk newsz _ _ hs hcl hdir _ _ =>
    refine .setSpace hf hd (fun g _ => hs.count g) (fun g _ => by rw [hdir]) fun q e' _ he' => ?_
    have hq' := hcl q
    rw [he'] at hq'
    split_ifs at hq' with hin
    exact Or.inr ⟨e', hq'.symm, rfl, id⟩

omit [Layout] in
/-- A page fault. -/
lemma Faulted.mapsOn {v : ℕ} {f : ℕ} (hf : (k.proc c).kstack = some f)
    (hd : (k.proc c).pgdir = some d) (hframe : d'.frame = d.frame) (htable : d'.table = d.table)
    (hfault : Faulted k (k.setSpace c m' d' (k.proc c).sz) d d' v m') :
    MapsOn P k (k.setSpace c m' d' (k.proc c).sz) := by
  have hdir : dirHolds d' = dirHolds d := by rw [dirHolds, dirHolds, hframe, htable]
  cases hfault with
  | kernel _ hentry _ =>
    have hholds : holds d' = holds d := by rw [holds, holds, hdir, userHolds_congr hentry]
    refine .setSpace hf hd (fun g _ => ?_) (fun g _ => by rw [hdir]) fun q e' _ he' => ?_
    · rw [holders_setSpace hf, holders_of_live hf hd, hholds]
    · exact Or.inr ⟨e', by rw [← hentry, he'], rfl, id⟩
  | user e hv he hh =>
    cases hh with
    | write hone hentry _ =>
      have hsum := holders_remap hf hd hframe htable hv he hentry m' (k.proc c).sz
      have hsame : (k.setSpace c m' d' (k.proc c).sz).holders = k.holders := add_right_cancel hsum
      refine .setSpace hf hd (fun g _ => by rw [hsame]) (fun g _ => by rw [hdir])
        fun q e' _ he' => ?_
      rw [hentry] at he'
      rcases eq_or_ne q v with rfl | hne
      · rw [Function.update_self] at he'
        obtain rfl := Option.some.inj he'
        rw [hsame]
        exact Or.inl hone
      · rw [Function.update_of_ne hne] at he'
        exact Or.inr ⟨e', he', rfl, id⟩
    | copy f' _ hfree hentry _ =>
      have hsum := holders_remap hf hd hframe htable hv he hentry m' (k.proc c).sz
      have hne : ∀ g, 0 < k.holders g → g ≠ f' := by
        rintro g hg rfl
        omega
      refine .setSpace hf hd (fun g hg => ?_) (fun g _ => by rw [hdir]) fun q e' _ he' => ?_
      · have hg' := congrFun hsum g
        simp only [Pi.add_apply, Pi.single_eq_of_ne (hne g hg)] at hg'
        omega
      · rw [hentry] at he'
        rcases eq_or_ne q v with rfl | hqv
        · -- the copy has no other holder
          rw [Function.update_self] at he'
          obtain rfl := Option.some.inj he'
          have hpos : 0 < k.holders e.pfn :=
            (Kernel.userHolds_pos_iff.mpr ⟨c, q, e, ⟨hv, d, hd, he⟩, rfl⟩).trans_le
              (k.userHolds_le_holders _)
          have hf' := congrFun hsum f'
          simp only [Pi.add_apply, Pi.single_eq_same, hfree,
            Pi.single_eq_of_ne (hne _ hpos).symm] at hf'
          exact Or.inl (by omega)
        · rw [Function.update_of_ne hqv] at he'
          exact Or.inr ⟨e', he', rfl, id⟩

omit [Layout] in
/-- Bytes are written to a page. -/
lemma UserPages.put (h : UserPages k) (f : ℕ) (p : Page) : UserPages (k.setMem (k.mem.put f p)) :=
  ⟨h.only, h.aligned, h.writable⟩

/-- An access. -/
lemma access_userPages (hR : ∀ f ∈ R, Kmem.Usable f) (h : Inv R k) (hu : UserPages k)
    (hc : (k.proc c).state = .runnable) {va : ℕ} {user : Bool} {a : Access} {n : ℕ}
    (hs : FaultOk k (.access c va user a n)) :
    Wp (access c va user a n) (fun _ => True) (fun _ k' => UserPages k') k :=
  (access_faults hR h hc hs hu (fun _ _ _ _ _ hu _ hf hd hframe htable hfault =>
    hu.next (P := fun _ => False) (hfault.mapsOn hf hd hframe htable))
    fun _ f p hu => hu.put f p).mono (fun _ _ hk' => hk'.2) fun _ _ => trivial

omit [Layout] in
lemma userHolds_update_proc {p : Proc} (hp : k'.proc = Function.update k.proc i p) (g : ℕ) :
    k'.userHolds g + (k.proc i).userHolds g = k.userHolds g + p.userHolds g := by
  have hsum := sum_univ_add_of_eq_off (f := fun j => (k'.proc j).userHolds g)
    (g := fun j => (k.proc j).userHolds g) i fun j hj => by rw [hp, Function.update_of_ne hj]
  rw [hp, Function.update_self] at hsum
  rw [Kernel.userHolds_apply, Kernel.userHolds_apply, hp]
  exact hsum

omit [Layout] in
lemma userHolds_congr_pfn
    (h : ∀ q, q < NUPAGE → (d'.entry q).map Pte.pfn = (d.entry q).map Pte.pfn) :
    userHolds d' = userHolds d :=
  sum_congr rfl fun q hq => by rw [h q (mem_range.mp hq)]

section Fork
variable {f : ℕ} {child : PageDir}

/-- After a `fork` parent and child have the user entries of the parent, read-only. -/
lemma Forked.user_entry (h : Inv R k) (hc : (k.proc c).state = .runnable)
    (hfork : Forked k k' c i f d d' child m') (hq : q < NUPAGE) :
    d'.entry q = (d.entry q).map Pte.readOnly ∧ child.entry q = (d.entry q).map Pte.readOnly := by
  obtain ⟨-, d₀, -, hd₀, hok⟩ := h.live (c := c) (by rw [hc]; simp)
  obtain rfl := Option.some.inj (hfork.pgdir.symm.trans hd₀)
  rw [hfork.parent q, hfork.child q]
  split_ifs with hin
  · exact ⟨rfl, rfl⟩
  · rw [hok.unmapped q (not_lt.mp hin) hq, kernelEntry_user hq]
    exact ⟨rfl, rfl⟩

/-- The child's page directory is another holder of each page of its parent. -/
lemma Forked.userHolds (h : Inv R k) (hc : (k.proc c).state = .runnable)
    (hi : (k.proc i).state = .unused) (hfork : Forked k k' c i f d d' child m') (g : ℕ) :
    k'.userHolds g = k.userHolds g + Cow.userHolds d g := by
  have hpfn : ∀ o : Option Pte, (o.map Pte.readOnly).map Pte.pfn = o.map Pte.pfn := fun o => by
    cases o <;> rfl
  have hparent : Cow.userHolds d' = Cow.userHolds d := userHolds_congr_pfn fun q hq => by
    rw [(hfork.user_entry h hc hq).1, hpfn]
  have hchild : Cow.userHolds child = Cow.userHolds d := userHolds_congr_pfn fun q hq => by
    rw [(hfork.user_entry h hc hq).2, hpfn]
  have hic := ne_of_unused hc hi
  have hstart := userHolds_setSpace hfork.pgdir d' m' (k.proc c).sz g
  have hzero : ((k.setSpace c m' d' (k.proc c).sz).proc i).userHolds g = 0 := by
    rw [setSpace_other hic, Proc.userHolds, (h.unused hi).2]
    rfl
  have hproc : k'.proc = Function.update (k.setSpace c m' d' (k.proc c).sz).proc i
      ⟨.runnable, k.nextpid, some c, (k.proc c).sz, some f, some child⟩ := by
    rw [hfork.state]
    rfl
  have hnext := userHolds_update_proc hproc g
  rw [hzero, Proc.userHolds, Option.elim_some, hchild] at hnext
  rw [hparent] at hstart
  omega

/-- `fork`: the entries of parent and child are read-only. -/
lemma Forked.mapsOn (h : Inv R k) (hu : UserPages k) (hc : (k.proc c).state = .runnable)
    (hi : (k.proc i).state = .unused) (hfork : Forked k k' c i f d d' child m') :
    MapsOn (· = c) k k' := by
  have hd := hfork.pgdir
  have hic := ne_of_unused hc hi
  have hparent := hfork.parent_pgdir hic
  have hchild := hfork.child_pgdir
  have hread : ∀ q e', q < NUPAGE → (d.entry q).map Pte.readOnly = some e' →
      ∃ e, k.UserPte c q e ∧ e.pfn = e'.pfn ∧
        (e'.w = true → e.w = true ∧ k'.holders e.pfn ≤ k.holders e.pfn) := by
    intro q e' hq he'
    obtain ⟨e, he, rfl⟩ := Option.map_eq_some_iff.mp he'
    exact ⟨e, ⟨hq, d, hd, he⟩, rfl, fun hw => absurd hw (by simp)⟩
  refine ⟨fun g hg => ?_, fun j q e' hq => Or.inr ?_⟩
  · have hheld := k.userHolds_le_holders g
    rw [hfork.count g (by omega), hfork.userHolds h hc hi g]
    omega
  · obtain ⟨hq, d₁, hd₁, he'⟩ := hq
    rcases eq_or_ne j i with rfl | hji
    · obtain rfl := Option.some.inj (hchild.symm.trans hd₁)
      rw [(hfork.user_entry h hc hq).2] at he'
      obtain ⟨e, he⟩ := hread q e' hq he'
      exact ⟨c, e, Or.inr rfl, he⟩
    · rcases eq_or_ne j c with rfl | hjc
      · obtain rfl := Option.some.inj (hparent.symm.trans hd₁)
        rw [(hfork.user_entry h hc hq).1] at he'
        obtain ⟨e, he⟩ := hread q e' hq he'
        exact ⟨j, e, Or.inl rfl, he⟩
      · rw [hfork.proc_other hji hjc] at hd₁
        have hq₀ : k.UserPte j q e' := ⟨hq, d₁, hd₁, he'⟩
        refine ⟨j, e', Or.inl rfl, hq₀, rfl, fun hw => ⟨hw, ?_⟩⟩
        -- a page that may be written is not one of the parent's
        have hone := hu.writable j q e' hq₀ hw
        have hzero : Cow.userHolds d e'.pfn = 0 := by
          by_contra hne
          obtain ⟨q', e, hq', he, hpfn⟩ := userHolds_pos_iff.mp (Nat.pos_of_ne_zero hne)
          exact hjc (hq₀.eq_of_one ⟨hq', d, hd, he⟩ hpfn.symm hone).1
        rw [hfork.count e'.pfn (by omega), hzero, Nat.add_zero]

end Fork

/-- `userinit`: the first process has pages of its own. -/
lemma booted_mapsOn {f : ℕ} {s : Space} (h : Inv R k) (hi : (k.proc i).state = .unused)
    (hg : Grows k.holders (k.booted i f d m').holders k.mem m')
    (hown : Private (k.booted i f d m').holders d s) : MapsOn P k (k.booted i f d m') := by
  have hproc : (k.booted i f d m').proc = Function.update k.proc i
    ⟨.runnable, k.nextpid, (k.proc i).parent, PGSIZE, some f, some d⟩ := rfl
  have hnext := userHolds_update_proc hproc
  have hzero : ∀ g, (k.proc i).userHolds g = 0 := fun g => by
    rw [Proc.userHolds, (h.unused hi).2]
    rfl
  have hheld := k.userHolds_le_holders
  refine ⟨fun g hg' => ?_, fun j q e' hq => ?_⟩
  · have hle := hheld g
    have hnext := hnext g
    rw [hzero g] at hnext
    rw [hg.count g (by omega)]
    omega
  · obtain ⟨hq, d₁, hd₁, he'⟩ := hq
    rcases eq_or_ne j i with rfl | hj
    · rw [booted_self] at hd₁
      obtain rfl := Option.some.inj hd₁
      exact Or.inl (hown q e' hq he').2.1
    · rw [booted_other k f d m' hj] at hd₁
      have hq₀ : k.UserPte j q e' := ⟨hq, d₁, hd₁, he'⟩
      have hpos := Kernel.userHolds_pos_iff.mpr ⟨j, q, e', hq₀, rfl⟩
      exact Or.inr ⟨j, e', Or.inl rfl, hq₀, rfl,
        fun hw => ⟨hw, (hg.count _ (hpos.trans_le (hheld _))).le⟩⟩

omit [Layout] in
/-- `wait`: the entries of the process that is reaped are gone. -/
lemma reaped_mapsOn (i : Slot) (m' : Mem Kmem) : MapsOn P k (k.reaped i m') := by
  have hholds : ∀ g, (k.reaped i m').holders g + (k.proc i).holders g = k.holders g := fun g => by
    rw [holders_reaped, k.holders_eq i, Pi.add_apply]
  refine ⟨fun g _ => ?_, fun j q e' hq => Or.inr ⟨j, e', Or.inl rfl, ?_, rfl,
    fun hw => ⟨hw, ?_⟩⟩⟩
  · have hproc : (k.reaped i m').proc = Function.update k.proc i
      ⟨.unused, 0, none, (k.proc i).sz, none, none⟩ := rfl
    have hnext := userHolds_update_proc hproc g
    have hnone : (⟨.unused, 0, none, (k.proc i).sz, none, none⟩ : Proc).userHolds g = 0 := rfl
    rw [hnone, Nat.add_zero] at hnext
    have hle := proc_userHolds_le (k := k) i g
    have hsum := hholds g
    omega
  · obtain ⟨hq, d₁, hd₁, he'⟩ := hq
    refine ⟨hq, d₁, ?_, he'⟩
    rcases eq_or_ne j i with rfl | hj
    · rw [reaped_self] at hd₁
      exact absurd hd₁ (by simp)
    · rwa [reaped_other hj] at hd₁
  · have hsum := hholds e'.pfn
    omega

/-- **An effect**: the pages of a process are its own, or those of a parent that forks. -/
lemma Effect.mapsOn (h : Inv R k) (hu : UserPages k) {op : Op} {r : Reply} (he : Enabled k op)
    (heff : Effect k k' op r) : MapsOn (fun j => op = .fork j) k k' := by
  cases heff with
  | same _ hproc hle => exact .of_pgdir (fun _ => by rw [hproc]) hle
  | booted i f d m' hi hk hg hown =>
    subst hk
    exact booted_mapsOn h hi hg hown
  | forked i f d d' child m' hi hfork =>
    have hmaps := hfork.mapsOn h hu he hi
    refine ⟨hmaps.count, fun i q e' hq => (hmaps.entry i q e' hq).imp_right ?_⟩
    rintro ⟨j, e, hj, hrest⟩
    exact ⟨j, e, hj.imp_right fun hj => by rw [hj], hrest⟩
  | image elf s d d' m' _ hd hk _ hown hfresh =>
    obtain ⟨f, -, hf, -, -⟩ := h.live (by rw [he]; simp)
    subst hk
    -- the new address space occupies no page that was in use
    refine .setSpace hf hd (fun g hg => ?_) (fun g hg => ?_) fun q e' hq he' =>
      Or.inl (hown q e' hq he').2.1
    · rw [holders_setSpace hf, holders_of_live hf hd, Pi.add_apply, hfresh g hg]
      exact Nat.le_add_right _ _
    · have hzero := hfresh g (hg.trans_le (k.userHolds_le_holders g))
      rw [holds, Pi.add_apply] at hzero
      omega
  | resized d d' sz' m' hd hk hr =>
    subst hk
    exact hr.mapsOn h he.1 hd
  | exited hk =>
    subst hk
    exact .of_pgdir (fun i => (exited_proc k _ i).2.1) fun g _ => by rw [holders_exited]
  | reaped i m' hk =>
    subst hk
    exact reaped_mapsOn i m'

/-- **One operation** keeps what is said of mapped pages. -/
theorem UserPages.perform (hR : ∀ f ∈ R, Kmem.Usable f) (h : Inv R k) (hu : UserPages k) {op : Op}
    (he : Enabled k op) (hs : FaultOk k op) :
    Wp (perform op) (fun _ => True) (fun _ k' => UserPages k') k := by
  rcases op.access_or with ⟨c, va, user, a, n, rfl⟩ | hop
  · exact (access_userPages hR h hu he.1 hs).bind fun _ _ hk' => wp_pure hk'
  · exact (perform_effect hR h he hop).mono (fun _ _ hk' => hu.next (hk'.2.mapsOn h hu he))
      fun _ _ => trivial

/-- Before boot no page is mapped. -/
lemma UserPages.boot {free : List ℕ} (h : Boot free k) : UserPages k := by
  obtain ⟨-, pages, rfl⟩ := h
  have hnone : ∀ i q e, ¬(Kernel.boot free pages).UserPte i q e := by
    rintro i q e ⟨-, d, hd, -⟩
    exact absurd hd (by simp [Kernel.boot, Proc.zero])
  refine ⟨fun g hg => ?_, fun i _ q _ e _ hq => absurd hq (hnone i q e),
    fun i q e hq => absurd hq (hnone i q e)⟩
  obtain ⟨i, q, e, hq, -⟩ := Kernel.userHolds_pos_iff.mp hg
  exact absurd hq (hnone i q e)

/-- **Mapped pages** in every reachable state. -/
theorem FaultReach.userPages {free : List ℕ} (hfree : FreeList free) (h : FaultReach free k) :
    UserPages k := by
  have hboth : Inv {f | f ∈ free} k ∧ UserPages k := by
    refine Reachable.invariant (I := fun k => Inv {f | f ∈ free} k ∧ UserPages k)
      (fun k hk => ⟨Inv.boot hk, .boot hk⟩) (fun k op k' hk hs => ?_) h
    obtain ⟨⟨he, r, hr⟩, hfault⟩ := hs
    exact ⟨(hk.1.perform hfree.usable he hfault).ok hr,
      (hk.2.perform hfree.usable hk.1 he hfault).ok hr⟩
  exact hboth.2

end Xv6Projects.Cow
