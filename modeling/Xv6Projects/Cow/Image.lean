import Xv6Projects.Cow.Holders
import Xv6Projects.Cow.Space

/-!
# exec builds the image of a program

The page directory that `exec` fills is seen by nobody else until it is finished.  Each
function of `exec` is shown to do to the page directory what the function on address spaces
does, as long as every user page has the page directory as its only holder.
-/

namespace Xv6Projects.Cow

open Library Vm Finset

/-- The page directory shows the address space `s`. -/
structure Shows (m : Mem Kmem) (d : PageDir) (s : Space) : Prop where
  le : s.sz ≤ KERNBASE
  guard : ∀ q, s.guard = some q → q < PGROUNDUP s.sz
  mapped : ∀ q, q < PGROUNDUP s.sz → ∃ e, d.entry q = some e ∧
    ∀ o, o < PGSIZE → m.pages e.pfn o = s.bytes (q * PGSIZE + o)
  unmapped : ∀ q, PGROUNDUP s.sz ≤ q → q < NUPAGE → d.entry q = none

/-- The user pages have no holder but their entry, may be written, and are accessible for
user code but for the guard page. -/
def Private (h : ℕ → ℕ) (d : PageDir) (s : Space) : Prop :=
  ∀ q e, q < NUPAGE → d.entry q = some e → e.w = true ∧ h e.pfn = 1 ∧ (e.u = true ↔ s.guard ≠ some q)

/-- A page directory under construction, from the memory `m₀` on; there is an address space as
long as nothing failed. -/
structure Built [Layout] (R : Set ℕ) (hr : ℕ → ℕ) (m₀ m : Mem Kmem) (d : PageDir)
    (o : Option Space) : Prop where
  counts : m.alloc.Counts R (hr + holds d)
  grows : Grows hr (hr + holds d) m₀ m
  shows : ∀ s, o = some s → Shows m d s
  own : ∀ s, o = some s → Private (hr + holds d) d s
  kernel : ∀ s, o = some s → ∀ q, NUPAGE ≤ q → d.entry q = kernelEntry kmap q

/-- A page with one holder is mapped by one entry. -/
lemma entry_inj {d : PageDir} {q q' : ℕ} {e e' : Pte} (hq : q < NUPAGE) (hq' : q' < NUPAGE)
    (he : d.entry q = some e) (he' : d.entry q' = some e') (hpfn : e'.pfn = e.pfn)
    (hone : userHolds d e.pfn ≤ 1) : q' = q := by
  by_contra hne
  have hle := Finset.add_le_sum (f := fun q => one ((d.entry q).map Pte.pfn) e.pfn)
    (fun q _ => Nat.zero_le _) (mem_range.mpr hq') (mem_range.mpr hq) hne
  have hone' : one ((d.entry q').map Pte.pfn) e.pfn = 1 := by simp [he', hpfn]
  have hone'' : one ((d.entry q).map Pte.pfn) e.pfn = 1 := by simp [he]
  rw [hone', hone''] at hle
  rw [userHolds, Finset.sum_apply] at hone
  omega

variable [Layout] {R : Set ℕ} {hr : ℕ → ℕ} {m₀ m : Mem Kmem} {d : PageDir} {s : Space}
  {o : Option Space} {E : Err → Prop}

/-- After a failure the pages are still accounted for. -/
lemma Built.none (hb : Built R hr m₀ m d o) : Built R hr m₀ m d none :=
  ⟨hb.counts, hb.grows, by simp, by simp, by simp⟩

omit [Layout] in
lemma Shows.lt {q : ℕ} (hs : Shows m d s) (hq : q < PGROUNDUP s.sz) : q < NUPAGE :=
  hq.trans_le (PGROUNDUP_le hs.le)

/-- The page of a user entry is held by nobody else. -/
lemma Built.hr_eq_zero (hb : Built R hr m₀ m d (some s)) {q : ℕ} {e : Pte} (hq : q < NUPAGE)
    (he : d.entry q = some e) : hr e.pfn = 0 ∧ userHolds d e.pfn ≤ 1 := by
  have hone := (hb.own s rfl q e hq he).2.1
  have hle := one_le_userHolds hq he
  simp only [Pi.add_apply, holds] at hone
  omega

/-- Bytes are written within a page. -/
lemma Built.write (hb : Built R hr m₀ m d (some s)) {q : ℕ} {e : Pte} (hq : q < PGROUNDUP s.sz)
    (he : d.entry q = some e) (x : ℕ) (bs : List UInt8) (hx : x + bs.length ≤ PGSIZE) :
    Built R hr m₀ (m.put e.pfn (writeBytes (m.pages e.pfn) x bs)) d
      (some (s.write (q * PGSIZE + x) bs)) := by
  have hshows := hb.shows s rfl
  have hqlt := hshows.lt hq
  obtain ⟨hzero, hinj⟩ := hb.hr_eq_zero hqlt he
  refine ⟨hb.counts, ⟨hb.grows.count, fun g hg => ?_⟩, fun s' hs' => ?_, fun s' hs' => ?_,
    fun s' _ => hb.kernel s rfl⟩
  · have hne : g ≠ e.pfn := by
      rintro rfl
      omega
    rw [Mem.put_pages, Function.update_of_ne hne, hb.grows.pages g hg]
  · obtain rfl := Option.some.inj hs'
    refine ⟨hshows.le, hshows.guard, fun q' hq' => ?_, hshows.unmapped⟩
    obtain ⟨e', he', hbytes⟩ := hshows.mapped q' hq'
    refine ⟨e', he', fun i hi => ?_⟩
    show Function.update m.pages e.pfn _ e'.pfn i = _
    rcases eq_or_ne q' q with rfl | hne
    · obtain rfl := Option.some.inj (he'.symm.trans he)
      rw [Function.update_self]
      simp only [Space.write, writeBytes]
      by_cases hin : x ≤ i ∧ i < x + bs.length
      · rw [if_pos hin, if_pos (by omega)]
        congr 1
        omega
      · rw [if_neg hin, if_neg (by omega), hbytes i hi]
    · have hpfn : e'.pfn ≠ e.pfn := fun h =>
        hne (entry_inj hqlt (hshows.lt hq') he he' h hinj)
      rw [Function.update_of_ne hpfn, hbytes i hi]
      refine (writeBytes_of_not ?_).symm
      have hlt : q * PGSIZE + PGSIZE ≤ q' * PGSIZE ∨ q' * PGSIZE + PGSIZE ≤ q * PGSIZE := by
        simp only [PGSIZE]
        omega
      omega
  · obtain rfl := Option.some.inj hs'
    exact hb.own s rfl

omit [Layout] in
lemma Space.write_nil (s : Space) (a : ℕ) : s.write a [] = s := by
  have hbytes : writeBytes s.bytes a [] = s.bytes := funext fun x =>
    writeBytes_of_not (by simp)
  simp only [Space.write, hbytes]

omit [Layout] in
lemma Space.write_append (s : Space) (a : ℕ) (l l' : List UInt8) :
    s.write a (l ++ l') = (s.write a l).write (a + l.length) l' := by
  simp only [Space.write, writeBytes_append]

/-! ### Growing -/

/-- **`allocuvm`** does to the page directory what `alloc` does to the address space. -/
lemma allocuvm_built (hR : ∀ f ∈ R, Kmem.Usable f) (hb : Built R hr m₀ m d (some s)) (newsz : ℕ) :
    Wp (allocuvm d s.sz newsz) NoPage (fun r m' =>
      r.1 = ((s.alloc newsz).map Space.sz).getD 0 ∧ Built R hr m₀ m' r.2 (s.alloc newsz)) m := by
  have hshows := hb.shows s rfl
  refine (allocuvm_counts hR hshows.unmapped hb.counts).post fun r m' h => ?_
  obtain ⟨hc, hg, hout⟩ := h
  have hgrows := hb.grows.trans hg
  rcases hout with ⟨hsz, hle, hlt, hfresh⟩ | ⟨hsz, hle, hd⟩ | ⟨hsz, hlt, hlt', hd⟩
  · rcases Nat.eq_zero_or_pos newsz with rfl | hpos
    · -- a size of zero reads as a failure
      have hnone : s.alloc 0 = Option.none := by
        rw [Space.alloc, if_neg (by decide), if_neg (by omega), if_pos rfl]
      rw [hnone]
      exact ⟨hsz, hc, hgrows, by simp, by simp, by simp⟩
    have hsome : s.alloc newsz = some (s.grow newsz) := by
      rw [Space.alloc, if_neg (by omega), if_neg (by omega), if_neg (by omega)]
    rw [hsome]
    refine ⟨hsz, hc, hgrows, fun s' hs' => ?_, fun s' hs' => ?_, fun s' hs' q hq => ?_⟩
    · obtain rfl := Option.some.inj hs'
      have hmono := PGROUNDUP_mono hle
      refine ⟨hlt.le, fun q hq => (hshows.guard q hq).trans_le hmono, fun q hq => ?_,
        fun q hq hq' => ?_⟩
      · -- a page of the new range is zero, and the others are as before
        have hq₁ := hfresh q
        by_cases hin : PGROUNDUP s.sz ≤ q
        · rw [if_pos ⟨hin, hq⟩] at hq₁
          obtain ⟨f, hf, -, hzero⟩ := hq₁
          refine ⟨_, hf, fun i _ => ?_⟩
          have hge : PGROUNDUP s.sz * PGSIZE ≤ q * PGSIZE := Nat.mul_le_mul_right _ hin
          show m'.pages f i = if _ then _ else _
          rw [hzero, if_pos (by omega)]
          rfl
        · rw [if_neg (by omega)] at hq₁
          obtain ⟨e, he, hbytes⟩ := hshows.mapped q (by omega)
          refine ⟨e, hq₁.trans he, fun i hi => ?_⟩
          have hone := (hb.own s rfl q e (hshows.lt (by omega)) he).2.1
          have hlt₁ : q * PGSIZE + PGSIZE ≤ PGROUNDUP s.sz * PGSIZE := by
            have hmul := Nat.mul_le_mul_right PGSIZE (show q + 1 ≤ PGROUNDUP s.sz by omega)
            rwa [Nat.add_one_mul] at hmul
          show _ = if _ then _ else _
          rw [if_neg (by omega), hg.pages _ (by omega), hbytes i hi]
      · have hq₁ := hfresh q
        rw [if_neg (by simp only [Space.grow_sz] at hq; omega)] at hq₁
        rw [hq₁]
        exact hshows.unmapped q (by simp only [Space.grow_sz] at hq; omega) hq'
    · obtain rfl := Option.some.inj hs'
      intro q e hq he
      have hq₁ := hfresh q
      by_cases hin : PGROUNDUP s.sz ≤ q ∧ q < PGROUNDUP newsz
      · rw [if_pos hin] at hq₁
        obtain ⟨f, hf, hone, -⟩ := hq₁
        obtain rfl := Option.some.inj (hf.symm.trans he)
        refine ⟨rfl, hone, fun _ hguard => ?_, fun _ => rfl⟩
        exact absurd (hshows.guard q hguard) (not_lt.mpr hin.1)
      · rw [if_neg hin] at hq₁
        have hown := hb.own s rfl q e hq (hq₁.symm.trans he)
        refine ⟨hown.1, ?_, hown.2.2⟩
        rw [hg.count _ (by omega)]
        exact hown.2.1
    · rw [← hb.kernel s rfl q hq]
      have hq₁ := hfresh q
      have hup := PGROUNDUP_le hlt.le
      rwa [if_neg (by omega)] at hq₁
  · -- the size is above `KERNBASE`, or there are no pages
    have hnone : s.alloc newsz = Option.none := by rw [Space.alloc, if_pos hle]
    rw [hnone]
    exact ⟨hsz, hc, hgrows, by simp, by simp, by simp⟩
  · -- the size is not larger than the old one
    have hsome : s.alloc newsz = some s := by
      rw [Space.alloc, if_neg (by omega), if_pos hlt]
    rw [hsome]
    refine ⟨hsz, hc, hgrows, fun s' hs' => ?_, fun s' hs' => ?_, ?_⟩
    · obtain rfl := Option.some.inj hs'
      rw [hd]
      refine ⟨hshows.le, hshows.guard, fun q hq => ?_, hshows.unmapped⟩
      obtain ⟨e, he, hbytes⟩ := hshows.mapped q hq
      have hone := (hb.own s rfl q e (hshows.lt hq) he).2.1
      exact ⟨e, he, fun i hi => by rw [hg.pages _ (by omega), hbytes i hi]⟩
    · obtain rfl := Option.some.inj hs'
      rw [hd]
      exact hb.own s rfl
    · rw [hd]
      exact hb.kernel

/-! ### copyout -/

omit [Layout] in
/-- The first page of the bytes is written first. -/
lemma Space.copyout_cons (s : Space) {a : ℕ} {bs : List UInt8} (hbs : bs ≠ []) :
    s.copyout a bs = if s.Accessible (a / PGSIZE) then
        (s.write a (bs.take (PGSIZE - a % PGSIZE))).copyout ((a / PGSIZE + 1) * PGSIZE)
          (bs.drop (PGSIZE - a % PGSIZE))
      else none := by
  have hpos := List.length_pos_iff.mpr hbs
  have hmod := Nat.mod_lt a (show 0 < PGSIZE by decide)
  have hdiv := Nat.div_add_mod a PGSIZE
  have hself : a / PGSIZE < (a + bs.length - 1) / PGSIZE + 1 :=
    Nat.lt_succ_of_le (Nat.div_le_div_right (by omega))
  by_cases hacc : s.Accessible (a / PGSIZE)
  · rw [if_pos hacc]
    have hwrite : (s.write a (bs.take (PGSIZE - a % PGSIZE))).write ((a / PGSIZE + 1) * PGSIZE)
        (bs.drop (PGSIZE - a % PGSIZE)) = s.write a bs := by
      rcases le_or_gt bs.length (PGSIZE - a % PGSIZE) with hle | hgt
      · rw [List.take_of_length_le hle, List.drop_of_length_le hle, Space.write_nil]
      · conv_rhs => rw [← List.take_append_drop (PGSIZE - a % PGSIZE) bs, Space.write_append]
        have hlen : a + (bs.take (PGSIZE - a % PGSIZE)).length = (a / PGSIZE + 1) * PGSIZE := by
          rw [List.length_take, min_eq_left hgt.le]
          simp only [PGSIZE] at hmod hdiv ⊢
          omega
        rw [hlen]
    have hiff : (bs = [] ∨ ∀ q < (a + bs.length - 1) / PGSIZE + 1, a / PGSIZE ≤ q →
          s.Accessible q) ↔
        (bs.drop (PGSIZE - a % PGSIZE) = [] ∨
          ∀ q < ((a / PGSIZE + 1) * PGSIZE + (bs.drop (PGSIZE - a % PGSIZE)).length - 1) / PGSIZE + 1,
            (a / PGSIZE + 1) * PGSIZE / PGSIZE ≤ q → s.Accessible q) := by
      rw [Nat.mul_div_cancel _ (show 0 < PGSIZE by decide), List.drop_eq_nil_iff, List.length_drop]
      rcases le_or_gt bs.length (PGSIZE - a % PGSIZE) with hle | hgt
      · refine iff_of_true (Or.inr fun q hq hq' => ?_) (Or.inl hle)
        have hlast : (a + bs.length - 1) / PGSIZE = a / PGSIZE := by
          simp only [PGSIZE] at hmod hdiv hle ⊢
          omega
        obtain rfl : q = a / PGSIZE := by omega
        exact hacc
      · have hlast : (a / PGSIZE + 1) * PGSIZE + (bs.length - (PGSIZE - a % PGSIZE)) - 1 =
            a + bs.length - 1 := by
          simp only [PGSIZE] at hmod hdiv hgt ⊢
          omega
        rw [hlast, or_iff_right hbs, or_iff_right (by omega)]
        refine ⟨fun h q hq hq' => h q hq (by omega), fun h q hq hq' => ?_⟩
        rcases eq_or_lt_of_le hq' with rfl | hlt
        · exact hacc
        · exact h q hq hlt
    rw [Space.copyout, Space.copyout, hwrite]
    exact if_congr hiff rfl rfl
  · rw [if_neg hacc, Space.copyout, if_neg]
    rintro (h | h)
    · exact hbs h
    · exact hacc (h _ hself le_rfl)

omit [Layout] in
/-- The pages that `uva2ka` finds. -/
lemma uva2ka_entry (v : ℕ) (hnull : d.entry v = none → E .nullDeref) :
    Wp (uva2ka d v) E (fun r m' => m' = m ∧
      r = ((d.entry v).filter Pte.u).map Pte.pfn) m := by
  unfold uva2ka
  cases hp : d.pde (PDX v) with
  | none => exact wp_throw (hnull (by rw [PageDir.entry, hp]; rfl))
  | some t =>
    cases he : d.entry v with
    | none => exact wp_pure ⟨rfl, rfl⟩
    | some e =>
      refine wp_ite (fun hu => wp_pure ⟨rfl, ?_⟩) fun hu => wp_pure ⟨rfl, ?_⟩
      · simp [Option.filter, hu]
      · simp [Option.filter, hu]

/-- A page is accessible when its entry says so. -/
lemma Built.accessible_iff (hb : Built R hr m₀ m d (some s)) (v : ℕ) :
    s.Accessible v ↔ ∃ e, d.entry v = some e ∧ e.u = true := by
  have hshows := hb.shows s rfl
  constructor
  · intro ⟨hv, hguard⟩
    obtain ⟨e, he, -⟩ := hshows.mapped v hv
    exact ⟨e, he, (hb.own s rfl v e (hshows.lt hv) he).2.2.mpr hguard⟩
  · intro ⟨e, he, hu⟩
    rcases lt_or_ge v NUPAGE with hv | hv
    · refine ⟨?_, (hb.own s rfl v e hv he).2.2.mp hu⟩
      by_contra hnot
      rw [hshows.unmapped v (not_lt.mp hnot) hv] at he
      exact absurd he (by simp)
    · rw [hb.kernel s rfl v hv, kernelEntry] at he
      obtain ⟨k, -, rfl⟩ := Option.map_eq_some_iff.mp he
      exact absurd hu (by simp [Kmap.pte])

/-- **`copyout`** does to the page directory what `copyout` does to the address space. -/
lemma copyout_built (n : ℕ) :
    ∀ (bs : List UInt8) (va : ℕ) (m : Mem Kmem) (s : Space), bs.length ≤ n →
      (s.copyout va bs = none → E .nullDeref) → Built R hr m₀ m d (some s) →
      Wp (copyout d va bs) E (fun ok m' => ok = (s.copyout va bs).isSome ∧
        Built R hr m₀ m' d (s.copyout va bs)) m := by
  have hnil : ∀ (va : ℕ) (m : Mem Kmem) (s : Space), Built R hr m₀ m d (some s) →
      Wp (copyout d va []) E (fun ok m' => ok = (s.copyout va []).isSome ∧
        Built R hr m₀ m' d (s.copyout va [])) m := by
    intro va m s hb
    have hsome : s.copyout va [] = some s := by
      rw [Space.copyout, if_pos (Or.inl rfl), Space.write_nil]
    rw [copyout, if_pos rfl, hsome]
    exact wp_pure ⟨rfl, hb⟩
  -- on a bound of the number of bytes, of which every round copies those of one page
  induction n with
  | zero =>
    intro bs va m s hlen _ hb
    obtain rfl := List.length_eq_zero_iff.mp (Nat.le_zero.mp hlen)
    exact hnil va m s hb
  | succ n ih =>
    intro bs va m s hlen hnull hb
    by_cases hbs : bs = []
    · subst hbs
      exact hnil va m s hb
    rw [copyout, if_neg hbs]
    rw [Space.copyout_cons s hbs] at hnull ⊢
    have hmiss : d.entry (va / PGSIZE) = none → E .nullDeref := by
      intro hnone
      have hacc : ¬s.Accessible (va / PGSIZE) := by
        intro h
        obtain ⟨e, he, -⟩ := (hb.accessible_iff _).mp h
        rw [hnone] at he
        exact absurd he (by simp)
      exact hnull (if_neg hacc)
    refine (uva2ka_entry _ hmiss).bind fun r m' hr' => ?_
    obtain ⟨rfl, rfl⟩ := hr'
    by_cases hacc : s.Accessible (va / PGSIZE)
    · obtain ⟨e, he, hu⟩ := (hb.accessible_iff _).mp hacc
      have hmod := Nat.mod_lt va (show 0 < PGSIZE by decide)
      have hdiv : va / PGSIZE * PGSIZE + va % PGSIZE = va := Nat.div_add_mod' va PGSIZE
      have hpfn : ((d.entry (va / PGSIZE)).filter Pte.u).map Pte.pfn = some e.pfn := by
        simp [he, Option.filter, hu]
      rw [if_pos hacc] at hnull ⊢
      rw [hpfn]
      refine wp_bind (wp_getPage (wp_bind (wp_setPage ?_)))
      -- the next page does not wrap around
      have hlt : (va / PGSIZE + 1) * PGSIZE < 2 ^ 32 := by
        have hup := (hb.shows s rfl).lt hacc.1
        simp only [NUPAGE, KERNBASE, PGSIZE] at hup ⊢
        omega
      rw [Nat.mod_eq_of_lt hlt]
      have hle := List.length_take_le (PGSIZE - va % PGSIZE) bs
      have hwrite := hb.write hacc.1 he (va % PGSIZE) (bs.take (PGSIZE - va % PGSIZE)) (by omega)
      rw [hdiv] at hwrite
      refine ih _ _ _ _ ?_ hnull hwrite
      have hpos := List.length_pos_iff.mpr hbs
      rw [List.length_drop]
      omega
    · have hpfn : ((d.entry (va / PGSIZE)).filter Pte.u).map Pte.pfn = none := by
        rw [Option.map_eq_none_iff, Option.filter_eq_none_iff]
        exact fun e he hu => hacc ((hb.accessible_iff _).mpr ⟨e, he, hu⟩)
      rw [if_neg hacc, hpfn]
      exact wp_pure ⟨rfl, hb.none⟩

/-- **The arguments** are pushed to the page directory as to the address space. -/
lemma pushArgs_built (args : List (List UInt8)) :
    ∀ (sp : ℕ) (us : List ℕ) (m : Mem Kmem) (s : Space),
      (s.pushArgs args sp us = none → E .nullDeref) → Built R hr m₀ m d (some s) →
      Wp (pushArgs d args sp us) E (fun r m' => r = (s.pushArgs args sp us).map Prod.snd ∧
        Built R hr m₀ m' d ((s.pushArgs args sp us).map Prod.fst)) m := by
  induction args with
  | nil => exact fun sp us m s _ hb => wp_pure ⟨rfl, hb⟩
  | cons arg args ih =>
    intro sp us m s hnull hb
    unfold pushArgs
    unfold Space.pushArgs at hnull ⊢
    refine wp_ite (fun hmax => ?_) fun hmax => ?_
    · rw [if_pos hmax]
      exact wp_pure ⟨rfl, hb.none⟩
    · rw [if_neg hmax] at hnull ⊢
      dsimp only at hnull ⊢
      refine (copyout_built _ _ _ m s le_rfl (fun h => hnull (by rw [h, Option.bind_none])) hb).bind
        fun ok m' h => ?_
      obtain ⟨rfl, hb'⟩ := h
      generalize s.copyout _ _ = o at hb' hnull ⊢
      cases o with
      | none => exact wp_pure ⟨rfl, hb'⟩
      | some s' => exact ih _ _ m' s' hnull hb'

/-! ### The segments -/

omit [Layout] in
/-- The first page of a segment is read first. -/
lemma Space.loadSegment_cons (s : Space) (file : List UInt8) (a off : ℕ) {n : ℕ} (hn : 0 < n) :
    s.loadSegment file a off n = if readable file off (min n PGSIZE) then
        (s.write a ((file.drop off).take (min n PGSIZE))).loadSegment file (a + PGSIZE)
          (off + PGSIZE) (n - PGSIZE)
      else none := by
  rcases le_or_gt n PGSIZE with hle | hgt
  · have hzero : n - PGSIZE = 0 := by omega
    rw [min_eq_left hle, hzero, Space.loadSegment, Space.loadSegment]
    simp only [hn.ne', false_or, true_or, if_true, List.take_zero, Space.write_nil]
  · have hsub : 0 < n - PGSIZE := by omega
    have hiff : readable file off n = true ↔
        readable file off PGSIZE = true ∧ readable file (off + PGSIZE) (n - PGSIZE) = true := by
      simp only [readable, decide_eq_true_eq]
      omega
    rw [min_eq_right hgt.le, Space.loadSegment, Space.loadSegment]
    simp only [hn.ne', hsub.ne', false_or]
    by_cases hfirst : readable file off PGSIZE = true
    · have hlen : ((file.drop off).take PGSIZE).length = PGSIZE := by
        simp only [readable, decide_eq_true_eq] at hfirst
        rw [List.length_take, List.length_drop]
        omega
      have hsplit : (file.drop off).take n =
          (file.drop off).take PGSIZE ++ (file.drop (off + PGSIZE)).take (n - PGSIZE) := by
        rw [← List.drop_drop, ← List.take_add, Nat.add_sub_cancel' hgt.le]
      have hwrite : s.write a ((file.drop off).take n) =
          (s.write a ((file.drop off).take PGSIZE)).write (a + PGSIZE)
            ((file.drop (off + PGSIZE)).take (n - PGSIZE)) := by
        rw [hsplit, Space.write_append, hlen]
      rw [if_pos hfirst, hwrite]
      exact if_congr (by rw [hiff, and_iff_right hfirst]) rfl rfl
    · rw [if_neg hfirst, if_neg]
      exact fun h => hfirst (hiff.mp h).1

lemma loadLoop_built (file : List UInt8) (n : ℕ) (k : ℕ) :
    ∀ (v off i : ℕ) (m : Mem Kmem) (s : Space), k = PGROUNDUP (n - i) →
      v + k ≤ PGROUNDUP s.sz → Built R hr m₀ m d (some s) →
      Wp (loadLoop d file v off n i k) E (fun ok m' =>
        ok = (s.loadSegment file (v * PGSIZE) (off + i) (n - i)).isSome ∧
        Built R hr m₀ m' d (s.loadSegment file (v * PGSIZE) (off + i) (n - i))) m := by
  induction k with
  | zero =>
    intro v off i m s hk _ hb
    have hzero : n - i = 0 := by
      simp only [PGROUNDUP, PGSIZE] at hk
      omega
    have hsome : s.loadSegment file (v * PGSIZE) (off + i) 0 = some s := by
      rw [Space.loadSegment, if_pos (Or.inl rfl), List.take_zero, Space.write_nil]
    rw [hzero, hsome]
    exact wp_pure ⟨rfl, hb⟩
  | succ k ih =>
    intro v off i m s hk hv hb
    have hpos : 0 < n - i := by
      simp only [PGROUNDUP, PGSIZE] at hk
      omega
    have hq : v < PGROUNDUP s.sz := by omega
    obtain ⟨e, he, -⟩ := (hb.shows s rfl).mapped v hq
    have hpde : ∃ t, d.pde (PDX v) = some t := by
      have htable := d.table_isSome_of_entry he
      rwa [PageDir.table, Option.isSome_map, Option.isSome_iff_exists] at htable
    obtain ⟨t, ht⟩ := hpde
    have hpfn : ((d.entry v).map Pte.pfn).getD 0 = e.pfn := by rw [he]; rfl
    rw [Space.loadSegment_cons s file _ _ hpos]
    unfold loadLoop
    simp only [ht, hpfn]
    refine wp_ite (fun hread => ?_) fun hread => ?_
    · rw [if_pos hread]
      refine wp_bind (wp_getPage (wp_bind (wp_setPage ?_)))
      have hle := List.length_take_le (min (n - i) PGSIZE) (file.drop (off + i))
      have hwrite := hb.write hq he 0 ((file.drop (off + i)).take (min (n - i) PGSIZE)) (by omega)
      have hnext := ih (v + 1) off (i + PGSIZE) _ _ (by
        simp only [PGROUNDUP, PGSIZE] at hk ⊢
        omega) (by simp only [Space.write_sz]; omega) hwrite
      have hsub : n - (i + PGSIZE) = n - i - PGSIZE := by omega
      rwa [Nat.add_zero (v * PGSIZE), hsub, Nat.add_one_mul, ← Nat.add_assoc] at hnext
    · rw [if_neg hread]
      exact wp_pure ⟨rfl, hb.none⟩

omit [Layout] in
lemma Space.le_of_alloc {n : ℕ} {s' : Space} (h : s.alloc n = some s') :
    n ≤ s'.sz ∧ s'.sz ≠ 0 ∧ s'.guard = s.guard := by
  unfold Space.alloc at h
  split_ifs at h with h₁ h₂ h₃
  · obtain rfl := Option.some.inj h
    exact ⟨h₂.le, by omega, rfl⟩
  · obtain rfl := Option.some.inj h
    exact ⟨le_rfl, h₃, rfl⟩

omit [Layout] in
lemma Space.loadSegment_eq {file : List UInt8} {a off n : ℕ} {s' : Space}
    (h : s.loadSegment file a off n = some s') : s'.guard = s.guard := by
  unfold Space.loadSegment at h
  split_ifs at h
  obtain rfl := Option.some.inj h
  rfl

/-- **The segments** of a program are loaded to the page directory as to the address
space. -/
lemma loadSegments_built (hR : ∀ f ∈ R, Kmem.Usable f) (file : List UInt8)
    (phs : List (Option ProgHdr)) :
    ∀ (d : PageDir) (m : Mem Kmem) (s : Space), s.guard = none → Built R hr m₀ m d (some s) →
      Wp (loadSegments file d s.sz phs) NoPage (fun r m' =>
        r.1 = (s.load file phs).map Space.sz ∧ Built R hr m₀ m' r.2 (s.load file phs) ∧
        ∀ s', s.load file phs = some s' → s'.guard = none) m := by
  induction phs with
  | nil =>
    intro d m s hguard hb
    refine wp_pure ⟨rfl, hb, fun s' hs' => ?_⟩
    obtain rfl := Option.some.inj hs'
    exact hguard
  | cons ph phs ih =>
    intro d m s hguard hb
    cases ph with
    | none => exact wp_pure ⟨rfl, hb.none, by simp [Space.load]⟩
    | some ph =>
      unfold loadSegments Space.load
      -- a header of another type is skipped
      refine wp_ite (fun hload => ?_) fun hload => ?_
      · rw [if_pos hload]
        exact ih d m s hguard hb
      rw [if_neg hload]
      -- the checks of the header, in the order of the source
      refine wp_ite (fun hsize => ?_) fun hsize => ?_
      · rw [if_pos (Or.inl hsize)]
        exact wp_pure ⟨rfl, hb.none, by simp⟩
      refine wp_ite (fun hover => ?_) fun hover => ?_
      · rw [if_pos (Or.inr hover)]
        exact wp_pure ⟨rfl, hb.none, by simp⟩
      rw [if_neg (not_or.mpr ⟨hsize, hover⟩)]
      refine (allocuvm_built hR hb _).bind fun r m' hr' => ?_
      obtain ⟨sz, d'⟩ := r
      obtain ⟨rfl, hb'⟩ := hr'
      cases halloc : s.alloc (ph.vaddr + ph.memsz) with
      | none =>
        rw [halloc] at hb'
        exact wp_ite (fun _ => wp_pure ⟨rfl, hb', by simp⟩) fun h => absurd rfl h
      | some s' =>
        rw [halloc] at hb'
        obtain ⟨hle, hne, hguard'⟩ := Space.le_of_alloc halloc
        refine wp_ite (fun h => absurd h hne) fun _ => ?_
        refine wp_ite (fun halign => ?_) fun halign => ?_
        · have hnone : (do
              let s ← some s'
              if ph.vaddr % PGSIZE ≠ 0 then none
              else
                let s ← s.loadSegment file ph.vaddr ph.off ph.filesz
                Space.load file s phs) = none := if_pos halign
          rw [hnone]
          exact wp_pure ⟨rfl, hb'.none, by simp⟩
        have hsome : (do
            let s ← some s'
            if ph.vaddr % PGSIZE ≠ 0 then none
            else
              let s ← s.loadSegment file ph.vaddr ph.off ph.filesz
              Space.load file s phs) =
            (s'.loadSegment file ph.vaddr ph.off ph.filesz).bind fun s => s.load file phs :=
          if_neg halign
        rw [hsome]
        have hdiv : ph.vaddr / PGSIZE * PGSIZE = ph.vaddr :=
          Nat.div_mul_cancel (Nat.dvd_of_mod_eq_zero (not_not.mp halign))
        -- the bytes of the file lie below the size that `allocuvm` has reached
        have hfit : ph.vaddr / PGSIZE + PGROUNDUP ph.filesz ≤ PGROUNDUP s'.sz := by
          simp only [PGROUNDUP, PGSIZE] at hdiv ⊢
          omega
        refine (loadLoop_built file ph.filesz _ _ ph.off 0 m' s' (by rw [Nat.sub_zero]) hfit hb').bind
          fun ok m'' h => ?_
        rw [hdiv, Nat.add_zero, Nat.sub_zero] at h
        obtain ⟨rfl, hb''⟩ := h
        cases hseg : s'.loadSegment file ph.vaddr ph.off ph.filesz with
        | none =>
          rw [hseg] at hb''
          exact wp_pure ⟨rfl, hb'', by simp⟩
        | some s'' =>
          rw [hseg] at hb''
          have hsz : s''.sz = s'.sz := by
            unfold Space.loadSegment at hseg
            split_ifs at hseg
            obtain rfl := Option.some.inj hseg
            rfl
          have hnext := ih d' m'' s'' (by rw [Space.loadSegment_eq hseg, hguard', hguard]) hb''
          rw [hsz] at hnext
          exact hnext

/-! ### The stack -/

/-- **`clearpteu`** makes the guard page. -/
lemma clearpteu_built (hb : Built R hr m₀ m d (some s)) (hguard : s.guard = none) {v : ℕ}
    (hv : v < PGROUNDUP s.sz) :
    Wp (clearpteu d v) E (fun d' m' => Built R hr m₀ m' d' (some { s with guard := some v })) m := by
  have hshows := hb.shows s rfl
  obtain ⟨e, he, hbytes⟩ := hshows.mapped v hv
  have htable := d.table_isSome_of_entry he
  obtain ⟨t, ht⟩ : ∃ t, d.pde (PDX v) = some t := by
    rwa [PageDir.table, Option.isSome_map, Option.isSome_iff_exists] at htable
  have hset := PageDir.setEntry_entry d htable (some { e with u := false })
  have hself : (d.setEntry v (some { e with u := false })).entry v = some { e with u := false } := by
    rw [hset, Function.update_self]
  have hother : ∀ q, q ≠ v → (d.setEntry v (some { e with u := false })).entry q = d.entry q :=
    fun q hq => by rw [hset, Function.update_of_ne hq]
  have hholds : holds (d.setEntry v (some { e with u := false })) = holds d := by
    have hupd := userHolds_update (hshows.lt hv) hset
    rw [he] at hupd
    rw [holds, holds, dirHolds_setEntry, add_right_cancel hupd]
  unfold clearpteu
  simp only [ht, he, Option.map_some]
  refine wp_pure ⟨by rw [hholds]; exact hb.counts, by rw [hholds]; exact hb.grows,
    fun s' hs' => ?_, fun s' hs' => ?_, fun s' _ q hq => ?_⟩
  · obtain rfl := Option.some.inj hs'
    refine ⟨hshows.le, fun q hq => ?_, fun q hq => ?_, fun q hq hq' => ?_⟩
    · obtain rfl := Option.some.inj hq
      exact hv
    · rcases eq_or_ne q v with rfl | hne
      · exact ⟨_, hself, hbytes⟩
      · obtain ⟨e', he', hbytes'⟩ := hshows.mapped q hq
        exact ⟨e', (hother q hne).trans he', hbytes'⟩
    · have hne : q ≠ v := by
        rintro rfl
        exact absurd hv (not_lt.mpr hq)
      rw [hother q hne]
      exact hshows.unmapped q hq hq'
  · obtain rfl := Option.some.inj hs'
    intro q e' hq he'
    rw [hholds]
    rcases eq_or_ne q v with rfl | hne
    · obtain rfl := Option.some.inj (hself.symm.trans he')
      have hown := hb.own s rfl q e hq he
      exact ⟨hown.1, hown.2.1, by simp⟩
    · have hown := hb.own s rfl q e' hq ((hother q hne).symm.trans he')
      refine ⟨hown.1, hown.2.1, hown.2.2.trans ?_⟩
      rw [hguard]
      simp [hne.symm]
  · have hne : q ≠ v := by
      rintro rfl
      exact absurd (hshows.lt hv) (not_lt.mpr hq)
    rw [hother q hne]
    exact hb.kernel s rfl q hq

/-- The size is rounded up. -/
lemma Built.roundup (hb : Built R hr m₀ m d (some s)) :
    Built R hr m₀ m d (some { s with sz := PGROUNDUP s.sz * PGSIZE }) := by
  have hshows := hb.shows s rfl
  have hup : PGROUNDUP (PGROUNDUP s.sz * PGSIZE) = PGROUNDUP s.sz := PGROUNDUP_mul _
  refine ⟨hb.counts, hb.grows, fun s' hs' => ?_, fun s' hs' => ?_, fun s' _ => hb.kernel s rfl⟩
  · obtain rfl := Option.some.inj hs'
    refine ⟨?_, fun q hq => ?_, fun q hq => ?_, fun q hq hq' => ?_⟩
    · have hle := PGROUNDUP_le hshows.le
      simp only [NUPAGE, KERNBASE, PGSIZE] at hle ⊢
      omega
    · rw [hup]
      exact hshows.guard q hq
    · rw [hup] at hq
      exact hshows.mapped q hq
    · rw [hup] at hq
      exact hshows.unmapped q hq hq'
  · obtain rfl := Option.some.inj hs'
    exact hb.own s rfl

omit [Layout] in
lemma Space.copyout_eq {a : ℕ} {bs : List UInt8} {s' : Space} (h : s.copyout a bs = some s') :
    s' = s.write a bs := by
  unfold Space.copyout at h
  split_ifs at h
  exact (Option.some.inj h).symm

omit [Layout] in
/-- The arguments change bytes only. -/
lemma Space.pushArgs_frame (args : List (List UInt8)) :
    ∀ {s : Space} {sp : ℕ} {us : List ℕ} {s' : Space} {r : ℕ × List ℕ},
      s.pushArgs args sp us = some (s', r) → s'.sz = s.sz ∧ s'.guard = s.guard := by
  induction args with
  | nil =>
    intro s sp us s' r h
    obtain ⟨rfl, -⟩ := Prod.mk.inj (Option.some.inj h)
    exact ⟨rfl, rfl⟩
  | cons arg args ih =>
    intro s sp us s' r h
    unfold Space.pushArgs at h
    split_ifs at h
    obtain ⟨s₁, hs₁, h⟩ := Option.bind_eq_some_iff.mp h
    have hw := Space.copyout_eq hs₁
    obtain ⟨hsz, hguard⟩ := ih h
    rw [hsz, hguard, hw, Space.write_sz, Space.write_guard]
    exact ⟨rfl, rfl⟩

omit [Layout] in
/-- The size after the stack was added. -/
lemma Space.sz_of_alloc_stack {s₂ : Space} (h : s.alloc (s.sz + 2 * PGSIZE) = some s₂) :
    s₂.sz = s.sz + 2 * PGSIZE := by
  unfold Space.alloc at h
  split_ifs at h with h₁ h₂
  · simp only [PGSIZE] at h₂
    omega
  · obtain rfl := Option.some.inj h
    rfl

omit [Layout] in
/-- A program that was loaded has a guard page. -/
lemma Space.guard_of_image {elf : Elf} {argv : List (List UInt8)}
    (h : Space.image elf argv = some s) : ∃ g, s.guard = some g := by
  obtain ⟨s₁, -, hstack⟩ := Option.bind_eq_some_iff.mp h
  unfold Space.stack at hstack
  obtain ⟨s₂, -, hstack⟩ := Option.bind_eq_some_iff.mp hstack
  obtain ⟨⟨s₃, sp, us⟩, hargs, hout⟩ := Option.bind_eq_some_iff.mp hstack
  have hguard := (Space.pushArgs_frame argv hargs).2
  dsimp only at hout
  rw [Space.copyout_eq hout, Space.write_guard]
  exact ⟨_, hguard⟩

/-- **The stack** is built in the page directory as in the address space. -/
lemma buildStack_built (hR : ∀ f ∈ R, Kmem.Usable f) (hE : ∀ e, NoPage e → E e)
    (argv : List (List UInt8)) (hnull : s.stack argv = none → E .nullDeref) (hguard : s.guard = none)
    (hb : Built R hr m₀ m d (some s)) :
    Wp (buildStack d s.sz argv) E (fun r m' => r.1 = (s.stack argv).map Space.sz ∧
      Built R hr m₀ m' r.2 (s.stack argv)) m := by
  unfold buildStack Space.stack
  refine ((allocuvm_built hR hb _).mono (fun _ _ h => h) hE).bind fun r m₂ hr₂ => ?_
  obtain ⟨sz₂, d₂⟩ := r
  obtain ⟨hsz₂, hb₂⟩ := hr₂
  dsimp only at hsz₂ hb₂ ⊢
  cases halloc : s.alloc (s.sz + 2 * PGSIZE) with
  | none =>
    rw [halloc] at hsz₂ hb₂
    exact wp_ite (fun _ => wp_pure ⟨rfl, hb₂⟩) fun h => absurd hsz₂ h
  | some s₂ =>
    rw [halloc] at hsz₂ hb₂
    obtain rfl : sz₂ = s₂.sz := hsz₂
    obtain ⟨hle, hne, hguard₂⟩ := Space.le_of_alloc halloc
    have hlen := Space.sz_of_alloc_stack halloc
    refine wp_ite (fun h => absurd h hne) fun _ => ?_
    -- the guard page is the first of the two new pages
    have htop : (s₂.sz - 2 * PGSIZE) / PGSIZE = s.sz / PGSIZE := by
      rw [hlen, Nat.add_sub_cancel]
    have hin : s.sz / PGSIZE < PGROUNDUP s₂.sz := by
      rw [hlen]
      simp only [PGROUNDUP, PGSIZE]
      omega
    rw [htop]
    refine (clearpteu_built hb₂ (hguard₂.trans hguard) hin).bind fun d₃ m₃ hb₃ => ?_
    have hnull' : (({ s₂ with guard := some (s.sz / PGSIZE) } : Space).pushArgs argv s₂.sz []).bind
        (fun x => x.1.copyout (subSp x.2.1 ((3 + x.2.2.length + 1) * 4))
          (ustackBytes x.2.1 x.2.2)) = none → E .nullDeref := by
      intro h
      refine hnull ?_
      rw [Space.stack, halloc, Option.bind_some]
      exact h
    refine (pushArgs_built argv _ [] m₃ _ (fun h => hnull' (by rw [h, Option.bind_none])) hb₃).bind
      fun r m₄ hr₄ => ?_
    obtain ⟨rfl, hb₄⟩ := hr₄
    dsimp only [Option.bind_some]
    generalize hargs : Space.pushArgs _ argv _ [] = o at hb₄ hnull' ⊢
    cases o with
    | none => exact wp_pure ⟨rfl, hb₄⟩
    | some t =>
      obtain ⟨s₄, sp, us⟩ := t
      have hsz₄ := (Space.pushArgs_frame argv hargs).1
      have hb₄ : Built R hr m₀ m₄ d₃ (some s₄) := hb₄
      rw [Option.bind_some] at hnull' ⊢
      have hout := copyout_built _ (ustackBytes sp us) (subSp sp ((3 + us.length + 1) * 4)) m₄ s₄
        le_rfl hnull' hb₄
      refine hout.bind fun ok m₅ h => ?_
      obtain ⟨rfl, hb₅⟩ := h
      dsimp only
      cases hout : s₄.copyout (subSp sp ((3 + us.length + 1) * 4)) (ustackBytes sp us) with
      | none =>
        rw [hout] at hb₅
        exact wp_pure ⟨rfl, hb₅⟩
      | some s₅ =>
        rw [hout] at hb₅
        refine wp_pure ⟨?_, hb₅⟩
        show some s₂.sz = some s₅.sz
        rw [Space.copyout_eq hout, Space.write_sz, hsz₄]

/-- **The image** that `exec` builds is the image of the program. -/
lemma buildImage_built (hR : ∀ f ∈ R, Kmem.Usable f) (hE : ∀ e, NoPage e → E e)
    (elf : Elf) (argv : List (List UInt8)) (hnull : Space.image elf argv = none → E .nullDeref)
    (hentry : d.entry = kernelEntry kmap) (hc : m.alloc.Counts R (hr + dirHolds d))
    (hg : Grows hr (hr + dirHolds d) m₀ m) :
    Wp (buildImage d elf argv) E (fun r m' => r.1 = (Space.image elf argv).map Space.sz ∧
      Built R hr m₀ m' r.2 (Space.image elf argv)) m := by
  have huser : ∀ q, q < NUPAGE → d.entry q = none := fun q hq => by
    rw [hentry]
    exact kernelEntry_user hq
  have hholds : holds d = dirHolds d := by rw [holds, userHolds_eq_zero huser, add_zero]
  rw [← hholds] at hc hg
  have hstart : Built R hr m₀ m d (some Space.empty) := by
    refine ⟨hc, hg, fun s' hs' => ?_, fun s' hs' => ?_, fun s' _ q _ => by rw [hentry]⟩
    · obtain rfl := Option.some.inj hs'
      exact ⟨Nat.zero_le _, by simp [Space.empty], fun q hq => absurd hq (by simp [Space.empty, PGROUNDUP, PGSIZE]),
        fun q _ => huser q⟩
    · intro q e hq he
      rw [huser q hq] at he
      exact absurd he (by simp)
  unfold buildImage Space.image
  refine ((loadSegments_built hR elf.bytes elf.phs d m Space.empty rfl hstart).mono
    (fun _ _ h => h) hE).bind fun r m₁ hr₁ => ?_
  obtain ⟨o, d₁⟩ := r
  obtain ⟨rfl, hb₁, hguard₁⟩ := hr₁
  cases hload : Space.empty.load elf.bytes elf.phs with
  | none =>
    rw [hload] at hb₁
    exact wp_pure ⟨rfl, hb₁⟩
  | some s₁ =>
    rw [hload] at hb₁
    dsimp only [Option.map_some, Option.bind_some]
    have hguard : ({ s₁ with sz := PGROUNDUP s₁.sz * PGSIZE } : Space).guard = none :=
      hguard₁ s₁ hload
    have hnull' : ({ s₁ with sz := PGROUNDUP s₁.sz * PGSIZE } : Space).stack argv = none →
        E .nullDeref := by
      intro h
      refine hnull ?_
      rw [Space.image, hload, Option.bind_some]
      exact h
    have hstack := buildStack_built hR hE argv hnull' hguard hb₁.roundup
    exact hstack

end Xv6Projects.Cow
