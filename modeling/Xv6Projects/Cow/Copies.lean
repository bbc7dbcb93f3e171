import Xv6Projects.Library.CopyOnWrite
import Xv6Projects.Cow.Faults
import Xv6Projects.Cow.UserPages

/-!
# The copies of a shared page

The processes that map one page share it as a group shares a value: a process that writes for the
first time takes a free page for a copy, unless no other process maps the original any more.  The
system is seen here from one page, while the processes that map it write to it, exit, and are
reaped, in any order.
-/

namespace Xv6Projects.Cow

open Library Vm Finset

/-- The processes that map frame `f` at page `v`. -/
def mappers (k : Kernel) (v f : ℕ) : Finset Slot :=
  univ.filter fun i => (k.pte i v).map Pte.pfn = some f

/-- A run, seen from a page that a group of processes shares. -/
structure SharedRun where
  kernel : Kernel
  /-- The processes of the group that have not been reaped. -/
  members : Finset Slot
  /-- Those that have written to the page, the last first write in front. -/
  writers : List Slot
  /-- The free pages that the writes have taken. -/
  copies : ℕ

/-- The member of `L` that writes to page `v`. -/
def writer (v : ℕ) (L : Finset Slot) : Op → Option Slot
  | .access c va _ (.store _) (_ + 1) => if va / PGSIZE = v ∧ c ∈ L then some c else none
  | _ => none

/-- The members of `L` do not fork, and keep their address spaces; they write to page `v`, and read
from it what they may. -/
def Settled (v : ℕ) (k : Kernel) (L : Finset Slot) : Op → Prop
  | .fork c | .exec c _ _ | .sbrk c _ => c ∉ L
  | .access c va user a n => c ∈ L → va / PGSIZE = v →
      match a with
      | .load => ∀ e, k.pte c v = some e → Pte.allows e user .load = true
      | .store _ => 0 < n
  | _ => True

variable [Layout] {R : Set ℕ} {k k' k'' : Kernel} {c i j : Slot} {v f : ℕ} {e e' : Pte}

/-- One operation of the run. -/
structure ShareStep (v : ℕ) (s : SharedRun) (op : Op) (s' : SharedRun) : Prop where
  step : Step s.kernel op s'.kernel
  faults : FaultOk s.kernel op
  settled : Settled v s.kernel s.members op
  members : s'.members = s.members.filter fun i => (s'.kernel.proc i).state ≠ .unused
  writers : s'.writers = (writer v s.members op).elim s.writers fun c =>
    if c ∈ s.writers then s.writers else c :: s.writers
  copies : s'.copies = (writer v s.members op).elim s.copies fun _ =>
    s.copies + (s.kernel.mem.alloc.countfp - s'.kernel.mem.alloc.countfp)

/-! ### The processes that map a page -/

omit [Layout] in
lemma mem_mappers : i ∈ mappers k v f ↔ (k.pte i v).map Pte.pfn = some f := by
  rw [mappers, mem_filter]
  exact and_iff_right (mem_univ i)

omit [Layout] in
lemma userPte_iff : k.UserPte i v e ↔ v < NUPAGE ∧ k.pte i v = some e := by
  rw [Kernel.UserPte, Kernel.pte, Option.bind_eq_some_iff]

omit [Layout] in
/-- The processes that map a page are its holders. -/
lemma UserPages.holders_eq_card (hu : UserPages k) (hv : v < NUPAGE)
    (hne : (mappers k v f).Nonempty) : k.holders f = (mappers k v f).card := by
  obtain ⟨j, hj⟩ := hne
  obtain ⟨e, he, rfl⟩ := Option.map_eq_some_iff.mp (mem_mappers.mp hj)
  have hj := userPte_iff.mpr ⟨hv, he⟩
  rw [hu.only _ (Kernel.userHolds_pos_iff.mpr ⟨j, v, e, hj, rfl⟩), k.userHolds_apply, mappers,
    card_filter]
  refine sum_congr rfl fun i _ => ?_
  have hle := hu.proc_userHolds_le_one i e.pfn
  split_ifs with hi
  · obtain ⟨e', he', hpfn⟩ := Option.map_eq_some_iff.mp hi
    have hpos := proc_userHolds_pos_iff.mpr ⟨v, e', userPte_iff.mpr ⟨hv, he'⟩, hpfn⟩
    omega
  · -- an entry for the frame would be for this page
    by_contra hne
    obtain ⟨q, e', hq, hpfn⟩ := proc_userHolds_pos_iff.mp (Nat.pos_of_ne_zero hne)
    obtain rfl := hu.aligned i j q v e' e hq hj hpfn
    rw [(userPte_iff.mp hq).2, Option.map_some, hpfn] at hi
    exact hi rfl

/-! ### A write -/

/-- The processes, the page tables and the counters are the same. -/
structure Still (k k' : Kernel) : Prop where
  state : ∀ i, (k'.proc i).state = (k.proc i).state
  pte : ∀ i q, k'.pte i q = k.pte i q
  alloc : k'.mem.alloc = k.mem.alloc

omit [Layout] in
lemma Still.refl (k : Kernel) : Still k k := ⟨fun _ => rfl, fun _ _ => rfl, rfl⟩

omit [Layout] in
lemma Still.trans (h : Still k k') (h' : Still k' k'') : Still k k'' :=
  ⟨fun i => (h'.state i).trans (h.state i), fun i q => (h'.pte i q).trans (h.pte i q),
    h'.alloc.trans h.alloc⟩

/-- What a write of process `c` to page `v` with entry `e` does: a page without other holders
becomes writable, and any other page is copied to a free one. -/
structure Written (k k' : Kernel) (c : Slot) (v : ℕ) (e : Pte) : Prop where
  state : ∀ i, (k'.proc i).state = (k.proc i).state
  other : ∀ i q, (i = c → q ≠ v) → k'.pte i q = k.pte i q
  page : (k.holders e.pfn = 1 ∧ k'.pte c v = some { e with w := true } ∧
      k'.mem.alloc.countfp = k.mem.alloc.countfp) ∨
    (1 < k.holders e.pfn ∧ k'.mem.alloc.countfp + 1 = k.mem.alloc.countfp ∧
      ∃ g, k.holders g = 0 ∧ k'.pte c v = some ⟨g, true, true⟩)

omit [Layout] in
lemma Written.still (h : Written k k' c v e) (h' : Still k' k'') : Written k k'' c v e := by
  refine ⟨fun i => (h'.state i).trans (h.state i), fun i q hq => (h'.pte i q).trans (h.other i q hq),
    ?_⟩
  rw [h'.pte, h'.alloc]
  exact h.page

omit [Layout] in
lemma setSpace_state (m : Mem Kmem) (d : PageDir) (sz : ℕ) (i : Slot) :
    ((k.setSpace c m d sz).proc i).state = (k.proc i).state := by
  rcases eq_or_ne i c with rfl | hi
  · rw [setSpace_proc]
  · rw [setSpace_other hi]

/-- Writes to a page that has no other holder and may be written. -/
lemma access_private {va : ℕ} {user : Bool} {b : UInt8} (hw : e.w = true) (hlt : e.pfn < NPAGE)
    (n : ℕ) : ∀ k : Kernel, k.pte c (va / PGSIZE) = some e → k.mem.alloc.pgRef e.pfn = 1 →
      ∃ r k', access c va user (.store b) n k = .ok (r, k') ∧ Still k k' ∧
        (0 < n → user = false ∨ e.u = true → r = some b) := by
  induction n with
  | zero => exact fun k _ _ => ⟨none, k, rfl, .refl k, fun h => absurd h (lt_irrefl 0)⟩
  | succ n ih =>
    intro k hpte hone
    obtain ⟨d, hd, he⟩ := Option.bind_eq_some_iff.mp hpte
    by_cases hallow : Pte.allows e user (.store b) = true
    · exact ⟨_, _, access_store hd he hallow n, ⟨fun _ => rfl, fun _ _ => rfl, rfl⟩, fun _ _ => rfl⟩
    · -- user code may not access the page, and the handler changes nothing
      have hdeny : ∀ e', d.entry (va / PGSIZE) = some e' → Pte.allows e' user (.store b) = false :=
        fun e' he' => by
          obtain rfl := Option.some.inj (he.symm.trans he')
          simpa using hallow
      have hfault := fault_ok hd (cowHandler_one he hlt hone)
      have hstill : Still k (k.setSpace c k.mem
          (d.setEntry (va / PGSIZE) (some { e with w := true })) (k.proc c).sz) := by
        refine ⟨setSpace_state _ _ _, fun i q => ?_, rfl⟩
        rw [pte_setEntry hd he]
        split_ifs with hiq
        · rw [hiq.1, hiq.2, hpte, ← hw]
        · rfl
      obtain ⟨r, k', hr, hstill', -⟩ := ih _ ((hstill.pte c _).trans hpte)
        (by rw [hstill.alloc]; exact hone)
      refine ⟨r, k', ?_, hstill.trans hstill', fun _ hu => ?_⟩
      · rw [access_retry hd hdeny, bind_ok hfault]
        exact hr
      · rw [Pte.allows, hw, Bool.and_true] at hallow
        rcases hu with rfl | hu
        · exact absurd rfl hallow
        · rw [hu, Bool.or_true] at hallow
          exact absurd rfl hallow

/-- **A write to a user page** makes the page writable, or copies it, and is performed if user code
may access the page and there is a second attempt; or it needs a page, and there is none. -/
lemma write_outcome (hR : ∀ f ∈ R, Kmem.Usable f) (h : Inv R k) (hu : UserPages k) {va : ℕ}
    (hv : va / PGSIZE < NUPAGE) (he : k.pte c (va / PGSIZE) = some e) (user : Bool) (b : UInt8)
    (n : ℕ) :
    (∃ r k', access c va user (.store b) (n + 1) k = .ok (r, k') ∧
      Written k k' c (va / PGSIZE) e ∧ (0 < n → user = false ∨ e.u = true → r = some b)) ∨
    (k.mem.alloc.countfp = 0 ∧ ∃ err, access c va user (.store b) (n + 1) k = .error err) := by
  obtain ⟨d, hd, hentry⟩ := Option.bind_eq_some_iff.mp he
  have hpte := userPte_iff.mpr ⟨hv, he⟩
  have hheld : 0 < k.holders e.pfn :=
    (Kernel.userHolds_pos_iff.mpr ⟨c, _, e, hpte, rfl⟩).trans_le (k.userHolds_le_holders _)
  have hlt := h.pfn_lt hR hd hv hentry
  by_cases hallow : Pte.allows e user (.store b) = true
  · -- the entry is writable already
    have hw : e.w = true := by
      rw [Pte.allows, Bool.and_eq_true] at hallow
      exact hallow.2
    have hsame : ({ e with w := true } : Pte) = e := by rw [← hw]
    refine Or.inl ⟨_, _, access_store hd hentry hallow n, ⟨fun _ => rfl, fun _ _ _ => rfl,
      Or.inl ⟨hu.writable c _ e hpte hw, ?_, rfl⟩⟩, fun _ _ => rfl⟩
    rw [hsame, ← he]
    rfl
  have hdeny : ∀ e', d.entry (va / PGSIZE) = some e' → Pte.allows e' user (.store b) = false :=
    fun e' he' => by
      obtain rfl := Option.some.inj (hentry.symm.trans he')
      simpa using hallow
  have hset := pte_setEntry (k := k) hd hentry
  have hretry := access_retry (c := c) hd hdeny n
  have hother : ∀ e₁ m i q, (i = c → q ≠ va / PGSIZE) →
      (k.setSpace c m (d.setEntry (va / PGSIZE) (some e₁)) (k.proc c).sz).pte i q = k.pte i q :=
    fun e₁ m i q hq => by
      rw [hset, if_neg]
      exact fun hiq => hq hiq.1 hiq.2
  have hself : ∀ e₁ m, (k.setSpace c m (d.setEntry (va / PGSIZE) (some e₁)) (k.proc c).sz).pte c
      (va / PGSIZE) = some e₁ := fun e₁ m => by
    rw [hset, if_pos ⟨rfl, rfl⟩]
  rcases h.fault_user hR hd hentry hheld with ⟨hone, hfault⟩ | ⟨hmany, g, l, hfree, hfault⟩ |
      ⟨hfree, err, hfault⟩
  · -- no other holder: the entry becomes writable
    have hcount : k.mem.alloc.pgRef e.pfn = 1 := by
      rw [h.counts.count, hone]
      rfl
    obtain ⟨r, k', hr, hstill, hreply⟩ := access_private (e := { e with w := true }) rfl hlt n _
      (hself _ _) hcount
    have hwritten : Written k (k.setSpace c k.mem
        (d.setEntry (va / PGSIZE) (some { e with w := true })) (k.proc c).sz) c (va / PGSIZE) e :=
      ⟨setSpace_state _ _ _, hother _ _, Or.inl ⟨hone, hself _ _, rfl⟩⟩
    refine Or.inl ⟨r, k', ?_, hwritten.still hstill, hreply⟩
    rw [hretry, bind_ok hfault]
    exact hr
  · -- other holders: the page is copied
    have hmem : g ∈ k.mem.alloc.freelist := by rw [hfree]; simp
    have hzero := ((h.counts.free g).mp hmem).2
    have hne : g ≠ e.pfn := by
      rintro rfl
      omega
    have hcount : (copied k.mem e g l).alloc.pgRef g = 1 := by
      show Function.update (Function.update k.mem.alloc.pgRef g 1) e.pfn _ g = 1
      rw [Function.update_of_ne hne, Function.update_self]
    obtain ⟨r, k', hr, hstill, hreply⟩ := access_private (e := ⟨g, true, true⟩) rfl
      (hR g ((h.counts.free g).mp hmem).1).2 n _ (hself _ _) hcount
    have hcost : (copied k.mem e g l).alloc.countfp + 1 = k.mem.alloc.countfp := by
      show l.length + 1 = k.mem.alloc.freelist.length
      rw [hfree, List.length_cons]
    have hwritten : Written k (k.setSpace c (copied k.mem e g l)
        (d.setEntry (va / PGSIZE) (some ⟨g, true, true⟩)) (k.proc c).sz) c (va / PGSIZE) e :=
      ⟨setSpace_state _ _ _, hother _ _, Or.inr ⟨hmany, hcost, g, hzero, hself _ _⟩⟩
    refine Or.inl ⟨r, k', ?_, hwritten.still hstill, fun hn _ => hreply hn (Or.inr rfl)⟩
    rw [hretry, bind_ok hfault]
    exact hr
  · refine Or.inr ⟨?_, err, ?_⟩
    · rw [Kmem.countfp, hfree]
      rfl
    · rw [hretry]
      exact bind_error hfault

lemma perform_write (hR : ∀ f ∈ R, Kmem.Usable f) (h : Inv R k) (hu : UserPages k) {va : ℕ}
    (hv : va / PGSIZE < NUPAGE) (he : k.pte c (va / PGSIZE) = some e) (user : Bool) (b : UInt8)
    (n : ℕ) :
    (∃ r k', perform (.access c va user (.store b) (n + 1)) k = .ok (r, k') ∧
      Written k k' c (va / PGSIZE) e ∧ (0 < n → user = false ∨ e.u = true → r = .byte b)) ∨
    (k.mem.alloc.countfp = 0 ∧
      ∃ err, perform (.access c va user (.store b) (n + 1)) k = .error err) := by
  rcases write_outcome hR h hu hv he user b n with ⟨r, k', hr, hw, hreply⟩ | ⟨hfree, err, herr⟩
  · refine Or.inl ⟨(r.map Reply.byte).getD .nothing, k', ?_, hw, fun hn hue => ?_⟩
    · rw [perform, bind_ok hr]
      rfl
    · rw [hreply hn hue]
      rfl
  · exact Or.inr ⟨hfree, err, by rw [perform, bind_error herr]⟩

/-! ### Other operations -/

omit [Layout] in
lemma Faulted.entry_other {d d' : PageDir} {m' : Mem Kmem} (h : Faulted k k' d d' v m') {q : ℕ}
    (hq : q ≠ v) : d'.entry q = d.entry q := by
  cases h with
  | user e hv he hh =>
    cases hh with
    | write _ hentry _ => rw [hentry, Function.update_of_ne hq]
    | copy _ _ _ hentry _ => rw [hentry, Function.update_of_ne hq]
  | kernel _ hentry _ => rw [hentry]

omit [Layout] in
lemma Faulted.entry_self {d d' : PageDir} {m' : Mem Kmem} (h : Faulted k k' d d' v m') {e' : Pte}
    (he' : d'.entry v = some e') : e'.w = true ∨ d.entry v = some e' := by
  cases h with
  | user e hv he hh =>
    left
    cases hh with
    | write _ hentry _ =>
      rw [hentry, Function.update_self] at he'
      rw [← Option.some.inj he']
    | copy _ _ _ hentry _ =>
      rw [hentry, Function.update_self] at he'
      rw [← Option.some.inj he']
  | kernel _ hentry _ => exact Or.inr (by rw [← hentry, he'])

/-- An access changes one entry at most, and leaves its page, or makes it writable. -/
lemma access_pte (hR : ∀ f ∈ R, Kmem.Usable f) (h : Inv R k) (hc : (k.proc c).state = .runnable)
    {va : ℕ} {user : Bool} {a : Access} {n : ℕ} (hs : FaultOk k (.access c va user a n)) :
    Wp (access c va user a n) Clean (fun _ k' => Inv R k' ∧
      (∀ i q, (i = c → q ≠ va / PGSIZE) → k'.pte i q = k.pte i q) ∧
      ∀ e', k'.pte c (va / PGSIZE) = some e' →
        e'.w = true ∨ k.pte c (va / PGSIZE) = some e') k := by
  refine access_faults hR h hc hs ⟨fun _ _ _ => rfl, fun _ => Or.inr⟩
    (fun k₁ f d d' m' hP _ _ hd _ _ hfault => ⟨fun i q hq => ?_, fun e' he' => ?_⟩)
    fun k₁ f p hP => hP
  · rw [pte_setSpace, ← hP.1 i q hq]
    split_ifs with hi
    · rw [hfault.entry_other (hq hi), hi, pte_of_pgdir hd]
    · rfl
  · rw [pte_setSpace, if_pos rfl] at he'
    refine (hfault.entry_self he').elim Or.inl fun he => hP.2 e' ?_
    rw [pte_of_pgdir hd, he]

/-- A load that the entry allows changes nothing. -/
lemma load_allowed {d : PageDir} (hd : (k.proc c).pgdir = some d) {va : ℕ} {user : Bool}
    (hallow : ∀ e, d.entry (va / PGSIZE) = some e → Pte.allows e user .load = true) (n : ℕ) :
    Wp (access c va user .load n) (fun _ => True) (fun _ k' => k' = k) k := by
  refine access_rule (P := fun k' => k' = k) (fun k' hk' => ⟨d, by rw [hk', hd]⟩)
    (fun k' d' hk' hd' hdeny => ?_) (fun _ _ _ hk' _ _ _ _ => hk')
    (fun _ _ _ _ _ _ _ _ ha => by cases ha) (fun _ hk' => hk') n k rfl
  subst hk'
  obtain rfl := Option.some.inj (hd.symm.trans hd')
  -- a fault means that the page is absent
  have hnone : d.entry (va / PGSIZE) = none := by
    cases he : d.entry (va / PGSIZE) with
    | none => rfl
    | some e => exact absurd (hallow e he) (by rw [hdeny e he]; simp)
  obtain ⟨err, herr⟩ := cowHandler_absent (m := k'.mem) hnone
  rw [Wp, fault_error hd herr]
  trivial

/-- **An effect** leaves the members the page. -/
lemma Effect.members {op : Op} {r : Reply} {L : Finset Slot}
    (hL : ∀ i ∈ L, (k.proc i).state ≠ .unused) (hset : Settled v k L op) (heff : Effect k k' op r)
    (hi : i ∈ L) (hi' : (k'.proc i).state ≠ .unused) : k'.pte i v = k.pte i v := by
  have hlive := hL i hi
  suffices hp : (k'.proc i).pgdir = (k.proc i).pgdir by rw [Kernel.pte, Kernel.pte, hp]
  cases heff with
  | same _ hproc _ => rw [hproc]
  | booted i₀ f d m' hi₀ hk _ _ =>
    have hne : i ≠ i₀ := by
      rintro rfl
      exact hlive hi₀
    rw [hk, booted_other k f d m' hne]
  | @forked c i₀ f d d' child m' hi₀ hfork =>
    have hne : i ≠ i₀ := by
      rintro rfl
      exact hlive hi₀
    have hne' : i ≠ c := fun hic => hset (hic ▸ hi)
    rw [hfork.proc_other hne hne']
  | @image c _ _ elf s d d' m' _ _ hk _ _ _ =>
    have hne : i ≠ c := fun hic => hset (hic ▸ hi)
    rw [hk, setSpace_other hne]
  | @resized c n _ d d' sz' m' _ hk _ =>
    have hne : i ≠ c := fun hic => hset (hic ▸ hi)
    rw [hk, setSpace_other hne]
  | exited hk => rw [hk, (exited_proc k _ i).2.1]
  | reaped i₀ m' hk =>
    subst hk
    have hne : i ≠ i₀ := by
      rintro rfl
      rw [reaped_self] at hi'
      exact hi' rfl
    rw [reaped_other hne]

/-- **The members keep the page** in any operation other than a write to it. -/
lemma perform_members (hR : ∀ f ∈ R, Kmem.Usable f) (h : Inv R k) {op : Op} (he : Enabled k op)
    (hs : FaultOk k op) {L : Finset Slot} (hL : ∀ i ∈ L, (k.proc i).state ≠ .unused)
    (hset : Settled v k L op) (hw : writer v L op = none) :
    Wp (perform op) (fun _ => True)
      (fun _ k' => ∀ i ∈ L, (k'.proc i).state ≠ .unused → k'.pte i v = k.pte i v) k := by
  rcases op.access_or with ⟨c, va, user, a, n, rfl⟩ | hop
  swap
  · exact (perform_effect hR h he hop).mono
      (fun _ _ hk' i hi hi' => hk'.2.members hL hset hi hi') fun _ _ => trivial
  by_cases hpage : c ∈ L ∧ va / PGSIZE = v
  · obtain ⟨hc, rfl⟩ := hpage
    have hset := hset hc rfl
    cases a with
    | load =>
      obtain ⟨-, d, -, hd, -⟩ := h.live (hL c hc)
      refine (load_allowed hd (fun e he => hset e ?_) n).bind fun _ k' hk' => wp_pure fun i _ _ => ?_
      · rw [pte_of_pgdir hd, he]
      · rw [hk']
    | store b =>
      obtain ⟨m, rfl⟩ := Nat.exists_eq_add_of_lt hset
      rw [Nat.zero_add] at hw
      simp [writer, hc] at hw
  · refine ((access_pte hR h he.1 hs).mono (fun _ _ h => h) fun _ _ => trivial).bind
      fun _ k' hk' => wp_pure fun i hi _ => hk'.2.1 i v ?_
    rintro rfl rfl
    exact hpage ⟨hi, rfl⟩

/-- **No other process gets the page**, in any operation other than a write to it, while a member
has it. -/
lemma perform_mappers (hR : ∀ f ∈ R, Kmem.Usable f) (h : Inv R k) (hu : UserPages k) {op : Op}
    (he : Enabled k op) (hs : FaultOk k op) (hv : v < NUPAGE) {L : Finset Slot}
    (hset : Settled v k L op) (hgroup : mappers k v f ⊆ L) :
    Wp (perform op) (fun _ => True)
      (fun _ k' => UserPages k' → ∀ i ∈ L, i ∈ mappers k' v f → mappers k' v f ⊆ L) k := by
  -- an entry without other holders is that of the member
  have hone : ∀ {k' : Kernel} {i j : Slot} {e : Pte}, i ∈ mappers k' v f → k'.pte j v = some e →
      e.pfn = f → k'.holders e.pfn = 1 → j = i := fun hi he hpfn hone => by
    obtain ⟨e', he', hpfn'⟩ := Option.map_eq_some_iff.mp (mem_mappers.mp hi)
    exact ((userPte_iff.mpr ⟨hv, he⟩).eq_of_one (userPte_iff.mpr ⟨hv, he'⟩) (hpfn.trans hpfn'.symm)
      hone).1
  have hold : ∀ {j : Slot} {e : Pte}, k.pte j v = some e → e.pfn = f → j ∈ L :=
    fun he hpfn => hgroup (mem_mappers.mpr (by rw [he, Option.map_some, hpfn]))
  rcases op.access_or with ⟨c, va, user, a, n, rfl⟩ | hop
  swap
  · refine (perform_effect hR h he hop).mono (fun _ k' hk' _ i hi hif j hj => ?_) fun _ _ => trivial
    obtain ⟨e', he', hpfn⟩ := Option.map_eq_some_iff.mp (mem_mappers.mp hj)
    rcases (hk'.2.mapsOn h hu he).entry j v e' (userPte_iff.mpr ⟨hv, he'⟩) with hsingle | ⟨j₀, e, hj₀, he, hpfn', -⟩
    · rw [hone hif he' hpfn hsingle]
      exact hi
    · have hmem := hold (userPte_iff.mp he).2 (hpfn'.trans hpfn)
      rcases hj₀ with rfl | rfl
      · exact hmem
      · exact absurd hmem hset
  · refine ((access_pte hR h he.1 hs).mono (fun _ _ h => h) fun _ _ => trivial).bind
      fun _ k' hk' => wp_pure fun hu' i hi hif j hj => ?_
    obtain ⟨-, hother, hself⟩ := hk'
    obtain ⟨e', he', hpfn⟩ := Option.map_eq_some_iff.mp (mem_mappers.mp hj)
    by_cases hpage : j = c ∧ va / PGSIZE = v
    · obtain ⟨rfl, rfl⟩ := hpage
      rcases hself e' he' with hw | he
      · rw [hone hif he' hpfn (hu'.writable j _ e' (userPte_iff.mpr ⟨hv, he'⟩) hw)]
        exact hi
      · exact hold he hpfn
    · rw [hother j v fun hjc hva => hpage ⟨hjc, hva.symm⟩] at he'
      exact hold he' hpfn

/-! ### The group -/

namespace SharedRun

/-- The processes that map frame `f` at page `v`, before they write. -/
def start (k : Kernel) (v f : ℕ) : SharedRun := ⟨k, mappers k v f, [], 0⟩

/-- The page of the group, as a shared value: its owners are the members that map frame `f`. -/
def shared (s : SharedRun) (v f : ℕ) : Shared Slot :=
  ⟨s.members, s.members ∩ mappers s.kernel v f, s.writers, s.copies⟩

end SharedRun

/-- **The invariant** of a run: a member that has written has a page of its own, and while a
member has frame `f`, no process outside the group has it. -/
structure ShareInv (R : Set ℕ) (A : Finset Slot) (v f : ℕ) (s : SharedRun) : Prop where
  inv : Inv R s.kernel
  pages : UserPages s.kernel
  there : ∀ i ∈ s.members, (s.kernel.proc i).state ≠ .unused
  own : ∀ i ∈ s.members, i ∈ s.writers → ∃ e, s.kernel.pte i v = some e ∧ e.w = true
  group : (s.members ∩ mappers s.kernel v f).Nonempty → mappers s.kernel v f ⊆ s.members
  sound : (s.shared v f).Sound A

section Group
variable {A : Finset Slot} {s s' : SharedRun} {op : Op}

omit [Layout] in
lemma writer_eq_some {L : Finset Slot} (h : writer v L op = some c) : c ∈ L ∧
    ∃ va user b n, op = .access c va user (.store b) (n + 1) ∧ va / PGSIZE = v := by
  unfold writer at h
  split at h
  · next va user b n =>
    split_ifs at h with hva
    obtain rfl := Option.some.inj h
    exact ⟨hva.2, va, user, b, n, rfl, hva.1⟩
  · exact absurd h (by simp)

/-- A slot that maps a page is in use. -/
lemma Inv.used_of_mappers (h : Inv R k) (hi : i ∈ mappers k v f) : (k.proc i).state ≠ .unused := by
  intro hunused
  rw [mem_mappers, Kernel.pte, (h.unused hunused).2] at hi
  exact absurd hi (by simp)

lemma ShareInv.start (h : Inv R k) (hu : UserPages k) :
    ShareInv R (mappers k v f) v f (.start k v f) := by
  refine ⟨h, hu, fun i hi => h.used_of_mappers hi, fun i _ hi => absurd hi List.not_mem_nil,
    fun _ => Subset.rfl, ?_⟩
  · rw [SharedRun.shared, SharedRun.start, inter_self]
    exact Shared.Sound.start _

/-- A member that has not written maps frame `f`. -/
lemma ShareInv.maps (h : ShareInv R A v f s) (hc : c ∈ s.members) (hnew : c ∉ s.writers) :
    c ∈ mappers s.kernel v f :=
  (mem_inter.mp (h.sound.fresh c hc hnew)).2

lemma ShareInv.entry (h : ShareInv R A v f s) (hc : c ∈ s.members) :
    ∃ e, s.kernel.pte c v = some e ∧ (c ∉ s.writers → e.pfn = f) := by
  by_cases hold : c ∈ s.writers
  · obtain ⟨e, he, -⟩ := h.own c hc hold
    exact ⟨e, he, fun hnew => absurd hold hnew⟩
  · obtain ⟨e, he, hpfn⟩ := Option.map_eq_some_iff.mp (mem_mappers.mp (h.maps hc hold))
    exact ⟨e, he, fun _ => hpfn⟩

/-- A member copies the page when another process maps it. -/
lemma ShareInv.copies_iff (h : ShareInv R A v f s) (hc : c ∈ s.members) :
    (s.shared v f).Copies c ↔ c ∉ s.writers ∧ ∃ j, j ≠ c ∧ j ∈ mappers s.kernel v f := by
  refine and_congr_right fun hnew => ?_
  have hmem := h.maps hc hnew
  have hsub := h.group ⟨c, mem_inter.mpr ⟨hc, hmem⟩⟩
  rw [SharedRun.shared, inter_eq_right.mpr hsub]
  exact exists_congr fun j => mem_erase

omit [Layout] in
/-- The writer has a page that it may write. -/
lemma Written.own (h : Written k k' c v e) : ∃ e', k'.pte c v = some e' ∧ e'.w = true := by
  rcases h.page with ⟨-, he, -⟩ | ⟨-, -, g, -, he⟩
  · exact ⟨_, he, rfl⟩
  · exact ⟨_, he, rfl⟩

omit [Layout] in
lemma Written.mappers_same (h : Written k k' c v e) (he : k.pte c v = some e) {e' : Pte}
    (he' : k'.pte c v = some e') (hpfn : e'.pfn = e.pfn) : mappers k' v f = mappers k v f := by
  ext i
  rw [mem_mappers, mem_mappers]
  rcases eq_or_ne i c with rfl | hi
  · rw [he, he', Option.map_some, Option.map_some, hpfn]
  · rw [h.other i v fun hic => absurd hic hi]

omit [Layout] in
lemma Written.mappers_erase (h : Written k k' c v e) {e' : Pte} (he' : k'.pte c v = some e')
    (hpfn : e'.pfn ≠ f) : mappers k' v f = (mappers k v f).erase c := by
  ext i
  rw [mem_erase, mem_mappers, mem_mappers]
  rcases eq_or_ne i c with rfl | hi
  · rw [he', Option.map_some]
    exact ⟨fun heq => absurd (Option.some.inj heq) hpfn, fun hne => absurd rfl hne.1⟩
  · rw [h.other i v fun hic => absurd hic hi]
    exact (and_iff_right hi).symm

/-- **What a write does for the group**: it takes a page when another process maps the one of the
group, and then the writer does not map it any more. -/
lemma ShareInv.written (h : ShareInv R A v f s) (hv : v < NUPAGE) (hc : c ∈ s.members)
    (he : s.kernel.pte c v = some e) (hw : Written s.kernel k' c v e) :
    ((s.shared v f).Copies c ∧ k'.mem.alloc.countfp + 1 = s.kernel.mem.alloc.countfp ∧
      mappers k' v f = (mappers s.kernel v f).erase c) ∨
    (¬(s.shared v f).Copies c ∧ k'.mem.alloc.countfp = s.kernel.mem.alloc.countfp ∧
      mappers k' v f = mappers s.kernel v f) := by
  by_cases hold : c ∈ s.writers
  · -- the page of a member that has written has one holder
    obtain ⟨e₀, he₀, hwrite⟩ := h.own c hc hold
    obtain rfl := Option.some.inj (he.symm.trans he₀)
    have hone := h.pages.writable c v e (userPte_iff.mpr ⟨hv, he⟩) hwrite
    rcases hw.page with ⟨-, he', hcost⟩ | ⟨hmany, -⟩
    · exact Or.inr ⟨fun hcopies => hcopies.1 hold, hcost, hw.mappers_same he he' rfl⟩
    · omega
  · have hmem := h.maps hc hold
    have hne : (mappers s.kernel v f).Nonempty := ⟨c, hmem⟩
    have hpfn : e.pfn = f := by
      rw [mem_mappers, he, Option.map_some] at hmem
      exact Option.some.inj hmem
    -- the owners are the holders of the frame
    have hcard := h.pages.holders_eq_card hv hne
    have herase := card_erase_add_one hmem
    have hcopies : (s.shared v f).Copies c ↔ 1 < s.kernel.holders e.pfn := by
      rw [Shared.Copies, SharedRun.shared, inter_eq_right.mpr (h.group ⟨c, mem_inter.mpr ⟨hc, hmem⟩⟩),
        ← card_pos, hpfn, hcard, and_iff_right hold]
      show 0 < ((mappers s.kernel v f).erase c).card ↔ _
      omega
    rcases hw.page with ⟨hone, he', hcost⟩ | ⟨hmany, hcost, g, hzero, he'⟩
    · exact Or.inr ⟨by rw [hcopies]; omega, hcost, hw.mappers_same he he' rfl⟩
    · have hg : g ≠ f := by
        rintro rfl
        rw [hpfn] at hmany
        omega
      exact Or.inl ⟨hcopies.mpr hmany, hcost, hw.mappers_erase he' hg⟩

/-! ### One operation of the run -/

/-- A write of a member is a write to the shared value. -/
lemma ShareStep.write (hR : ∀ f ∈ R, Kmem.Usable f) (h : ShareInv R A v f s) (hv : v < NUPAGE)
    (hs : ShareStep v s op s') (hw : writer v s.members op = some c) :
    s'.shared v f = (s.shared v f).write c ∧
      (∀ i ∈ s'.members, i ∈ s'.writers → ∃ e, s'.kernel.pte i v = some e ∧ e.w = true) ∧
      ((s'.members ∩ mappers s'.kernel v f).Nonempty →
        mappers s'.kernel v f ⊆ s'.members) := by
  obtain ⟨hc, va, user, b, n, rfl, rfl⟩ := writer_eq_some hw
  obtain ⟨e, he, -⟩ := h.entry hc
  obtain ⟨-, r, hr⟩ := hs.step
  rcases perform_write hR h.inv h.pages hv he user b n with ⟨r', k', hr', hwritten, -⟩ |
      ⟨-, err, herr⟩
  swap
  · rw [herr] at hr
    exact absurd hr (by simp)
  obtain rfl : k' = s'.kernel := by
    rw [hr] at hr'
    exact ((Prod.mk.inj (Except.ok.inj hr')).2).symm
  have hmembers : s'.members = s.members := by
    rw [hs.members, filter_true_of_mem]
    exact fun i hi => by rw [hwritten.state]; exact h.there i hi
  have hwriters := hs.writers
  have hcopies := hs.copies
  rw [hw, Option.elim_some] at hwriters hcopies
  have hmaps := h.written hv hc he hwritten
  refine ⟨?_, fun i hi hold => ?_, ?_⟩
  · rw [SharedRun.shared, hmembers, hwriters, hcopies]
    rcases hmaps with ⟨hcopy, hcost, hmap⟩ | ⟨hcopy, hcost, hmap⟩
    · have hnew : c ∉ s.writers := hcopy.1
      rw [hmap, inter_erase, Shared.write_copy hcopy, if_neg hnew, ← hcost,
        Nat.add_sub_cancel_left]
      rfl
    · rw [hmap, hcost, Nat.sub_self, Nat.add_zero]
      simp only [Shared.write, if_neg hcopy]
      rfl
  · rcases eq_or_ne i c with rfl | hi'
    · exact hwritten.own
    · rw [hwritten.other i _ fun hic => absurd hic hi']
      rw [hmembers] at hi
      refine h.own i hi ?_
      rw [hwriters] at hold
      split_ifs at hold
      · exact hold
      · exact (List.mem_cons.mp hold).resolve_left hi'
  · rw [hmembers]
    rintro ⟨i, hi⟩
    rcases hmaps with ⟨-, -, hmap⟩ | ⟨-, -, hmap⟩
    · rw [hmap] at hi ⊢
      have hsub := h.group ⟨i, inter_subset_inter_left (erase_subset c _) hi⟩
      exact (erase_subset c _).trans hsub
    · rw [hmap] at hi ⊢
      exact h.group ⟨i, hi⟩

/-- In any other operation members can leave. -/
lemma ShareStep.stay (hR : ∀ f ∈ R, Kmem.Usable f) (h : ShareInv R A v f s) (hv : v < NUPAGE)
    (hs : ShareStep v s op s') (h' : Inv R s'.kernel) (hu : UserPages s'.kernel)
    (hw : writer v s.members op = none) :
    s'.shared v f =
      (s.shared v f).stay (univ.filter fun i => (s'.kernel.proc i).state ≠ .unused) ∧
      (∀ i ∈ s'.members, i ∈ s'.writers → ∃ e, s'.kernel.pte i v = some e ∧ e.w = true) ∧
      ((s'.members ∩ mappers s'.kernel v f).Nonempty →
        mappers s'.kernel v f ⊆ s'.members) := by
  obtain ⟨he, r, hr⟩ := hs.step
  have hpte := (perform_members hR h.inv he hs.faults h.there hs.settled hw).ok hr
  have hmem : ∀ i, i ∈ s'.members ↔ i ∈ s.members ∧ (s'.kernel.proc i).state ≠ .unused :=
    fun i => by rw [hs.members, mem_filter]
  have hwriters := hs.writers
  have hcopies := hs.copies
  rw [hw, Option.elim_none] at hwriters hcopies
  -- a member that stays maps what it did
  have hmaps : ∀ i ∈ s'.members, (i ∈ mappers s'.kernel v f ↔ i ∈ mappers s.kernel v f) :=
    fun i hi => by
      obtain ⟨hi, hstate⟩ := (hmem i).mp hi
      rw [mem_mappers, mem_mappers, hpte i hi hstate]
  have hmembers : s'.members =
      s.members ∩ univ.filter fun i => (s'.kernel.proc i).state ≠ .unused := by
    rw [hs.members, inter_filter, inter_univ]
  refine ⟨?_, fun i hi hold => ?_, ?_⟩
  · rw [SharedRun.shared, hwriters, hcopies]
    have howners : s'.members ∩ mappers s'.kernel v f = s.members ∩ mappers s.kernel v f ∩
        univ.filter fun i => (s'.kernel.proc i).state ≠ .unused := by
      ext i
      rw [inter_right_comm, ← hmembers, mem_inter, mem_inter]
      exact and_congr_right (hmaps i)
    rw [howners, hmembers]
    rfl
  · obtain ⟨hi, hstate⟩ := (hmem i).mp hi
    rw [hpte i hi hstate]
    exact h.own i hi (hwriters ▸ hold)
  · rintro ⟨i, hi⟩
    obtain ⟨hi, hif⟩ := mem_inter.mp hi
    have hold := (hmaps i hi).mp hif
    obtain ⟨hi, -⟩ := (hmem i).mp hi
    have hsub := h.group ⟨i, mem_inter.mpr ⟨hi, hold⟩⟩
    have hnew := (perform_mappers hR h.inv h.pages he hs.faults hv hs.settled hsub).ok hr hu i hi hif
    exact fun j hj => (hmem j).mpr ⟨hnew hj, h'.used_of_mappers hj⟩

/-- **One operation of the run** keeps the invariant. -/
lemma ShareInv.step (hR : ∀ f ∈ R, Kmem.Usable f) (h : ShareInv R A v f s) (hv : v < NUPAGE)
    (hs : ShareStep v s op s') : ShareInv R A v f s' := by
  obtain ⟨he, r, hr⟩ := hs.step
  have hinv := (h.inv.perform hR he hs.faults).ok hr
  have hpages := (h.pages.perform hR h.inv he hs.faults).ok hr
  have hthere : ∀ i ∈ s'.members, (s'.kernel.proc i).state ≠ .unused := fun i hi => by
    rw [hs.members] at hi
    exact (mem_filter.mp hi).2
  cases hw : writer v s.members op with
  | none =>
    obtain ⟨hshared, hown, hgroup⟩ := hs.stay hR h hv hinv hpages hw
    exact ⟨hinv, hpages, hthere, hown, hgroup, hshared ▸ h.sound.stay _⟩
  | some c =>
    obtain ⟨hshared, hown, hgroup⟩ := hs.write hR h hv hw
    exact ⟨hinv, hpages, hthere, hown, hgroup, hshared ▸ h.sound.write (writer_eq_some hw).1⟩

end Group

/-- A process other than `c` maps frame `f`. -/
def Kernel.OthersMap (k : Kernel) (c : Slot) (f : ℕ) : Prop :=
  ∃ j q e, j ≠ c ∧ k.UserPte j q e ∧ e.pfn = f

omit [Layout] in
/-- All processes that map a page have it at one address. -/
lemma UserPages.othersMap_iff (hu : UserPages k) (hv : v < NUPAGE) (hc : c ∈ mappers k v f) :
    k.OthersMap c f ↔ ∃ j, j ≠ c ∧ j ∈ mappers k v f := by
  obtain ⟨e, he, rfl⟩ := Option.map_eq_some_iff.mp (mem_mappers.mp hc)
  constructor
  · rintro ⟨j, q, e', hj, hq, hpfn⟩
    obtain rfl := hu.aligned j c q v e' e hq (userPte_iff.mpr ⟨hv, he⟩) hpfn
    exact ⟨j, hj, mem_mappers.mpr (by rw [(userPte_iff.mp hq).2, Option.map_some, hpfn])⟩
  · rintro ⟨j, hj, hmem⟩
    obtain ⟨e', he', hpfn⟩ := Option.map_eq_some_iff.mp (mem_mappers.mp hmem)
    exact ⟨j, v, e', hj, userPte_iff.mpr ⟨hv, he'⟩, hpfn⟩

/-- The states of the runs in which the processes that map frame `f` at page `v` write to it. -/
def ShareReach (k : Kernel) (v f : ℕ) : SharedRun → Prop :=
  Reachable (· = .start k v f) (ShareStep v)

lemma ShareReach.inv {free : List ℕ} (hfree : FreeList free) (hk : FaultReach free k)
    (hv : v < NUPAGE) {s : SharedRun} (hs : ShareReach k v f s) :
    ShareInv {f | f ∈ free} (mappers k v f) v f s := by
  refine Reachable.invariant (I := ShareInv _ _ v f) (fun s hs => ?_)
    (fun s op s' hs hstep => hs.step hfree.usable hv hstep) hs
  rw [hs]
  exact .start (hk.inv hfree) (hk.userPages hfree)

/-- **The copies of a shared page.**  In every run of the processes that map a page, while pages are
available, a write of one of them is performed; if it is the first of the process, it takes exactly
one page when another process maps the original, and none when it is the last, and a later one
takes none.  When all have written before one is reaped, the copies are one less than the
processes, and the last that wrote for the first time is the one that maps the original. -/
theorem copies_of_shared {free : List ℕ} (hfree : FreeList free) (hk : FaultReach free k)
    (hv : v < NUPAGE) {s : SharedRun} (hs : ShareReach k v f s) :
    (∀ c ∈ s.members, 0 < s.kernel.mem.alloc.countfp →
      ∀ va user b n, va / PGSIZE = v →
        ∃ e r k', s.kernel.UserPte c v e ∧ (c ∉ s.writers → e.pfn = f) ∧
          perform (.access c va user (.store b) (n + 1)) s.kernel = .ok (r, k') ∧
          (0 < n → user = false ∨ e.u = true → r = .byte b) ∧
          (c ∉ s.writers ∧ s.kernel.OthersMap c f →
            k'.mem.alloc.countfp + 1 = s.kernel.mem.alloc.countfp) ∧
          (c ∈ s.writers ∨ ¬s.kernel.OthersMap c f →
            k'.mem.alloc.countfp = s.kernel.mem.alloc.countfp)) ∧
    ((mappers k v f).Nonempty → s.members = mappers k v f → (∀ i ∈ s.members, i ∈ s.writers) →
      s.copies = (mappers k v f).card - 1 ∧
      ∃ i, s.writers.head? = some i ∧ mappers s.kernel v f = {i}) := by
  have h := hs.inv hfree hk hv
  refine ⟨fun c hc hpos va user b n hva => ?_, fun hne hall hw => ?_⟩
  · subst hva
    obtain ⟨e, he, hpfn⟩ := h.entry hc
    rcases perform_write hfree.usable h.inv h.pages hv he user b n with
      ⟨r, k', hr, hwritten, hreply⟩ | ⟨hempty, -⟩
    swap
    · omega
    refine ⟨e, r, k', userPte_iff.mpr ⟨hv, he⟩, hpfn, hr, hreply, ?_⟩
    have hcopies : (s.shared (va / PGSIZE) f).Copies c ↔
        c ∉ s.writers ∧ s.kernel.OthersMap c f := by
      rw [h.copies_iff hc]
      exact and_congr_right fun hnew => (h.pages.othersMap_iff hv (h.maps hc hnew)).symm
    have hlate : c ∈ s.writers ∨ ¬s.kernel.OthersMap c f ↔ ¬(s.shared (va / PGSIZE) f).Copies c := by
      rw [hcopies, not_and_or, not_not]
    rw [hlate, ← hcopies]
    rcases h.written hv hc he hwritten with ⟨hcopy, hcost, -⟩ | ⟨hcopy, hcost, -⟩
    · exact ⟨fun _ => hcost, fun hno => absurd hcopy hno⟩
    · exact ⟨fun hyes => absurd hyes hcopy, fun _ => hcost⟩
  · obtain ⟨hcopies, i, hlast, howners⟩ := h.sound.all_written hne hall (hall ▸ hw)
    have howners : s.members ∩ mappers s.kernel v f = {i} := howners
    refine ⟨hcopies, i, hlast, ?_⟩
    rw [← howners, inter_eq_right.mpr (h.group ?_)]
    rw [howners]
    exact singleton_nonempty i

/-- A run goes on with a write of a member. -/
lemma ShareReach.write {free : List ℕ} (hfree : FreeList free) (hk : FaultReach free k)
    (hv : v < NUPAGE) {s : SharedRun} (hs : ShareReach k v f s) (hc : c ∈ s.members)
    (hrun : (s.kernel.proc c).state = .runnable) (hpos : 0 < s.kernel.mem.alloc.countfp) :
    ∃ s', ShareReach k v f s' ∧ s'.members = s.members ∧
      (∀ i, (s'.kernel.proc i).state = (s.kernel.proc i).state) ∧
      s'.writers = (if c ∈ s.writers then s.writers else c :: s.writers) ∧
      s.kernel.mem.alloc.countfp ≤ s'.kernel.mem.alloc.countfp + 1 := by
  have h := hs.inv hfree hk hv
  obtain ⟨e, he, -⟩ := h.entry hc
  have hva : v * PGSIZE / PGSIZE = v := Nat.mul_div_cancel v (by decide)
  have hword : v * PGSIZE < 2 ^ 32 := by
    simp only [NUPAGE, KERNBASE, PGSIZE] at hv ⊢
    omega
  rcases perform_write (c := c) hfree.usable h.inv h.pages (hva.symm ▸ hv) (by rw [hva, he]) false 1 0
    with ⟨r, k', hr, hwritten, -⟩ | ⟨hempty, -⟩
  swap
  · omega
  have hwriter : writer v s.members (.access c (v * PGSIZE) false (.store 1) 1) = some c :=
    if_pos ⟨hva, hc⟩
  have hstep : ShareStep v s (.access c (v * PGSIZE) false (.store 1) 1)
      ⟨k', s.members.filter fun i => (k'.proc i).state ≠ .unused,
        if c ∈ s.writers then s.writers else c :: s.writers,
        s.copies + (s.kernel.mem.alloc.countfp - k'.mem.alloc.countfp)⟩ :=
    ⟨⟨⟨hrun, hword⟩, r, hr⟩, fun _ _ => Or.inl (hva.symm ▸ hv), fun _ _ => Nat.one_pos, rfl,
      by rw [hwriter, Option.elim_some], by rw [hwriter, Option.elim_some]⟩
  refine ⟨_, hs.next hstep, ?_, hwritten.state, rfl, ?_⟩
  · exact filter_true_of_mem fun i hi => by rw [hwritten.state]; exact h.there i hi
  · show _ ≤ k'.mem.alloc.countfp + 1
    rcases hwritten.page with ⟨-, -, hcost⟩ | ⟨-, hcost, -⟩ <;> omega

/-- The first process shares its page with its child. -/
lemma exists_mappers {n : ℕ} {free : List ℕ} (hfree : FreeList free)
    (hn : 2 * NPTENTRIES + n + 5 ≤ free.length) :
    ∃ k f, FaultReach free k ∧ mappers k 0 f = {0, 1} ∧ (k.proc 0).state = .runnable ∧
      (k.proc 1).state = .runnable ∧ n ≤ k.mem.alloc.countfp := by
  have hboot : Boot free (Kernel.boot free fun _ => zeroPage) := ⟨hfree, _, rfl⟩
  obtain ⟨_, k, f, d, m, f', d', child, m', rfl, hstep₁, hstep₂, -, hshows, -, hfork, hproc, hs⟩ :=
    firstFork_ok (n := n) hfree hn
  obtain ⟨e, he, -⟩ := hshows.mapped 0 (by decide)
  have hsz : 0 < PGROUNDUP PGSIZE := by decide
  have hpte : ∀ j : Slot, j = 1 ∨ j = 0 → k.pte j 0 = some (Pte.readOnly e) := fun j hj => by
    rw [hfork.pte (by decide) hj (by rw [booted_self]; exact hsz), pte_of_pgdir hfork.pgdir, he]
    rfl
  refine ⟨k, e.pfn, ((Reachable.start hboot).next ⟨hstep₁, trivial⟩).next ⟨hstep₂, trivial⟩, ?_,
    ?_, ?_, hs.le⟩
  · ext j
    rw [mem_mappers, mem_insert, mem_singleton]
    by_cases hj : j = 0 ∨ j = 1
    · rw [hpte j hj.symm]
      exact iff_of_true rfl hj
    · -- the other slots have been unused since boot
      obtain ⟨h0, h1⟩ := not_or.mp hj
      rw [Kernel.pte, hfork.proc_other h1 h0, booted_other _ _ _ _ h0]
      exact iff_of_false (by simp [Kernel.boot, Proc.zero]) hj
  · rw [hproc, booted_self]
  · rw [hfork.proc_child]

omit [Layout] in
/-- Parent and child write to the page they share: the parent takes a copy. -/
theorem copies_of_shared_fork : ∃ k f s, @FaultReach Layout.sample sampleFree k ∧
    @ShareReach Layout.sample k 0 f s ∧ mappers k 0 f = {0, 1} ∧ s.writers = [1, 0] ∧
    s.copies = 1 ∧ ∃ i, s.writers.head? = some i ∧ mappers s.kernel 0 f = {i} := by
  have hfree := sampleFree_freeList
  obtain ⟨k, f, hk, hmaps, hrun₀, hrun₁, hpages⟩ :=
    @exists_mappers Layout.sample 2 _ hfree (by rw [sampleFree, List.length_range']; decide)
  have hstart : @ShareReach Layout.sample k 0 f (.start k 0 f) := Reachable.start rfl
  have hmem : (SharedRun.start k 0 f).members = {0, 1} := hmaps
  obtain ⟨s₁, hs₁, hmem₁, hstate₁, hw₁, hcost₁⟩ := @ShareReach.write Layout.sample _ 0 _ _ _ hfree
    hk (by decide) _ hstart (by rw [hmem]; decide) hrun₀ (Nat.lt_of_lt_of_le (by decide) hpages)
  have hcost₁ : k.mem.alloc.countfp ≤ s₁.kernel.mem.alloc.countfp + 1 := hcost₁
  obtain ⟨s₂, hs₂, hmem₂, -, hw₂, -⟩ := @ShareReach.write Layout.sample _ 1 _ _ _ hfree
    hk (by decide) _ hs₁ (by rw [hmem₁, hmem]; decide) ((hstate₁ 1).trans hrun₁) (by omega)
  have hw₁ : s₁.writers = [0] := hw₁
  have hw₂ : s₂.writers = [1, 0] := by rw [hw₂, hw₁]; decide
  have hall : s₂.members = mappers k 0 f := by rw [hmem₂, hmem₁, hmem, hmaps]
  obtain ⟨hcopies, hlast⟩ := (@copies_of_shared Layout.sample _ _ _ _ hfree hk (by decide) _ hs₂).2
    (by rw [hmaps]; exact ⟨0, by decide⟩) hall (by rw [hall, hmaps, hw₂]; decide)
  rw [hmaps] at hcopies
  exact ⟨k, f, s₂, hk, hs₂, hmaps, hw₂, hcopies, hlast⟩

end Xv6Projects.Cow
