import Xv6Projects.Fs.Mapping

/-!
# Freeing the blocks of a file

`itrunc` frees the direct blocks, the blocks that the indirect block names, and the indirect block.
Each of them is in use when its turn comes, so that `bfree` does not panic, and no block of
another file is freed.
-/

namespace Xv6Projects.Fs

open Library

namespace Disk

variable {d s : Disk} {sb : Superblock} {i a : ℕ} {S S' : ℕ → Prop}

lemma wp_bfree {Q : Unit → Disk → Prop} (ha : s.bitmap a = true) (h : Q ⟨⟩ (s.setBit sb a false)) :
    Wp (bfree sb a) (fun _ => False) Q s := by
  refine wp_bind (wp_get (wp_ite (fun hf => ?_) fun _ => wp_modify h))
  exact absurd (ha.symm.trans hf) (by simp)

/-- The blocks in the slots `S` of inode `i` have been freed. -/
structure Cut (sb : Superblock) (i : ℕ) (S : ℕ → Prop) (d s : Disk) : Prop where
  bitmap (b : ℕ) : s.bitmap b = true ↔
    d.bitmap b = true ∧ ∀ k, S k → d.blk i k ≠ 0 → d.blk i k ≠ b
  data : s.data = d.data
  dinode : s.dinode = d.dinode
  valid : s.valid = d.valid
  other {j : ℕ} : j ≠ i → s.inode j = d.inode j
  logged {x : ℕ} : x ∈ s.logged → x ∈ d.logged ∨ ∃ k, d.blk i k ≠ 0 ∧ x = sb.BBLOCK (d.blk i k)

lemma Cut.start (hS : ∀ k, S k → d.blk i k = 0) : Cut sb i S d d :=
  ⟨fun _ => ⟨fun hb => ⟨hb, fun k hk hne => absurd (hS k hk) hne⟩, fun hb => hb.1⟩, rfl, rfl, rfl,
    fun _ => rfl, Or.inl⟩

/-- More slots that are empty. -/
lemma Cut.congr (h : Cut sb i S d s) (hS : ∀ k, d.blk i k ≠ 0 → (S' k ↔ S k)) :
    Cut sb i S' d s := by
  refine ⟨fun b => (h.bitmap b).trans (and_congr_right fun _ => forall_congr' fun k => ?_), h.data,
    h.dinode, h.valid, h.other, h.logged⟩
  exact ⟨fun hk hS' hne => hk ((hS k hne).mp hS') hne,
    fun hk hS' hne => hk ((hS k hne).mpr hS') hne⟩

/-- The inode itself may change meanwhile. -/
lemma Cut.setInode (h : Cut sb i S d s) (ip : Inode) : Cut sb i S d (s.setInode i ip) :=
  ⟨h.bitmap, h.data, h.dinode, h.valid,
    fun hj => (Function.update_of_ne hj ..).trans (h.other hj), h.logged⟩

/-- One block more is freed; it is in use until then. -/
lemma Cut.free (h : Cut sb i S d s) (hd : Held sb d) {k : ℕ} (hk : ¬S k) (ha : d.blk i k = a)
    (ha0 : a ≠ 0) (hS : ∀ l, S' l ↔ S l ∨ l = k) :
    s.bitmap a = true ∧ Cut sb i S' d (s.setBit sb a false) := by
  subst ha
  have hnot : ∀ l, S l → d.blk i l ≠ 0 → d.blk i l ≠ d.blk i k :=
    fun l hl hne he => hk ((hd.inj hne he).2 ▸ hl)
  refine ⟨(h.bitmap _).mpr ⟨(hd.used ha0).1, hnot⟩, fun b => ?_, h.data, h.dinode, h.valid, h.other,
    fun {x} hx => ?_⟩
  · have hset : (s.setBit sb (d.blk i k) false).bitmap b = true ↔
        b ≠ d.blk i k ∧ s.bitmap b = true := by
      change Function.update s.bitmap (d.blk i k) false b = true ↔ _
      by_cases hb : b = d.blk i k
      · simp [hb]
      · simp [hb]
    rw [hset, h.bitmap]
    constructor
    · rintro ⟨hb, hbit, hall⟩
      refine ⟨hbit, fun l hl hne => ?_⟩
      obtain hl | rfl := (hS l).mp hl
      · exact hall l hl hne
      · exact Ne.symm hb
    · rintro ⟨hbit, hall⟩
      exact ⟨(hall k ((hS k).mpr (Or.inr rfl)) ha0).symm, hbit,
        fun l hl hne => hall l ((hS l).mpr (Or.inl hl)) hne⟩
  · have hmem : x ∈ insert (sb.BBLOCK (d.blk i k)) s.logged := hx
    obtain rfl | hx := Finset.mem_insert.mp hmem
    · exact Or.inr ⟨k, ha0, rfl⟩
    · exact h.logged hx

/-! ### The loops of `itrunc` -/

/-- What is left of an inode while its direct blocks are freed. -/
def rest (ip : Inode) (l : List ℕ) : Inode :=
  { ip with addrs := fun k => if k < NDIRECT ∧ k ∉ l then 0 else ip.addrs k }

/-- The direct blocks that are not in `l` have been freed. -/
structure Direct (sb : Superblock) (i : ℕ) (d : Disk) (l : List ℕ) (s : Disk) : Prop where
  nodup : l.Nodup
  lt {k : ℕ} : k ∈ l → k < NDIRECT
  cut : Cut sb i (fun k => k < NDIRECT ∧ k ∉ l) d s
  inode : s.inode i = rest (d.inode i) l

lemma wp_freeDirect (hd : Held sb d) (hv : d.valid i = true) {k : ℕ} {l : List ℕ}
    (h : Direct sb i d (k :: l) s) :
    Wp (freeDirect sb i k) (fun _ => False) (fun _ s' => Direct sb i d l s') s := by
  obtain ⟨hkl, hl⟩ := List.nodup_cons.mp h.nodup
  have hk : k < NDIRECT := h.lt List.mem_cons_self
  have hblk : d.blk i k = (s.inode i).addrs k := by
    rw [blk_direct hk, cur_of_valid hv, h.inode, rest]
    exact (if_neg fun hc => hc.2 List.mem_cons_self).symm
  have hmem : ∀ n, n ∉ l ↔ n ∉ k :: l ∨ n = k := by
    intro n
    rw [List.mem_cons, not_or]
    by_cases hn : n = k
    · subst hn
      exact iff_of_true hkl (Or.inr rfl)
    · simp [hn]
  refine wp_bind (wp_get (wp_ite (fun hz => wp_pure ?_) fun hne => ?_))
  · refine ⟨hl, fun hn => h.lt (List.mem_cons_of_mem k hn), h.cut.congr fun n hn => ?_, ?_⟩
    · have hnk : n ≠ k := by
        rintro rfl
        exact hn (hblk.trans hz)
      rw [hmem]
      simp [hnk]
    · rw [h.inode]
      refine Inode.ext rfl rfl rfl (funext fun n => ?_)
      by_cases hnk : n = k
      · subst hnk
        have haddr : (d.inode i).addrs n = 0 := by
          rw [← cur_of_valid hv, ← blk_direct hk, hblk, hz]
        simp [rest, hk, hkl, haddr]
      · simp [rest, hnk]
  · obtain ⟨hbit, hcut⟩ : s.bitmap ((s.inode i).addrs k) = true ∧
        Cut sb i (fun n => n < NDIRECT ∧ n ∉ l) d (s.setBit sb ((s.inode i).addrs k) false) :=
      h.cut.free hd (fun hc => hc.2 List.mem_cons_self) hblk hne fun n => by
        rw [hmem]
        constructor
        · rintro ⟨hn, hn' | rfl⟩
          · exact Or.inl ⟨hn, hn'⟩
          · exact Or.inr rfl
        · rintro (⟨hn, hn'⟩ | rfl)
          · exact ⟨hn, Or.inl hn'⟩
          · exact ⟨hk, Or.inr rfl⟩
    refine wp_bind (wp_bfree hbit (wp_modify ?_))
    refine ⟨hl, fun hn => h.lt (List.mem_cons_of_mem k hn), hcut.setInode _, ?_⟩
    have hself : ((s.setBit sb ((s.inode i).addrs k) false).setAddr i k 0).inode i =
        { s.inode i with addrs := Function.update (s.inode i).addrs k 0 } :=
      Function.update_self ..
    rw [hself, h.inode]
    refine Inode.ext rfl rfl rfl (funext fun n => ?_)
    by_cases hnk : n = k
    · subst hnk
      simp [rest, hk, hkl]
    · simp [rest, hnk]

/-- The blocks that an indirect block names, other than those in `l`, have been freed. -/
structure Indirect (sb : Superblock) (i : ℕ) (d s₀ : Disk) (l : List ℕ) (s : Disk) : Prop where
  nodup : l.Nodup
  lt {j : ℕ} : j ∈ l → j < NINDIRECT
  cut : Cut sb i (fun k => k < NDIRECT ∨ ∃ j < NINDIRECT, j ∉ l ∧ k = NDIRECT + j) d s
  inode : s.inode i = s₀.inode i

lemma wp_freeIndirect (hd : Held sb d) (hv : d.valid i = true) {s₀ : Disk}
    (ha : (d.inode i).addrs NDIRECT = a) (ha0 : a ≠ 0) {j : ℕ} {l : List ℕ}
    (h : Indirect sb i d s₀ (j :: l) s) :
    Wp (freeIndirect sb a j) (fun _ => False) (fun _ s' => Indirect sb i d s₀ l s') s := by
  obtain ⟨hjl, hl⟩ := List.nodup_cons.mp h.nodup
  have hj : j < NINDIRECT := h.lt List.mem_cons_self
  have haddr : (d.cur i).addrs NDIRECT = a := by rw [cur_of_valid hv, ha]
  have hblk : d.blk i (NDIRECT + j) = ((s.data a).word (4 * j)).toNat := by
    rw [blk_entry hj (haddr.trans_ne ha0), haddr, h.cut.data]
  have hslot : ∀ k, (∃ n < NINDIRECT, n ∉ l ∧ k = NDIRECT + n) ↔
      (∃ n < NINDIRECT, n ∉ j :: l ∧ k = NDIRECT + n) ∨ k = NDIRECT + j := by
    intro k
    constructor
    · rintro ⟨n, hn, hnl, rfl⟩
      by_cases hnj : n = j
      · exact Or.inr (by rw [hnj])
      · exact Or.inl ⟨n, hn, by simp [hnj, hnl], rfl⟩
    · rintro (⟨n, hn, hnl, rfl⟩ | rfl)
      · exact ⟨n, hn, fun hc => hnl (List.mem_cons_of_mem j hc), rfl⟩
      · exact ⟨j, hj, hjl, rfl⟩
  refine wp_bind (wp_get (wp_ite (fun hz => wp_pure ?_) fun hne => ?_))
  · refine ⟨hl, fun hn => h.lt (List.mem_cons_of_mem j hn), h.cut.congr fun k hk => ?_, h.inode⟩
    rw [hslot]
    have hkj : k ≠ NDIRECT + j := by
      rintro rfl
      exact hk (hblk.trans hz)
    simp only [hkj, or_false]
  · have hnot : ¬(NDIRECT + j < NDIRECT ∨
        ∃ n < NINDIRECT, n ∉ j :: l ∧ NDIRECT + j = NDIRECT + n) := by
      rintro (hc | ⟨n, -, hn, he⟩)
      · omega
      · exact hn (by rw [Nat.add_left_cancel he]; exact List.mem_cons_self)
    obtain ⟨hbit, hcut⟩ : s.bitmap ((s.data a).word (4 * j)).toNat = true ∧
        Cut sb i (fun k => k < NDIRECT ∨ ∃ n < NINDIRECT, n ∉ l ∧ k = NDIRECT + n) d
          (s.setBit sb ((s.data a).word (4 * j)).toNat false) :=
      h.cut.free hd hnot hblk hne fun k => by rw [hslot, or_assoc]
    exact wp_bfree hbit ⟨hl, fun hn => h.lt (List.mem_cons_of_mem j hn), hcut, h.inode⟩

/-! ### The whole of `itrunc` -/

/-- What `itrunc` leaves. -/
structure Emptied (sb : Superblock) (i : ℕ) (d s : Disk) : Prop where
  bitmap (b : ℕ) : s.bitmap b = true ↔ d.bitmap b = true ∧ ∀ k, d.blk i k ≠ 0 → d.blk i k ≠ b
  data : s.data = d.data
  valid : s.valid = d.valid
  other {j : ℕ} : j ≠ i → s.inode j = d.inode j
  type : (s.inode i).type = (d.inode i).type
  nlink : (s.inode i).nlink = (d.inode i).nlink
  size : (s.inode i).size = 0
  addrs {k : ℕ} : k ≤ NDIRECT → (s.inode i).addrs k = 0
  dinode : s.dinode = Function.update d.dinode i (s.inode i)
  logged {x : ℕ} : x ∈ s.logged →
    x ∈ d.logged ∨ x = sb.IBLOCK i ∨ ∃ k, d.blk i k ≠ 0 ∧ x = sb.BBLOCK (d.blk i k)

/-- The last statements of `itrunc`. -/
lemma Cut.emptied (h : Cut sb i (fun _ => True) d s) (htype : (s.inode i).type = (d.inode i).type)
    (hnlink : (s.inode i).nlink = (d.inode i).nlink)
    (haddr : ∀ k, k ≤ NDIRECT → (s.inode i).addrs k = 0) :
    Emptied sb i d ((s.setSize i 0).copyInode sb i) := by
  have hself : ((s.setSize i 0).copyInode sb i).inode i = { s.inode i with size := 0 } :=
    Function.update_self ..
  refine ⟨fun b => (h.bitmap b).trans (and_congr_right fun _ => by simp), h.data, h.valid,
    fun hj => (Function.update_of_ne hj ..).trans (h.other hj), ?_, ?_, ?_, fun {k} hk => ?_, ?_,
    fun {x} hx => ?_⟩
  · rw [hself, htype]
  · rw [hself, hnlink]
  · rw [hself]
  · rw [hself]
    exact haddr k hk
  · rw [← h.dinode]
    rfl
  · obtain rfl | hx := Finset.mem_insert.mp (show x ∈ insert (sb.IBLOCK i) s.logged from hx)
    · exact Or.inr (Or.inl rfl)
    · exact (h.logged hx).imp_right Or.inr

/-- `itrunc` frees the blocks of the inode, and panics nowhere. -/
lemma wp_itrunc (hd : Held sb d) (hv : d.valid i = true) :
    Wp (itrunc sb i) (fun _ => False) (fun _ => Emptied sb i d) d := by
  have hcur : d.cur i = d.inode i := cur_of_valid hv
  have hstart : Direct sb i d (List.range NDIRECT) d := by
    refine ⟨List.nodup_range, fun hk => List.mem_range.mp hk, .start fun k hk => ?_, ?_⟩
    · exact absurd (List.mem_range.mpr hk.1) hk.2
    · refine Inode.ext rfl rfl rfl (funext fun k => (if_neg fun hk => ?_).symm)
      exact hk.2 (List.mem_range.mpr hk.1)
  have hloop : Wp ((List.range NDIRECT).forM (freeDirect sb i)) (fun _ => False)
      (fun _ s => Direct sb i d [] s) d :=
    wp_forM (I := Direct sb i d) (fun k l s h => wp_freeDirect hd hv h) _ d hstart
  rw [itrunc]
  refine hloop.bind fun _ s hs => ?_
  refine wp_bind (wp_get ?_)
  have hind : (s.inode i).addrs NDIRECT = (d.inode i).addrs NDIRECT := by
    rw [hs.inode]
    simp [rest]
  have hdirect : ∀ k, k < NDIRECT → (s.inode i).addrs k = 0 := by
    intro k hk
    rw [hs.inode]
    exact if_pos ⟨hk, List.not_mem_nil⟩
  have htype : (s.inode i).type = (d.inode i).type := by rw [hs.inode, rest]
  have hnlink : (s.inode i).nlink = (d.inode i).nlink := by rw [hs.inode, rest]
  refine wp_ite (fun hz => ?_) fun hne => ?_
  · -- without an indirect block there are no other blocks
    rw [hind] at hz
    refine wp_bind (wp_modify (wp_modify (Cut.emptied (hs.cut.congr fun k hk => ?_) htype hnlink
      fun k hk => ?_)))
    · refine iff_of_true trivial ⟨?_, List.not_mem_nil⟩
      by_contra hlt
      refine hk ?_
      obtain hk' | ⟨j, hj, rfl⟩ | rfl | hk' := slot_cases k
      · exact absurd hk' hlt
      · exact blk_entry_of_zero hj (by rw [hcur, hz])
      · rw [blk_indirect, hcur, hz]
      · exact blk_of_gt hk'
    · rcases hk.lt_or_eq with hk | rfl
      · exact hdirect k hk
      · rw [hind, hz]
  · have ha0 : (d.inode i).addrs NDIRECT ≠ 0 := by rwa [hind] at hne
    have hstart' : Indirect sb i d s (List.range NINDIRECT) s := by
      refine ⟨List.nodup_range, fun hj => List.mem_range.mp hj, hs.cut.congr fun k _ => ?_, rfl⟩
      refine ⟨fun hk => ⟨hk.resolve_right ?_, List.not_mem_nil⟩, fun hk => Or.inl hk.1⟩
      rintro ⟨j, hj, hnot, -⟩
      exact hnot (List.mem_range.mpr hj)
    have hloop' : Wp ((List.range NINDIRECT).forM (freeIndirect sb ((s.inode i).addrs NDIRECT)))
        (fun _ => False) (fun _ s' => Indirect sb i d s [] s') s :=
      wp_forM (I := Indirect sb i d s)
        (fun j l s' h => wp_freeIndirect hd hv hind.symm hne h) _ s hstart'
    refine hloop'.bind fun _ s₂ hs₂ => ?_
    have hslot : d.blk i MAXFILE = (s.inode i).addrs NDIRECT := by
      rw [blk_indirect, hcur, hind]
    have hnot : ¬(MAXFILE < NDIRECT ∨
        ∃ j < NINDIRECT, j ∉ ([] : List ℕ) ∧ MAXFILE = NDIRECT + j) := by
      rintro (hc | ⟨j, hj, -, he⟩)
      · exact absurd hc (by decide)
      · exact absurd (Nat.add_left_cancel he) hj.ne'
    obtain ⟨hbit, hcut⟩ : s₂.bitmap ((s.inode i).addrs NDIRECT) = true ∧
        Cut sb i (fun k => (k < NDIRECT ∨ ∃ j < NINDIRECT, j ∉ ([] : List ℕ) ∧ k = NDIRECT + j) ∨
          k = MAXFILE) d (s₂.setBit sb ((s.inode i).addrs NDIRECT) false) :=
      hs₂.cut.free hd hnot hslot hne fun k => Iff.rfl
    refine wp_bind (wp_bfree hbit (wp_bind (wp_modify (wp_bind (wp_modify (wp_modify ?_))))))
    have hself : ((s₂.setBit sb ((s.inode i).addrs NDIRECT) false).setAddr i NDIRECT 0).inode i =
        { s₂.inode i with addrs := Function.update (s₂.inode i).addrs NDIRECT 0 } :=
      Function.update_self ..
    have hall : Cut sb i (fun _ => True) d
        ((s₂.setBit sb ((s.inode i).addrs NDIRECT) false).setAddr i NDIRECT 0) := by
      refine (hcut.setInode _).congr fun k hk => iff_of_true trivial ?_
      obtain hk' | ⟨j, hj, rfl⟩ | rfl | hk' := slot_cases k
      · exact Or.inl (Or.inl hk')
      · exact Or.inl (Or.inr ⟨j, hj, List.not_mem_nil, rfl⟩)
      · exact Or.inr rfl
      · exact absurd (blk_of_gt hk') hk
    rw [hs₂.inode] at hself
    refine hall.emptied ?_ ?_ fun k hk => ?_
    · rw [hself, ← htype]
    · rw [hself, ← hnlink]
    · rw [hself]
      change Function.update (s.inode i).addrs NDIRECT 0 k = 0
      rcases hk.lt_or_eq with hk | rfl
      · rw [Function.update_of_ne hk.ne, hdirect k hk]
      · rw [Function.update_self]

end Disk

end Xv6Projects.Fs
