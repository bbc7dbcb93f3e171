import Mathlib.Data.Set.Function
import Mathlib.Tactic
import Xv6Projects.Fs.Inode

/-!
# Which file has which block

A slot of an inode is a direct block, a block that the indirect block names, or the indirect block
itself.  No block is in two slots, the free map tells which blocks are in a slot, and `bmap`
fills an empty slot with a free block.
-/

namespace Xv6Projects.Fs

open Library

namespace Disk

/-- An inode as it is in memory, if it has been read, or else on disk. -/
def cur (d : Disk) (i : ℕ) : Inode := if d.valid i = true then d.inode i else d.dinode i

/-- The block in slot `k` of an inode; the indirect block is in slot `MAXFILE`. -/
def blk (d : Disk) (i k : ℕ) : ℕ :=
  if k < NDIRECT then (d.cur i).addrs k
  else if k = MAXFILE then (d.cur i).addrs NDIRECT
  else if k < MAXFILE ∧ (d.cur i).addrs NDIRECT ≠ 0 then
    ((d.data ((d.cur i).addrs NDIRECT)).word (4 * (k - NDIRECT))).toNat
  else 0

variable {d d' : Disk} {sb : Superblock} {i k b : ℕ}

lemma cur_of_valid (h : d.valid i = true) : d.cur i = d.inode i := if_pos h

lemma blk_direct (h : k < NDIRECT) : d.blk i k = (d.cur i).addrs k := if_pos h

lemma blk_indirect : d.blk i MAXFILE = (d.cur i).addrs NDIRECT := by
  rw [blk, if_neg (by decide), if_pos rfl]

lemma blk_entry {j : ℕ} (hj : j < NINDIRECT) (h : (d.cur i).addrs NDIRECT ≠ 0) :
    d.blk i (NDIRECT + j) = ((d.data ((d.cur i).addrs NDIRECT)).word (4 * j)).toNat := by
  have hlt : NDIRECT + j < MAXFILE := Nat.add_lt_add_left hj NDIRECT
  rw [blk, if_neg (Nat.not_lt.mpr (Nat.le_add_right ..)), if_neg hlt.ne, if_pos ⟨hlt, h⟩,
    Nat.add_sub_cancel_left]

lemma blk_entry_of_zero {j : ℕ} (hj : j < NINDIRECT) (h : (d.cur i).addrs NDIRECT = 0) :
    d.blk i (NDIRECT + j) = 0 := by
  have hlt : NDIRECT + j < MAXFILE := Nat.add_lt_add_left hj NDIRECT
  rw [blk, if_neg (Nat.not_lt.mpr (Nat.le_add_right ..)), if_neg hlt.ne, if_neg (by simp [h])]

lemma blk_of_gt (h : MAXFILE < k) : d.blk i k = 0 := by
  have hk : ¬k < NDIRECT := fun hk => absurd (h.trans hk) (by decide)
  rw [blk, if_neg hk, if_neg h.ne', if_neg (fun hc => absurd hc.1 (Nat.not_lt.mpr h.le))]

/-- A slot is direct, an entry of the indirect block, the indirect block, or none. -/
lemma slot_cases (k : ℕ) :
    k < NDIRECT ∨ (∃ j < NINDIRECT, k = NDIRECT + j) ∨ k = MAXFILE ∨ MAXFILE < k := by
  by_cases h : k < NDIRECT
  · exact Or.inl h
  · have hM : MAXFILE = NDIRECT + NINDIRECT := rfl
    by_cases h' : k < MAXFILE
    · exact Or.inr (Or.inl ⟨k - NDIRECT, by omega, by omega⟩)
    · exact Or.inr (Or.inr (by omega))

/-- A slot depends on the numbers in the inode and on the indirect block only. -/
lemma blk_congr (haddr : (d'.cur i).addrs = (d.cur i).addrs)
    (hdata : (d.cur i).addrs NDIRECT ≠ 0 →
      d'.data ((d.cur i).addrs NDIRECT) = d.data ((d.cur i).addrs NDIRECT)) :
    d'.blk i k = d.blk i k := by
  rw [blk, blk, haddr]
  by_cases hz : (d.cur i).addrs NDIRECT = 0
  · simp only [hz, ne_eq, not_true_eq_false, and_false, if_false]
  · rw [hdata hz]

/-- No block is in two slots, and the free map tells which blocks are in a slot. -/
structure Held (sb : Superblock) (d : Disk) : Prop where
  low {b : ℕ} : b < sb.nmeta → d.bitmap b = true
  inj {i k j l : ℕ} : d.blk i k ≠ 0 → d.blk i k = d.blk j l → i = j ∧ k = l
  used {i k : ℕ} : d.blk i k ≠ 0 →
    d.bitmap (d.blk i k) = true ∧ sb.nmeta ≤ d.blk i k ∧ d.blk i k < sb.size
  exact {b : ℕ} : sb.nmeta ≤ b → d.bitmap b = true → ∃ i k, d.blk i k = b

lemma Held.congr (h : Held sb d) (hblk : ∀ j l, d'.blk j l = d.blk j l)
    (hbit : d'.bitmap = d.bitmap) : Held sb d' := by
  refine ⟨fun hb => ?_, fun hne he => ?_, fun hne => ?_, fun hb hbb => ?_⟩
  · rw [hbit]
    exact h.low hb
  · rw [hblk] at hne
    rw [hblk, hblk] at he
    exact h.inj hne he
  · rw [hblk] at hne ⊢
    rw [hbit]
    exact h.used hne
  · rw [hbit] at hbb
    obtain ⟨i, k, hk⟩ := h.exact hb hbb
    exact ⟨i, k, (hblk i k).trans hk⟩

/-- A free block is a data block. -/
lemma Held.nmeta_le (h : Held sb d) (hb : d.bitmap b = false) : sb.nmeta ≤ b := by
  by_contra hlt
  exact absurd ((h.low (Nat.not_le.mp hlt)).symm.trans hb) (by simp)

lemma Held.ne_zero (h : Held sb d) (hb : d.bitmap b = false) : b ≠ 0 :=
  Nat.ne_of_gt (sb.pos.trans_le (h.nmeta_le hb))

/-- A free block is in no slot. -/
lemma Held.blk_ne (h : Held sb d) (hb : d.bitmap b = false) (i k : ℕ) : d.blk i k ≠ b := by
  rintro rfl
  exact absurd ((h.used (h.ne_zero hb)).1.symm.trans hb) (by simp)

/-- A free block is put into an empty slot. -/
lemma Held.attach (h : Held sb d) (hb : d.bitmap b = false) (hlt : b < sb.size)
    (hk : d.blk i k = 0) (hblk : ∀ j l, d'.blk j l = if j = i ∧ l = k then b else d.blk j l)
    (hbit : d'.bitmap = Function.update d.bitmap b true) : Held sb d' := by
  refine ⟨fun {c} hc => ?_, fun {j l j' l'} hne he => ?_, fun {j l} hne => ?_, fun {c} hc hcb => ?_⟩
  · rw [hbit]
    by_cases hcb : c = b
    · rw [hcb, Function.update_self]
    · rw [Function.update_of_ne hcb]
      exact h.low hc
  · rw [hblk] at hne
    rw [hblk, hblk] at he
    split_ifs at hne he with h₁ h₂ h₂
    · exact ⟨h₁.1.trans h₂.1.symm, h₁.2.trans h₂.2.symm⟩
    · exact absurd he.symm (h.blk_ne hb _ _)
    · exact absurd he (h.blk_ne hb _ _)
    · exact h.inj hne he
  · rw [hblk] at hne ⊢
    rw [hbit]
    split_ifs at hne ⊢ with h₁
    · exact ⟨Function.update_self .., h.nmeta_le hb, hlt⟩
    · rw [Function.update_of_ne (h.blk_ne hb _ _)]
      exact h.used hne
  · rw [hbit] at hcb
    by_cases hcb' : c = b
    · exact ⟨i, k, by rw [hblk, if_pos ⟨rfl, rfl⟩, hcb']⟩
    · rw [Function.update_of_ne hcb'] at hcb
      obtain ⟨j, l, hjl⟩ := h.exact hc hcb
      refine ⟨j, l, ?_⟩
      rw [hblk, if_neg, hjl]
      rintro ⟨rfl, rfl⟩
      rw [hk] at hjl
      exact absurd (sb.pos.trans_le (hc.trans_eq hjl.symm)) (lt_irrefl 0)

/-! ### A block is allocated -/

/-- The disk after `balloc` of block `b`. -/
def allocated (d : Disk) (sb : Superblock) (b : ℕ) : Disk :=
  (d.setBit sb b true).setData b fun _ => 0

lemma allocated_data_self : (d.allocated sb b).data b = fun _ => 0 := Function.update_self ..

lemma allocated_data_of_ne {c : ℕ} (h : c ≠ b) : (d.allocated sb b).data c = d.data c :=
  Function.update_of_ne h ..

lemma blk_allocated (h : Held sb d) (hb : d.bitmap b = false) (j l : ℕ) :
    (d.allocated sb b).blk j l = d.blk j l := by
  refine blk_congr rfl fun _ => allocated_data_of_ne ?_
  rw [← blk_indirect]
  exact h.blk_ne hb _ _

lemma setAddr_cur_of_ne {n a j : ℕ} (h : j ≠ i) : (d.setAddr i n a).cur j = d.cur j := by
  have : (d.setAddr i n a).inode j = d.inode j := Function.update_of_ne h ..
  rw [cur, cur, this]
  rfl

lemma setAddr_addrs (hv : d.valid i = true) {n a : ℕ} :
    ((d.setAddr i n a).cur i).addrs = Function.update (d.cur i).addrs n a := by
  have hv' : (d.setAddr i n a).valid i = true := hv
  have hself : (d.setAddr i n a).inode i =
      { d.inode i with addrs := Function.update (d.inode i).addrs n a } :=
    Function.update_self ..
  rw [cur_of_valid hv, cur_of_valid hv', hself]

/-- The slot of the block number at an index of an inode. -/
def slot (n : ℕ) : ℕ := if n = NDIRECT then MAXFILE else n

/-- A number is put into an inode. -/
lemma blk_setAddr (hv : d.valid i = true) {n : ℕ} (hn : n ≤ NDIRECT) (hz : (d.cur i).addrs n = 0)
    (hb : b ≠ 0) (hzero : n = NDIRECT → d.data b = fun _ => 0) (j l : ℕ) :
    (d.setAddr i n b).blk j l = if j = i ∧ l = slot n then b else d.blk j l := by
  by_cases hj : j = i
  · subst hj
    have haddr := setAddr_addrs hv (n := n) (a := b)
    by_cases hN : n = NDIRECT
    · -- the indirect block: it names no block yet
      subst hN
      rw [slot, if_pos rfl]
      have hself : ((d.setAddr j NDIRECT b).cur j).addrs NDIRECT = b := by
        rw [haddr, Function.update_self]
      obtain hl | ⟨m, hm, rfl⟩ | rfl | hl := slot_cases l
      · have hlM : l ≠ MAXFILE := fun he => absurd (he ▸ hl) (by decide)
        rw [if_neg fun hc => hlM hc.2, blk_direct hl, blk_direct hl, haddr,
          Function.update_of_ne hl.ne]
      · have hlM : NDIRECT + m ≠ MAXFILE := (Nat.add_lt_add_left hm NDIRECT).ne
        have hword : ((d.data b).word (4 * m)).toNat = 0 := by
          rw [hzero rfl]
          rfl
        rw [if_neg fun hc => hlM hc.2, blk_entry_of_zero hm hz, blk_entry hm (hself.trans_ne hb),
          hself]
        exact hword
      · rw [if_pos ⟨rfl, rfl⟩, blk_indirect, hself]
      · rw [if_neg fun hc => hl.ne' hc.2, blk_of_gt hl, blk_of_gt hl]
    · have hlt : n < NDIRECT := lt_of_le_of_ne hn hN
      have hsame : ((d.setAddr j n b).cur j).addrs NDIRECT = (d.cur j).addrs NDIRECT := by
        rw [haddr, Function.update_of_ne (Ne.symm hN)]
      rw [slot, if_neg hN]
      obtain hl | ⟨m, hm, rfl⟩ | rfl | hl := slot_cases l
      · rw [blk_direct hl, blk_direct hl, haddr]
        by_cases hln : l = n
        · rw [if_pos ⟨rfl, hln⟩, hln, Function.update_self]
        · rw [if_neg fun hc => hln hc.2, Function.update_of_ne hln]
      · have hln : NDIRECT + m ≠ n := by omega
        rw [if_neg fun hc => hln hc.2]
        by_cases ha : (d.cur j).addrs NDIRECT = 0
        · rw [blk_entry_of_zero hm ha, blk_entry_of_zero hm (hsame.trans ha)]
        · rw [blk_entry hm ha, blk_entry hm (hsame.trans_ne ha), hsame]
          rfl
      · have hln : MAXFILE ≠ n := fun he => absurd (he ▸ hlt) (by decide)
        rw [if_neg fun hc => hln hc.2, blk_indirect, blk_indirect, hsame]
      · have hln : l ≠ n := fun he => absurd (hl.trans (he ▸ hlt)) (by decide)
        rw [if_neg fun hc => hln hc.2, blk_of_gt hl, blk_of_gt hl]
  · rw [if_neg fun hc => hj hc.1]
    exact blk_congr (congrArg Inode.addrs (setAddr_cur_of_ne hj)) fun _ => rfl

/-- A number is put into an indirect block, which no other inode has. -/
lemma blk_setEntry {a m : ℕ} (ha : (d.cur i).addrs NDIRECT = a) (ha0 : a ≠ 0)
    (hother : ∀ j, j ≠ i → (d.cur j).addrs NDIRECT ≠ a) (hm : m < NINDIRECT)
    (hb : b < UInt32.size) (j l : ℕ) :
    (d.setData a ((d.data a).setWord (4 * m) (UInt32.ofNat b))).blk j l =
      if j = i ∧ l = NDIRECT + m then b else d.blk j l := by
  have hself : (d.setData a ((d.data a).setWord (4 * m) (UInt32.ofNat b))).data a =
      (d.data a).setWord (4 * m) (UInt32.ofNat b) := Function.update_self ..
  by_cases hj : j = i
  · subst hj
    have hcur : (d.setData a ((d.data a).setWord (4 * m) (UInt32.ofNat b))).cur j = d.cur j := rfl
    obtain hl | ⟨n, hn, rfl⟩ | rfl | hl := slot_cases l
    · have hlM : l ≠ NDIRECT + m := by omega
      rw [if_neg fun hc => hlM hc.2, blk_direct hl, blk_direct hl, hcur]
    · rw [blk_entry hn (by rw [hcur, ha]; exact ha0), blk_entry hn (by rw [ha]; exact ha0), hcur,
        ha, hself]
      by_cases hnm : n = m
      · rw [if_pos ⟨rfl, by rw [hnm]⟩, hnm, Threads.Memory.word_setWord,
          UInt32.toNat_ofNat_of_lt' hb]
      · rw [if_neg fun hc => hnm (Nat.add_left_cancel hc.2),
          Threads.Memory.word_setWord_of_apart _ _ (by omega)]
    · have hlM : MAXFILE ≠ NDIRECT + m := (Nat.add_lt_add_left hm NDIRECT).ne'
      rw [if_neg fun hc => hlM hc.2, blk_indirect, blk_indirect, hcur]
    · have hlM : l ≠ NDIRECT + m := ((Nat.add_lt_add_left hm NDIRECT).trans hl).ne'
      rw [if_neg fun hc => hlM hc.2, blk_of_gt hl, blk_of_gt hl]
  · rw [if_neg fun hc => hj hc.1]
    exact blk_congr rfl fun _ => Function.update_of_ne (hother j hj) ..

/-! ### The specification of `bmap` -/

/-- Inode `i` has got more blocks; what the files hold is as before. -/
structure Grown (i : ℕ) (d d' : Disk) : Prop where
  blk {j k : ℕ} : d.blk j k ≠ 0 → d'.blk j k = d.blk j k
  other {j k : ℕ} : j ≠ i → d'.blk j k = d.blk j k
  data {j k : ℕ} : k < MAXFILE → d.blk j k ≠ 0 → d'.data (d.blk j k) = d.data (d.blk j k)
  inode : ∃ f, d'.inode = Function.update d.inode i { d.inode i with addrs := f }
  dinode : d'.dinode = d.dinode
  valid : d'.valid = d.valid

lemma Grown.refl (i : ℕ) (d : Disk) : Grown i d d :=
  ⟨fun _ => rfl, fun _ => rfl, fun _ _ => rfl,
    ⟨(d.inode i).addrs, (Function.update_eq_self ..).symm⟩, rfl, rfl⟩

lemma Grown.trans {d'' : Disk} (h : Grown i d d') (h' : Grown i d' d'') : Grown i d d'' := by
  refine ⟨fun hne => ?_, fun hj => (h'.other hj).trans (h.other hj), fun {j k} hk hne => ?_, ?_,
    h'.dinode.trans h.dinode, h'.valid.trans h.valid⟩
  · rw [h'.blk (by rwa [h.blk hne]), h.blk hne]
  · have hb := h.blk hne
    have := h'.data hk (by rwa [hb])
    rw [hb] at this
    exact this.trans (h.data hk hne)
  · obtain ⟨f, hf⟩ := h.inode
    obtain ⟨g, hg⟩ := h'.inode
    refine ⟨g, ?_⟩
    rw [hg, hf, Function.update_self, Function.update_idem]

/-- A free block is put into an empty slot of `i`; only this block and the indirect block of `i` may
have changed. -/
lemma Grown.attach (h : Held sb d) (hb : d.bitmap b = false) (hk : d.blk i k = 0)
    (hblk : ∀ j l, d'.blk j l = if j = i ∧ l = k then b else d.blk j l)
    (hdata : ∀ c, c ≠ b → c ≠ d.blk i MAXFILE → d'.data c = d.data c)
    (hinode : ∃ f, d'.inode = Function.update d.inode i { d.inode i with addrs := f })
    (hdinode : d'.dinode = d.dinode) (hvalid : d'.valid = d.valid) : Grown i d d' := by
  refine ⟨fun {j l} hne => ?_, fun {j l} hj => ?_, fun {j l} hl hne => ?_, hinode, hdinode, hvalid⟩
  · rw [hblk, if_neg]
    rintro ⟨rfl, rfl⟩
    exact hne hk
  · rw [hblk, if_neg fun hc => hj hc.1]
  · refine hdata _ (h.blk_ne hb _ _) fun he => ?_
    exact hl.ne (h.inj hne he).2

/-- A block that is logged when block `b` is allocated or written. -/
def Logs (sb : Superblock) (b x : ℕ) : Prop := b ≠ 0 ∧ (x = b ∨ x = sb.BBLOCK b)

/-- What `bmap` leaves, and the blocks that it has logged. -/
structure Mapped (sb : Superblock) (i bn : ℕ) (d : Disk) (a : ℕ) (d' : Disk) : Prop where
  held : Held sb d'
  grown : Grown i d d'
  blk : d'.blk i bn = a
  ne_zero : a ≠ 0
  fixed : d.blk i bn ≠ 0 → d' = d
  logged {x : ℕ} : x ∈ d'.logged →
    x ∈ d.logged ∨ Logs sb a x ∨ Logs sb (d'.blk i MAXFILE) x

lemma wp_balloc {Q : ℕ → Disk → Prop}
    (h : ∀ b, d.bitmap b = false → b < sb.size → Q b (d.allocated sb b)) :
    Wp (balloc sb) (· = .outOfBlocks) Q d := by
  refine wp_bind (wp_get ?_)
  cases hf : (List.range sb.size).find? fun b => !d.bitmap b with
  | none => exact wp_throw rfl
  | some b =>
    have hb : d.bitmap b = false := by simpa using List.find?_some hf
    have hlt : b < sb.size := List.mem_range.mp (List.mem_of_find?_eq_some hf)
    exact wp_bind (wp_modify (wp_bind (wp_modify (wp_pure (h b hb hlt)))))

lemma wp_addr {n : ℕ} {Q : ℕ → Disk → Prop}
    (hold : (d.inode i).addrs n ≠ 0 → Q ((d.inode i).addrs n) d)
    (hnew : (d.inode i).addrs n = 0 → ∀ b, d.bitmap b = false → b < sb.size →
      Q b ((d.allocated sb b).setAddr i n b)) :
    Wp (addr sb i n) (· = .outOfBlocks) Q d := by
  refine wp_bind (wp_get (wp_ite (fun hz => ?_) fun hne => wp_pure (hold hne)))
  exact wp_bind (wp_balloc fun b hb hlt => wp_bind (wp_modify (wp_pure (hnew hz b hb hlt))))

/-- A block is allocated for a number in the inode. -/
lemma mapped_addr (h : Held sb d) (hv : d.valid i = true) {n : ℕ} (hn : n ≤ NDIRECT)
    (hz : (d.cur i).addrs n = 0) (hb : d.bitmap b = false) (hlt : b < sb.size) :
    Mapped sb i (slot n) d b ((d.allocated sb b).setAddr i n b) := by
  have hb0 := h.ne_zero hb
  have hblk : ∀ j l, ((d.allocated sb b).setAddr i n b).blk j l =
      if j = i ∧ l = slot n then b else d.blk j l := by
    intro j l
    rw [blk_setAddr (d := d.allocated sb b) hv hn hz hb0 (fun _ => allocated_data_self),
      blk_allocated h hb]
  have hslot : d.blk i (slot n) = 0 := by
    rw [slot]
    split_ifs with hN
    · rw [blk_indirect, ← hN, hz]
    · rw [blk_direct (lt_of_le_of_ne hn hN), hz]
  refine ⟨h.attach hb hlt hslot hblk rfl, .attach h hb hslot hblk (fun c hc _ => ?_)
    ⟨_, rfl⟩ rfl rfl, ?_, hb0, fun hne => absurd hslot hne, ?_⟩
  · exact allocated_data_of_ne hc
  · rw [hblk, if_pos ⟨rfl, rfl⟩]
  · intro x hx
    have hx' : x ∈ insert b (insert (sb.BBLOCK b) d.logged) := hx
    rw [Finset.mem_insert, Finset.mem_insert] at hx'
    obtain hx' | hx' | hx' := hx'
    · exact Or.inr (Or.inl ⟨hb0, Or.inl hx'⟩)
    · exact Or.inr (Or.inl ⟨hb0, Or.inr hx'⟩)
    · exact Or.inl hx'

/-- A block is allocated for a number in the indirect block. -/
lemma mapped_entry (h : Held sb d) {a m : ℕ} (ha : (d.cur i).addrs NDIRECT = a) (ha0 : a ≠ 0)
    (hm : m < NINDIRECT) (hz : ((d.data a).word (4 * m)).toNat = 0) (hb : d.bitmap b = false)
    (hlt : b < sb.size) :
    Mapped sb i (NDIRECT + m) d b ((d.allocated sb b).setData a
      (((d.allocated sb b).data a).setWord (4 * m) (UInt32.ofNat b))) := by
  have hb0 := h.ne_zero hb
  have hai : d.blk i MAXFILE = a := blk_indirect.trans ha
  have hother : ∀ j, j ≠ i → (d.cur j).addrs NDIRECT ≠ a := by
    intro j hj hja
    rw [← blk_indirect, ← hai] at hja
    exact hj (h.inj (by rwa [hja, hai]) hja).1
  have hblk : ∀ j l, ((d.allocated sb b).setData a
      (((d.allocated sb b).data a).setWord (4 * m) (UInt32.ofNat b))).blk j l =
      if j = i ∧ l = NDIRECT + m then b else d.blk j l := by
    intro j l
    rw [blk_setEntry (d := d.allocated sb b) ha ha0 hother hm (hlt.trans sb.lt), blk_allocated h hb]
  have hslot : d.blk i (NDIRECT + m) = 0 := by
    rw [blk_entry hm (by rwa [ha]), ha, hz]
  have hM : (MAXFILE : ℕ) ≠ NDIRECT + m := (Nat.add_lt_add_left hm NDIRECT).ne'
  refine ⟨h.attach hb hlt hslot hblk rfl, .attach h hb hslot hblk (fun c hc hca => ?_)
    ⟨(d.inode i).addrs, (Function.update_eq_self ..).symm⟩ rfl rfl, ?_, hb0,
    fun hne => absurd hslot hne, ?_⟩
  · rw [hai] at hca
    exact (Function.update_of_ne hca ..).trans (allocated_data_of_ne hc)
  · rw [hblk, if_pos ⟨rfl, rfl⟩]
  · intro x hx
    have hx' : x ∈ insert a (insert b (insert (sb.BBLOCK b) d.logged)) := hx
    rw [hblk, if_neg fun he => hM he.2, hai]
    rw [Finset.mem_insert, Finset.mem_insert, Finset.mem_insert] at hx'
    obtain hx' | hx' | hx' | hx' := hx'
    · exact Or.inr (Or.inr ⟨ha0, Or.inl hx'⟩)
    · exact Or.inr (Or.inl ⟨hb0, Or.inl hx'⟩)
    · exact Or.inr (Or.inl ⟨hb0, Or.inr hx'⟩)
    · exact Or.inl hx'

/-- A block that is there already. -/
lemma mapped_old (h : Held sb d) {bn a : ℕ} (ha : d.blk i bn = a) (ha0 : a ≠ 0) :
    Mapped sb i bn d a d :=
  ⟨h, .refl i d, ha, ha0, fun _ => rfl, Or.inl⟩

/-- `bmap` returns the block in a slot, which it fills if it is empty. -/
lemma wp_bmap (h : Held sb d) (hv : d.valid i = true) {bn : ℕ} (hbn : bn < MAXFILE) :
    Wp (bmap sb i bn) (· = .outOfBlocks) (Mapped sb i bn d) d := by
  have hcur : ∀ n, (d.inode i).addrs n = (d.cur i).addrs n := fun n => by rw [cur_of_valid hv]
  rw [bmap]
  refine wp_ite (fun hlt => ?_) fun hge => ?_
  · -- a direct block
    have hslot : slot bn = bn := if_neg hlt.ne
    refine wp_addr (fun hne => ?_) fun hz b hb hbs => ?_
    · rw [hcur] at hne ⊢
      exact mapped_old h (blk_direct hlt) hne
    · have := mapped_addr h hv hlt.le (by rwa [← hcur]) hb hbs
      rwa [hslot] at this
  · obtain ⟨m, rfl⟩ := Nat.exists_eq_add_of_le (Nat.not_lt.mp hge)
    have hm : m < NINDIRECT := Nat.lt_of_add_lt_add_left hbn
    simp only [Nat.add_sub_cancel_left]
    refine wp_ite (fun _ => ?_) fun hc => absurd hm hc
    refine wp_bind (wp_addr (fun hne => ?_) fun hz b hb hbs => ?_)
    · -- the indirect block is there
      rw [hcur] at hne ⊢
      refine wp_bind (wp_get (wp_ite (fun hz => ?_) fun hw => wp_pure ?_))
      · exact wp_bind (wp_balloc fun b hb hbs => wp_bind (wp_modify (wp_pure
          (mapped_entry h rfl hne hm hz hb hbs))))
      · exact mapped_old h (blk_entry hm hne) hw
    · -- the indirect block is new, and names no block
      have hnew := mapped_addr h hv le_rfl (by rwa [← hcur]) hb hbs
      have hind : (((d.allocated sb b).setAddr i NDIRECT b).cur i).addrs NDIRECT = b := by
        rw [setAddr_addrs (d := d.allocated sb b) hv, Function.update_self]
      have hzero : ((((d.allocated sb b).setAddr i NDIRECT b).data b).word (4 * m)).toNat = 0 := by
        have : ((d.allocated sb b).setAddr i NDIRECT b).data b = fun _ => 0 := allocated_data_self
        rw [this]
        rfl
      refine wp_bind (wp_get (wp_ite (fun _ => ?_) fun hw => absurd hzero hw))
      refine wp_bind (wp_balloc fun c hc hcs => wp_bind (wp_modify (wp_pure ?_)))
      have hent := mapped_entry hnew.held hind hnew.ne_zero hm hzero hc hcs
      have hslot : d.blk i (NDIRECT + m) = 0 := by
        rw [blk_entry_of_zero hm (by rwa [← hcur])]
      refine ⟨hent.held, hnew.grown.trans hent.grown, hent.blk, hent.ne_zero,
        fun hne => absurd hslot hne, fun {x} hx => ?_⟩
      have hblk : ((d.allocated sb b).setAddr i NDIRECT b).blk i MAXFILE = b := hnew.blk
      have hblk' := hent.grown.blk (by rw [hblk]; exact hnew.ne_zero)
      rw [hblk] at hblk'
      obtain hx | hx | hx := hent.logged hx
      · obtain hx | hx | hx := hnew.logged hx
        · exact Or.inl hx
        · rw [hblk']
          exact Or.inr (Or.inr hx)
        · rw [hblk] at hx
          rw [hblk']
          exact Or.inr (Or.inr hx)
      · exact Or.inr (Or.inl hx)
      · exact Or.inr (Or.inr hx)

end Disk

end Xv6Projects.Fs
