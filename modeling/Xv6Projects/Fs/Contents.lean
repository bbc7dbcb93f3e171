import Mathlib.Data.List.GetD
import Xv6Projects.Fs.Mapping

/-!
# What a file holds

The bytes of a file, over its blocks; what the loops of `readi` and `writei` do to them, and which
blocks the latter logs.
-/

namespace Xv6Projects.Fs

open Library

namespace Disk

variable {d d' d'' : Disk} {sb : Superblock} {i off : ℕ} {src : List UInt8}

/-- The byte of a file at an offset. -/
def byteAt (d : Disk) (i o : ℕ) : UInt8 := d.data (d.blk i (o / BSIZE)) (o % BSIZE)

/-- The bytes of a file. -/
def content (d : Disk) (i : ℕ) : List UInt8 := (List.range (d.cur i).size).map (d.byteAt i)

@[simp] lemma length_content : (d.content i).length = (d.cur i).size := by
  rw [content, List.length_map, List.length_range]

/-- Offsets in one block. -/
lemma div_add {j : ℕ} (h : off % BSIZE + j < BSIZE) :
    (off + j) / BSIZE = off / BSIZE ∧ (off + j) % BSIZE = off % BSIZE + j := by
  simp only [BSIZE] at *
  omega

lemma div_lt_maxfile {o : ℕ} (h : o < MAXFILE * BSIZE) : o / BSIZE < MAXFILE :=
  Nat.div_lt_of_lt_mul (by rwa [Nat.mul_comm])

lemma mod_lt_bsize (o : ℕ) : o % BSIZE < BSIZE := Nat.mod_lt o (by decide)

/-! ### Reading -/

/-- `bmap` of a block that is there changes nothing. -/
lemma wp_bmap_old (hv : d.valid i = true) {bn : ℕ} (hbn : bn < MAXFILE) (hne : d.blk i bn ≠ 0) :
    Wp (bmap sb i bn) (fun _ => False) (fun a s => a = d.blk i bn ∧ s = d) d := by
  have hcur : d.cur i = d.inode i := cur_of_valid hv
  have haddr : ∀ n, (d.inode i).addrs n ≠ 0 →
      Wp (addr sb i n) (fun _ => False) (fun a s => a = (d.inode i).addrs n ∧ s = d) d :=
    fun n hn => wp_bind (wp_get (wp_ite (fun hz => absurd hz hn) fun _ => wp_pure ⟨rfl, rfl⟩))
  rw [bmap]
  refine wp_ite (fun hlt => ?_) fun hge => ?_
  · rw [blk_direct hlt, hcur] at hne ⊢
    exact haddr bn hne
  · obtain ⟨m, rfl⟩ := Nat.exists_eq_add_of_le (Nat.not_lt.mp hge)
    have hm : m < NINDIRECT := Nat.lt_of_add_lt_add_left hbn
    simp only [Nat.add_sub_cancel_left]
    refine wp_ite (fun _ => ?_) fun hc => absurd hm hc
    have hind : (d.inode i).addrs NDIRECT ≠ 0 := by
      intro hz
      exact hne (blk_entry_of_zero hm (by rwa [hcur]))
    refine (haddr NDIRECT hind).bind ?_
    rintro a s ⟨rfl, rfl⟩
    rw [blk_entry hm (by rwa [hcur]), hcur] at hne ⊢
    exact wp_bind (wp_get (wp_ite (fun hz => absurd hz hne) fun _ => wp_pure ⟨rfl, rfl⟩))

/-- The loop of `readi` returns the bytes of the file, and changes nothing. -/
lemma wp_readLoop (hv : d.valid i = true) (n : ℕ) : ∀ off, off + n ≤ MAXFILE * BSIZE →
    (∀ o, off ≤ o → o < off + n → d.blk i (o / BSIZE) ≠ 0) →
    Wp (readLoop sb i off n) (fun _ => False)
      (fun bytes s => bytes = (List.range n).map (fun j => d.byteAt i (off + j)) ∧ s = d) d := by
  induction n using Nat.strong_induction_on with
  | _ n ih =>
  intro off hle hblk
  rw [readLoop]
  refine wp_ite (fun hz => ?_) fun hn => ?_
  · subst hz
    exact wp_pure ⟨rfl, rfl⟩
  · have hlt := mod_lt_bsize off
    have hbn : off / BSIZE < MAXFILE := div_lt_maxfile (by omega)
    refine (wp_bmap_old hv hbn (hblk off le_rfl (by omega))).bind ?_
    rintro a s ⟨rfl, rfl⟩
    refine wp_bind (wp_get ?_)
    generalize hm : min n (BSIZE - off % BSIZE) = m
    have hrest := ih (n - m) (by omega) (off + m) (by omega) fun o ho hon =>
      hblk o (by omega) (by omega)
    refine hrest.bind ?_
    rintro rest s ⟨rfl, rfl⟩
    refine wp_pure ⟨?_, rfl⟩
    have hn' : n = m + (n - m) := by omega
    conv_rhs => rw [hn', List.range_add, List.map_append, List.map_map]
    congr 1
    · refine List.map_congr_left fun j hj => ?_
      have hin : off % BSIZE + j < BSIZE := by
        have := List.mem_range.mp hj
        omega
      rw [byteAt, (div_add hin).1, (div_add hin).2]
    · refine List.map_congr_left fun j _ => ?_
      rw [Function.comp_apply, Nat.add_assoc]

/-! ### Writing -/

/-- What the loop of `writei` leaves, when it has written `src` from offset `off` on. -/
structure Written (sb : Superblock) (i off : ℕ) (src : List UInt8) (d d' : Disk) : Prop where
  held : Held sb d'
  blk {j k : ℕ} : d.blk j k ≠ 0 → d'.blk j k = d.blk j k
  other {j k : ℕ} : j ≠ i → d'.blk j k = d.blk j k
  reached {o : ℕ} : off ≤ o → o < off + src.length → d'.blk i (o / BSIZE) ≠ 0
  byte {o : ℕ} : off ≤ o → o < off + src.length → d'.byteAt i o = src.getD (o - off) 0
  byte_off {o : ℕ} : o / BSIZE < MAXFILE → d.blk i (o / BSIZE) ≠ 0 →
    o < off ∨ off + src.length ≤ o → d'.byteAt i o = d.byteAt i o
  data {j k : ℕ} : j ≠ i → k < MAXFILE → d.blk j k ≠ 0 →
    d'.data (d.blk j k) = d.data (d.blk j k)
  inode : ∃ f, d'.inode = Function.update d.inode i { d.inode i with addrs := f }
  fixed : (∀ o, off ≤ o → o < off + src.length → d.blk i (o / BSIZE) ≠ 0) → d'.inode = d.inode
  dinode : d'.dinode = d.dinode
  valid : d'.valid = d.valid
  logged {x : ℕ} : x ∈ d'.logged → x ∈ d.logged ∨
    (∃ o, off ≤ o ∧ o < off + src.length ∧ Logs sb (d'.blk i (o / BSIZE)) x) ∨
    Logs sb (d'.blk i MAXFILE) x

lemma Written.nil (h : Held sb d) : Written sb i off [] d d :=
  ⟨h, fun _ => rfl, fun _ => rfl, fun h₁ h₂ => absurd h₁ (Nat.not_le.mpr h₂),
    fun h₁ h₂ => absurd h₁ (Nat.not_le.mpr h₂), fun _ _ _ => rfl, fun _ _ _ => rfl,
    ⟨_, (Function.update_eq_self ..).symm⟩, fun _ => rfl, rfl, rfl, fun hx => Or.inl hx⟩

/-- Two parts, one after the other. -/
lemma Written.append {src' : List UInt8} (h : Written sb i off src d d')
    (h' : Written sb i (off + src.length) src' d' d'')
    (hle : off + src.length + src'.length ≤ MAXFILE * BSIZE) :
    Written sb i off (src ++ src') d d'' := by
  have hlen : off + (src ++ src').length = off + src.length + src'.length := by
    rw [List.length_append, Nat.add_assoc]
  have hfst : ∀ o, off ≤ o → o < off + src.length → d''.blk i (o / BSIZE) = d'.blk i (o / BSIZE) :=
    fun o h₁ h₂ => h'.blk (h.reached h₁ h₂)
  have hM : ∀ o, o < off + src.length + src'.length → o / BSIZE < MAXFILE :=
    fun o ho => div_lt_maxfile (ho.trans_le hle)
  refine ⟨h'.held, fun hne => ?_, fun hj => (h'.other hj).trans (h.other hj), fun {o} h₁ h₂ => ?_,
    fun {o} h₁ h₂ => ?_, fun {o} hoM hne ho => ?_, fun {j k} hj hk hne => ?_, ?_, fun hall => ?_,
    h'.dinode.trans h.dinode, h'.valid.trans h.valid, fun {x} hx => ?_⟩
  · rw [h'.blk (by rwa [h.blk hne]), h.blk hne]
  · rw [hlen] at h₂
    by_cases ho : o < off + src.length
    · rw [hfst o h₁ ho]
      exact h.reached h₁ ho
    · exact h'.reached (Nat.not_lt.mp ho) h₂
  · rw [hlen] at h₂
    by_cases ho : o < off + src.length
    · rw [h'.byte_off (hM o h₂) (h.reached h₁ ho) (Or.inl ho), h.byte h₁ ho,
        List.getD_append _ _ _ _ (by omega)]
    · rw [h'.byte (Nat.not_lt.mp ho) h₂, List.getD_append_right _ _ _ _ (by omega)]
      congr 1
      omega
  · rw [hlen] at ho
    rw [h'.byte_off hoM (by rwa [h.blk hne]) (by omega), h.byte_off hoM hne (by omega)]
  · have hb := h.blk hne
    have := h'.data hj hk (by rwa [hb])
    rw [hb] at this
    exact this.trans (h.data hj hk hne)
  · obtain ⟨f, hf⟩ := h.inode
    obtain ⟨g, hg⟩ := h'.inode
    refine ⟨g, ?_⟩
    rw [hg, hf, Function.update_self, Function.update_idem]
  · rw [hlen] at hall
    have h₁ := h.fixed fun o ho ho' => hall o ho (by omega)
    refine (h'.fixed fun o ho ho' => ?_).trans h₁
    have hne := hall o (by omega) ho'
    rwa [h.blk hne]
  · obtain hx | ⟨o, h₁, h₂, hx⟩ | hx := h'.logged hx
    · obtain hx | ⟨o, h₁, h₂, hx⟩ | hx := h.logged hx
      · exact Or.inl hx
      · refine Or.inr (Or.inl ⟨o, h₁, by omega, ?_⟩)
        rwa [hfst o h₁ h₂]
      · rw [← h'.blk hx.1] at hx
        exact Or.inr (Or.inr hx)
    · exact Or.inr (Or.inl ⟨o, by omega, by omega, hx⟩)
    · exact Or.inr (Or.inr hx)

/-- The bytes that are written to one block. -/
lemma Mapped.written {a : ℕ} (h : Mapped sb i (off / BSIZE) d a d') (hM : off / BSIZE < MAXFILE)
    (hlen : off % BSIZE + src.length ≤ BSIZE) (hpos : 0 < src.length) :
    Written sb i off src d (d'.setData a (memmove (d'.data a) (off % BSIZE) src)) := by
  generalize hx : memmove (d'.data a) (off % BSIZE) src = x
  have hself : (d'.setData a x).data a = x := Function.update_self ..
  have hdata : ∀ c, c ≠ a → (d'.setData a x).data c = d'.data c :=
    fun c hc => Function.update_of_ne hc ..
  -- the block is in slot `off / BSIZE` of inode `i`, and in no other one
  have hne : ∀ j k, d'.blk j k ≠ 0 → ¬(j = i ∧ k = off / BSIZE) → d'.blk j k ≠ a := by
    intro j k hjk hnot he
    exact hnot (h.held.inj hjk (he.trans h.blk.symm))
  have hblk : ∀ j k, (d'.setData a x).blk j k = d'.blk j k := by
    refine fun j k => blk_congr rfl fun hz => hdata _ ?_
    rw [← blk_indirect] at hz ⊢
    exact hne j MAXFILE hz fun hc => hM.ne' hc.2
  have hold : ∀ j k, d.blk j k ≠ 0 → (d'.setData a x).blk j k = d.blk j k :=
    fun j k hjk => (hblk j k).trans (h.grown.blk hjk)
  have hin : ∀ o, off ≤ o → o < off + src.length →
      o / BSIZE = off / BSIZE ∧ o % BSIZE = off % BSIZE + (o - off) := by
    intro o h₁ h₂
    have hmod : off % BSIZE + (o - off) < BSIZE := by omega
    have := div_add hmod
    rwa [Nat.add_sub_cancel' h₁] at this
  refine ⟨h.held.congr hblk rfl, fun {j k} => hold j k, fun {j k} hj => (hblk j k).trans
    (h.grown.other hj), fun {o} h₁ h₂ => ?_, fun {o} h₁ h₂ => ?_, fun {o} hoM hbo ho => ?_,
    fun {j k} hj hk hjk => ?_, h.grown.inode, fun hall => ?_, h.grown.dinode, h.grown.valid,
    fun {y} hy => ?_⟩
  · rw [(hin o h₁ h₂).1, hblk, h.blk]
    exact h.ne_zero
  · obtain ⟨hdiv, hmod⟩ := hin o h₁ h₂
    rw [byteAt, hdiv, hmod, hblk, h.blk, hself, ← hx, memmove, if_pos (by omega)]
    congr 1
    omega
  · rw [byteAt, byteAt, hold _ _ hbo]
    by_cases hdiv : o / BSIZE = off / BSIZE
    · have hfix := h.fixed (hdiv ▸ hbo)
      have ha : d.blk i (o / BSIZE) = a := by
        rw [hdiv, ← h.blk, hfix]
      have hlt := mod_lt_bsize o
      have hmo := Nat.div_add_mod o BSIZE
      have hmoff := Nat.div_add_mod off BSIZE
      rw [hdiv] at hmo
      rw [ha, hself, ← hx, memmove, if_neg (by omega), hfix]
    · rw [hdata, h.grown.data hoM hbo]
      rw [← h.grown.blk hbo]
      exact hne i _ (by rwa [h.grown.blk hbo]) fun hc => hdiv hc.2
  · rw [hdata, h.grown.data hk hjk]
    rw [← h.grown.blk hjk]
    exact hne j k (by rwa [h.grown.blk hjk]) fun hc => hj hc.1
  · have hfix : d'.inode = d.inode := congrArg Disk.inode (h.fixed (hall off le_rfl (by omega)))
    exact hfix
  · have ha : Logs sb a y → ∃ o, off ≤ o ∧ o < off + src.length ∧
        Logs sb ((d'.setData a x).blk i (o / BSIZE)) y :=
      fun hl => ⟨off, le_rfl, by omega, by rwa [hblk, h.blk]⟩
    obtain rfl | hy := Finset.mem_insert.mp (show y ∈ insert a d'.logged from hy)
    · exact Or.inr (Or.inl (ha ⟨h.ne_zero, Or.inl rfl⟩))
    · obtain hy | hy | hy := h.logged hy
      · exact Or.inl hy
      · exact Or.inr (Or.inl (ha hy))
      · rw [← hblk] at hy
        exact Or.inr (Or.inr hy)

/-- The loop of `writei` writes the bytes at the offset, and nothing else. -/
lemma wp_writeLoop (n : ℕ) : ∀ (off : ℕ) (src : List UInt8) (d : Disk), src.length = n →
    Held sb d → d.valid i = true → off + src.length ≤ MAXFILE * BSIZE →
    Wp (writeLoop sb i off src) (· = .outOfBlocks) (fun _ => Written sb i off src d) d := by
  induction n using Nat.strong_induction_on with
  | _ n ih =>
  intro off src d hn hheld hv hle
  rw [writeLoop]
  refine wp_ite (fun hz => ?_) fun hne => ?_
  · subst hz
    exact wp_pure (.nil hheld)
  · have hpos : 0 < src.length := List.length_pos_of_ne_nil hne
    have hlt := mod_lt_bsize off
    have hM : off / BSIZE < MAXFILE := div_lt_maxfile (by omega)
    refine (wp_bmap hheld hv hM).bind fun a d₁ h₁ => wp_bind (wp_modify ?_)
    generalize hm : min src.length (BSIZE - off % BSIZE) = m
    have htake : (src.take m).length = m := by
      rw [List.length_take]
      omega
    have hdrop : (src.drop m).length = src.length - m := List.length_drop ..
    have hfst : Written sb i off (src.take m) d _ := h₁.written hM (by omega) (by omega)
    have hrest := ih (n - m) (by omega) (off + m) (src.drop m) _ (by omega) hfst.held
      ((congrFun hfst.valid i).trans hv) (by omega)
    refine hrest.post fun _ d₂ h₂ => ?_
    have hoff : off + (src.take m).length = off + m := by rw [htake]
    rw [← hoff] at h₂
    have := hfst.append h₂ (by omega)
    rwa [List.take_append_drop] at this

end Disk

end Xv6Projects.Fs
