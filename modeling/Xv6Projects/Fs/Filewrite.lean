import Mathlib.Order.Interval.Finset.Nat
import Xv6Projects.Fs.Files

/-!
# Writing a file in several transactions

`filewrite` writes a few blocks at a time, each time in a transaction of its own.  Together they are
one write; and none of them logs more blocks than an operation of the file system may.
-/

namespace Xv6Projects.Fs

open Library Disk

variable (sb : Superblock)

/-- The number of bytes that `filewrite` writes in one transaction. -/
def maxWrite : ℕ := (MAXOPBLOCKS - 1 - 1 - 2) / 2 * 512

/-- One transaction of `filewrite`. -/
def transaction (i : ℕ) (src : ℕ → UInt8) (off : UInt32) (n : ℕ) : FM ℤ := do
  modify fun d => { d with logged := ∅ }
  ilock i
  writei sb i src off (UInt32.ofNat n)

section

variable {σ : Type} (transaction : (ℕ → UInt8) → UInt32 → ℕ → Prog σ Panic ℤ)

/-- The loop of `filewrite`, when `j` of `n` bytes have been written: the number of bytes that have
been written in the end, and the offset of the file. -/
def filewriteLoop (src : ℕ → UInt8) (n j : ℕ) (off : UInt32) : Prog σ Panic (ℕ × UInt32) :=
  if j < n then do
    let m := min (n - j) maxWrite
    let r ← transaction (fun k => src (j + k)) off m
    if r < 0 then return (j, off)
    else if r ≠ m then throw .shortWrite
    else filewriteLoop src n (j + m) (if 0 < r then off + UInt32.ofNat r.toNat else off)
  else return (j, off)
termination_by n - j
decreasing_by
  have : 0 < maxWrite := by decide
  omega

/-- The part of `filewrite` for inodes, with its transactions as a parameter: the value that is
returned, and the offset of the file. -/
def transactions (src : ℕ → UInt8) (n : ℕ) (off : UInt32) : Prog σ Panic (ℤ × UInt32) := do
  let r ← filewriteLoop transaction src n 0 off
  return (if r.1 = n then n else -1, r.2)

end

/-- Write to a file that is an inode: the value that is returned, and the offset of the file. -/
def filewrite (i : ℕ) (src : ℕ → UInt8) (n : ℕ) (off : UInt32) : FM (ℤ × UInt32) :=
  transactions (transaction sb i) src n off

variable {sb}

/-- A write is followed by another one. -/
lemma overwrite_append (c s t : List UInt8) {off : ℕ} (hoff : off ≤ c.length) :
    overwrite (overwrite c off s) (off + s.length) t = overwrite c off (s ++ t) := by
  have hle : off + s.length ≤ (overwrite c off s).length := by
    rw [length_overwrite hoff]
    exact le_max_right ..
  refine List.ext_getElem ?_ fun o h₁ h₂ => ?_
  · rw [length_overwrite hle, length_overwrite hoff, length_overwrite hoff, List.length_append]
    omega
  · rw [← List.getD_eq_getElem _ 0 h₁, ← List.getD_eq_getElem _ 0 h₂, getD_overwrite hle,
      getD_overwrite hoff, getD_overwrite hoff, List.length_append]
    split_ifs with h h' h' h'
    · rw [List.getD_append_right _ _ _ _ (by omega)]
      congr 1
      omega
    · omega
    · rw [List.getD_append _ _ _ _ (by omega)]
    · omega
    · omega
    · rfl

/-- Bytes of a file are replaced, or added at its end. -/
def File.write (f : File) (off : ℕ) (src : List UInt8) : File :=
  { f with bytes := overwrite f.bytes off src }

lemma File.write_nil (f : File) (off : ℕ) : f.write off [] = f := by
  rw [File.write, overwrite, List.append_nil, List.length_nil, Nat.add_zero, List.take_append_drop]

lemma File.write_write (f : File) (s t : List UInt8) {off : ℕ} (hoff : off ≤ f.bytes.length) :
    (f.write off s).write (off + s.length) t = f.write off (s ++ t) := by
  rw [File.write, File.write, File.write, overwrite_append _ _ _ hoff]

/-! ### One transaction -/

namespace Disk

variable {d : Disk} {i : ℕ} {f : File}

/-- `begin_op` changes nothing in the files. -/
lemma Ok.begin_op (h : Ok sb d) : Ok sb { d with logged := ∅ } :=
  ⟨h.held.congr (fun _ _ => rfl) rfl, h.size_le, h.sized, h.synced, h.free⟩

lemma type_ne_of_files (hf : d.files i = some f) : (d.dinode i).type ≠ 0 := by
  intro hz
  rw [files, if_pos hz] at hf
  exact absurd hf (by simp)

lemma Ok.length_eq (h : Ok sb d) (hf : d.files i = some f) :
    f.bytes.length = (d.dinode i).size := by
  have hbytes : d.content i = f.bytes := by
    rw [files_of_type (type_ne_of_files hf)] at hf
    exact congrArg File.bytes (Option.some.inj hf)
  rw [← hbytes, length_content, h.cur_eq]

lemma Ok.length_le (h : Ok sb d) (hf : d.files i = some f) : f.bytes.length ≤ MAXFILE * BSIZE := by
  rw [h.length_eq hf]
  exact h.size_le i

end Disk

lemma maxWrite_le : maxWrite ≤ 1536 := by decide

/-- Offsets of files do not wrap around. -/
lemma toNat_add_ofNat {off : UInt32} {m : ℕ} (hoff : off.toNat ≤ MAXFILE * BSIZE)
    (hm : m ≤ maxWrite) : (off + UInt32.ofNat m).toNat = off.toNat + m := by
  have hM : MAXFILE * BSIZE ≤ 71680 := by decide
  have := hm.trans maxWrite_le
  rw [UInt32.toNat_add, UInt32.toNat_ofNat_of_lt' (by rw [UInt32.size]; omega)]
  omega

/-- A write that is not larger than a transaction writes all of its bytes, or none when they are
beyond the largest file. -/
lemma Files.next_writei_transaction {fs : Files} {i m : ℕ} {f : File} {src : ℕ → UInt8}
    {off : UInt32} (hf : fs i = some f) (hlen : f.bytes.length ≤ MAXFILE * BSIZE)
    (hm : m ≤ maxWrite) :
    fs.next sb (.writei i src off (UInt32.ofNat m)) =
      if off.toNat ≤ f.bytes.length ∧ off.toNat + m ≤ MAXFILE * BSIZE then
        (((m : ℤ), []),
          Function.update fs i (some (f.write off.toNat ((List.range m).map src))))
      else ((-1, []), fs) := by
  have hn : (UInt32.ofNat m).toNat = m :=
    UInt32.toNat_ofNat_of_lt' (by have := hm.trans maxWrite_le; rw [UInt32.size]; omega)
  simp only [next, hf]
  by_cases hoff : off.toNat ≤ f.bytes.length
  · have hadd := toNat_add_ofNat (hoff.trans hlen) hm
    have hlt : ¬off + UInt32.ofNat m < off := by
      rw [UInt32.lt_iff_toNat_lt, hadd]
      omega
    rw [hadd, hn]
    by_cases hM : off.toNat + m ≤ MAXFILE * BSIZE
    · rw [if_neg (not_or.mpr ⟨Nat.not_lt.mpr hoff, not_or.mpr ⟨hlt, Nat.not_lt.mpr hM⟩⟩),
        if_pos ⟨hoff, hM⟩]
      rfl
    · rw [if_pos (Or.inr (Or.inr (Nat.not_le.mp hM))), if_neg fun hc => hM hc.2]
  · rw [if_pos (Or.inl (Nat.not_le.mp hoff)), if_neg fun hc => hoff hc.1]

/-- What a transaction does to the files that a state shows by `R`: it writes all of its bytes, or
none when they are beyond the largest file. -/
def Transacts {σ : Type} (transaction : (ℕ → UInt8) → UInt32 → ℕ → Prog σ Panic ℤ) (i : ℕ)
    (E : Panic → Prop) (R : σ → Files → Prop) : Prop :=
  ∀ s fs f src off m, R s fs → fs i = some f → m ≤ maxWrite →
    f.bytes.length ≤ MAXFILE * BSIZE ∧
      Wp (transaction src off m) E (fun r s' =>
        if off.toNat ≤ f.bytes.length ∧ off.toNat + m ≤ MAXFILE * BSIZE then
          r = m ∧ R s' (Function.update fs i (some (f.write off.toNat ((List.range m).map src))))
        else r = -1 ∧ R s' fs) s

lemma transacts_transaction (i : ℕ) :
    Transacts (transaction sb i) i (· = .outOfBlocks) fun d fs => Ok sb d ∧ d.files = fs := by
  rintro d _ f src off m ⟨h, rfl⟩ hf hm
  have ht : (d.dinode i).type ≠ 0 := type_ne_of_files hf
  refine ⟨h.length_le hf, wp_bind (wp_modify (wp_bind (wp_ilock h.begin_op ht
    fun d₁ hd₁ hv hdi hfs _ _ => ?_)))⟩
  have ht₁ : (d₁.dinode i).type ≠ 0 := by
    rw [hdi]
    exact ht
  have hf₁ : d₁.files = d.files := hfs
  refine (wp_writei hd₁ hv ht₁).post fun r d' hr => ?_
  rw [hf₁, Files.next_writei_transaction hf (h.length_le hf) hm] at hr
  obtain ⟨hr, hok, hfiles, -⟩ := hr
  split_ifs at hr hfiles ⊢ with hin
  · exact ⟨congrArg Prod.fst hr, hok, hfiles⟩
  · exact ⟨congrArg Prod.fst hr, hok, hfiles⟩

/-! ### The loop -/

/-- The number of bytes that `filewrite` writes when there is room for `room` bytes: all of them, or
as many as whole transactions write. -/
def fits (room n : ℕ) : ℕ := if n ≤ room then n else room / maxWrite * maxWrite

lemma fits_of_lt {room n : ℕ} (h : room < min n maxWrite) : fits room n = 0 := by
  rw [fits, if_neg (by omega), Nat.div_eq_of_lt (by omega), Nat.zero_mul]

lemma fits_step {room n : ℕ} (h : min n maxWrite ≤ room) :
    fits room n = min n maxWrite + fits (room - min n maxWrite) (n - min n maxWrite) := by
  have hpos : 0 < maxWrite := by decide
  rw [fits, fits]
  by_cases hle : n ≤ room
  · rw [if_pos hle, if_pos (by omega)]
    omega
  · have hmin : min n maxWrite = maxWrite := by omega
    rw [if_neg hle, if_neg (by omega), hmin, Nat.div_eq_sub_div hpos (by omega), Nat.add_mul,
      Nat.one_mul, Nat.add_comm]

lemma fits_eq_iff {room n : ℕ} : fits room n = n ↔ n ≤ room := by
  rw [fits]
  split_ifs with h
  · exact ⟨fun _ => h, fun _ => rfl⟩
  · have := Nat.div_mul_le_self room maxWrite
    omega

/-- The room in a file of `len` bytes from an offset on. -/
def room (len off : ℕ) : ℕ := if off ≤ len then MAXFILE * BSIZE - off else 0

section Loop

variable {σ : Type} {transaction : (ℕ → UInt8) → UInt32 → ℕ → Prog σ Panic ℤ} {i n : ℕ}
  {E : Panic → Prop} {R : σ → Files → Prop} {src : ℕ → UInt8}

/-- The loop, from the byte `j` on. -/
lemma wp_filewriteLoop (htr : Transacts transaction i E R) (k : ℕ) :
    ∀ (j : ℕ) (off : UInt32) (s : σ) (fs : Files) (f : File), n - j = k → R s fs → fs i = some f →
    Wp (filewriteLoop transaction src n j off) E
      (fun r s' => ∃ m, m = fits (room f.bytes.length off.toNat) (n - j) ∧ r.1 = j + m ∧
        r.2.toNat = off.toNat + m ∧ R s' (Function.update fs i
          (some (f.write off.toNat ((List.range m).map fun k => src (j + k)))))) s := by
  induction k using Nat.strong_induction_on with
  | _ k ih =>
  intro j off s fs f hk h hf
  have hsame : Function.update fs i (some (f.write off.toNat [])) = fs := by
    rw [File.write_nil, ← hf, Function.update_eq_self]
  rw [filewriteLoop]
  refine wp_ite (fun hj => ?_) fun hj => ?_
  · have hpos : 0 < maxWrite := by decide
    obtain ⟨m, hm⟩ : ∃ m, m = min (n - j) maxWrite := ⟨_, rfl⟩
    rw [← hm]
    obtain ⟨hlen, hwp⟩ := htr s fs f (fun k => src (j + k)) off m h hf (by omega)
    refine hwp.bind fun r s₁ hr => ?_
    split_ifs at hr with hin
    · -- the bytes of this transaction come before those of the rest
      obtain ⟨rfl, h₁⟩ := hr
      obtain ⟨hoff, hM⟩ := hin
      refine wp_ite (fun hneg => absurd hneg (by omega)) fun _ => ?_
      refine wp_ite (fun hne => absurd rfl hne) fun _ => ?_
      have hadd := toNat_add_ofNat (hoff.trans hlen) (show m ≤ maxWrite by omega)
      have hlen₁ : ((List.range m).map fun k => src (j + k)).length = m := by
        rw [List.length_map, List.length_range]
      rw [if_pos (by omega), Int.toNat_natCast]
      generalize hs : (List.range m).map (fun k => src (j + k)) = t at hlen₁ h₁
      have hroom : room (f.write off.toNat t).bytes.length (off.toNat + m) =
          room f.bytes.length off.toNat - m := by
        have hle : off.toNat + m ≤ (f.write off.toNat t).bytes.length := by
          rw [File.write, length_overwrite hoff, hlen₁]
          exact le_max_right ..
        rw [room, room, if_pos hle, if_pos hoff, Nat.sub_sub]
      refine (ih (n - (j + m)) (by omega) (j + m) _ s₁ _ _ rfl h₁
        (Function.update_self ..)).post fun r s₂ h₂ => ?_
      obtain ⟨m₂, hm₂, hr₁, hr₂, h₂⟩ := h₂
      rw [hadd] at hm₂ hr₂ h₂
      rw [hroom] at hm₂
      refine ⟨m + m₂, ?_, by omega, by omega, ?_⟩
      · rw [fits_step (by rw [room, if_pos hoff]; omega), ← hm, hm₂, Nat.sub_sub]
      · have hall : (List.range (m + m₂)).map (fun k => src (j + k)) =
            t ++ (List.range m₂).map fun k => src (j + m + k) := by
          rw [List.range_add, List.map_append, List.map_map, hs]
          congr 2
          funext k
          rw [Function.comp_apply, Nat.add_assoc]
        rw [hall, ← File.write_write _ _ _ hoff, hlen₁]
        rwa [Function.update_idem] at h₂
    · -- nothing more is written
      obtain ⟨rfl, h₁⟩ := hr
      have hroom : room f.bytes.length off.toNat < m := by
        rw [room]
        split_ifs with hoff
        · have := fun hM => hin ⟨hoff, hM⟩
          omega
        · omega
      refine wp_ite (fun _ => wp_pure ?_) fun hneg => absurd (by decide) hneg
      exact ⟨0, (fits_of_lt (by omega)).symm, rfl, rfl,
        by rwa [List.range_zero, List.map_nil, hsame]⟩
  · have hz : n - j = 0 := by omega
    rw [hz]
    exact wp_pure ⟨0, (fits_eq_iff.mpr (Nat.zero_le _)).symm, rfl, rfl,
      by rwa [List.range_zero, List.map_nil, hsame]⟩

/-- What the transactions do together. -/
lemma wp_transactions (htr : Transacts transaction i E R) {s : σ} {fs : Files} {f : File}
    {off : UInt32} (h : R s fs) (hf : fs i = some f) :
    Wp (transactions transaction src n off) E
      (fun r s' => ∃ m, m = fits (room f.bytes.length off.toNat) n ∧
        r.1 = (if n ≤ room f.bytes.length off.toNat then (n : ℤ) else -1) ∧
        r.2.toNat = off.toNat + m ∧ R s'
          (Function.update fs i (some (f.write off.toNat ((List.range m).map src))))) s := by
  refine (wp_filewriteLoop htr n 0 off s fs f rfl h hf).bind fun r s' hr => wp_pure ?_
  simp only [Nat.sub_zero, Nat.zero_add] at hr
  obtain ⟨m, hm, hr₁, hr₂, h'⟩ := hr
  refine ⟨m, hm, ?_, hr₂, h'⟩
  by_cases hle : n ≤ room f.bytes.length off.toNat
  · rw [if_pos hle]
    exact if_pos (hr₁.trans (hm.trans (fits_eq_iff.mpr hle)))
  · rw [if_neg hle]
    exact if_neg fun hn => hle (fits_eq_iff.mp (hm.symm.trans (hr₁.symm.trans hn)))

end Loop

/-- **A write is one write.**  `filewrite` writes in several transactions what one write of the
bytes would write.  When there is no room for all of them it returns -1, and has written the bytes
of the transactions that there was room for. -/
theorem filewrite_writes {d : Disk} {i n : ℕ} {f : File} {src : ℕ → UInt8} {off : UInt32}
    (h : Ok sb d) (hf : d.files i = some f ∧ f.type ≠ T_DEV) :
    Wp (filewrite sb i src n off) (· = .outOfBlocks)
      (fun r d' => ∃ m, m = fits (room f.bytes.length off.toNat) n ∧
        r.1 = (if n ≤ room f.bytes.length off.toNat then (n : ℤ) else -1) ∧
        r.2.toNat = off.toNat + m ∧ Ok sb d' ∧ d'.files =
          Function.update d.files i (some (f.write off.toNat ((List.range m).map src)))) d := by
  refine (wp_transactions (transacts_transaction i) ⟨h, rfl⟩ hf.1).post fun r d' hr => ?_
  obtain ⟨m, hm, hr₁, hr₂, hok, hfiles⟩ := hr
  exact ⟨m, hm, hr₁, hr₂, hok, hfiles⟩

/-- Bytes are written to the file that has just been made. -/
theorem filewrite_writes_new : Wp (filewrite mkfs 1 (fun j => UInt8.ofNat j) 5000 0)
    (· = .outOfBlocks) (fun r d' => r.1 = 5000 ∧ r.2.toNat = 5000 ∧ Ok mkfs d')
    (blank.typed mkfs 1 2) := by
  have hok : Ok mkfs (blank.typed mkfs 1 2) := ok_blank.typed rfl (by decide)
  have hf : (blank.typed mkfs 1 2).files 1 = some ⟨2, 0, []⟩ := by
    rw [typed_files ok_blank rfl (by decide), Function.update_self]
  refine (filewrite_writes (f := ⟨2, 0, []⟩) hok ⟨hf, by decide⟩).post fun r d' hr => ?_
  obtain ⟨m, hm, hr₁, hr₂, hok', -⟩ := hr
  have hm' : m = 5000 := hm.trans (by decide)
  exact ⟨hr₁, by rw [hr₂, hm']; rfl, hok'⟩

/-! ### What a transaction logs -/

namespace Disk

variable {d d' : Disk} {i : ℕ}

/-- The blocks that one write to an inode logs: those of the bytes, the indirect block, that of the
inode, and the free map. -/
def touched (sb : Superblock) (d : Disk) (i off n : ℕ) : Finset ℕ :=
  {sb.IBLOCK i, sb.bmapstart, d.blk i MAXFILE} ∪
    (Finset.Ico (off / BSIZE) ((off + n + (BSIZE - 1)) / BSIZE)).image (d.blk i)

lemma card_touched (off n : ℕ) :
    (d.touched sb i off n).card ≤ 3 + ((n + (BSIZE - 1)) / BSIZE + 1) := by
  refine (Finset.card_union_le ..).trans (Nat.add_le_add Finset.card_le_three ?_)
  refine Finset.card_image_le.trans ?_
  rw [Nat.card_Ico]
  simp only [BSIZE]
  omega

/-- With one block of free map, only that block is logged when a block is allocated. -/
lemma Logs.eq_or {b x : ℕ} (h : Logs sb b x) (hb : b < sb.size) (hsize : sb.size ≤ BPB) :
    x = b ∨ x = sb.bmapstart := by
  refine h.2.imp_right fun hx => ?_
  rw [hx, Superblock.BBLOCK, Nat.div_eq_of_lt (hb.trans_le hsize), Nat.zero_add]

lemma Written.logged_touched {off : ℕ} {src : List UInt8} (h : Written sb i off src d d')
    (hsize : sb.size ≤ BPB) {x : ℕ} (hx : x ∈ d'.logged) :
    x ∈ d.logged ∨ x ∈ d'.touched sb i off src.length := by
  have hlogs : ∀ k, (k = MAXFILE ∨ ∃ o, off ≤ o ∧ o < off + src.length ∧ k = o / BSIZE) →
      Logs sb (d'.blk i k) x → x ∈ d'.touched sb i off src.length := by
    intro k hk hl
    rw [touched, Finset.mem_union, Finset.mem_image]
    obtain rfl | rfl := hl.eq_or (h.held.used hl.1).2.2 hsize
    · obtain rfl | ⟨o, h₁, h₂, rfl⟩ := hk
      · exact Or.inl (by simp)
      · refine Or.inr ⟨o / BSIZE, Finset.mem_Ico.mpr ?_, rfl⟩
        simp only [BSIZE]
        omega
    · exact Or.inl (by simp)
  obtain hx | ⟨o, h₁, h₂, hx⟩ | hx := h.logged hx
  · exact Or.inl hx
  · exact Or.inr (hlogs _ (Or.inr ⟨o, h₁, h₂, rfl⟩) hx)
  · exact Or.inr (hlogs _ (Or.inl rfl) hx)

/-- What `writei` logs. -/
lemma wp_writei_logged {src : ℕ → UInt8} {off n : UInt32} (h : Held sb d) (hv : d.valid i = true)
    (hsize : sb.size ≤ BPB) :
    Wp (writei sb i src off n) (· = .outOfBlocks) (fun _ d' => ∃ e : Disk,
      d'.logged ⊆ d.logged ∪ e.touched sb i off.toNat n.toNat) d := by
  refine wp_bind (wp_get (wp_ite (fun _ => ?_) fun hc => wp_ite (fun _ => ?_) fun hM => ?_))
  · exact wp_pure ⟨d, Finset.subset_union_left⟩
  · exact wp_pure ⟨d, Finset.subset_union_left⟩
  · have hadd := toNat_add_of_not_lt (not_or.mp hc).2
    have hlen : ((List.range n.toNat).map src).length = n.toNat := by
      rw [List.length_map, List.length_range]
    refine (wp_writeLoop _ off.toNat _ d rfl h hv (by omega)).bind fun _ d₁ h₁ => ?_
    have hin : d₁.logged ⊆ d.logged ∪ d₁.touched sb i off.toNat n.toNat := by
      intro x hx
      have := h₁.logged_touched hsize hx
      rw [hlen] at this
      exact Finset.mem_union.mpr this
    refine wp_ite (fun _ => ?_) fun _ => wp_pure ⟨d₁, hin⟩
    refine wp_bind (wp_modify (wp_bind (wp_modify (wp_pure ⟨d₁, ?_⟩))))
    refine Finset.insert_subset (Finset.mem_union_right _ ?_) hin
    simp [touched]

end Disk

/-- **Transactions are small.**  With one block of free map, no transaction of `filewrite` logs more
than seven blocks, wherever the bytes are and however many blocks are allocated for them. -/
theorem transaction_small {d : Disk} {i m : ℕ} {f : File} {src : ℕ → UInt8} {off : UInt32}
    (h : Ok sb d) (hf : d.files i = some f ∧ f.type ≠ T_DEV) (hm : m ≤ maxWrite)
    (hsize : sb.size ≤ BPB) :
    Wp (transaction sb i src off m) (· = .outOfBlocks) (fun _ d' => d'.logged.card ≤ 7) d := by
  have hn : (UInt32.ofNat m).toNat = m :=
    UInt32.toNat_ofNat_of_lt' (by have := hm.trans maxWrite_le; rw [UInt32.size]; omega)
  refine wp_bind (wp_modify (wp_bind (wp_ilock h.begin_op (type_ne_of_files hf.1)
    fun d₁ hd₁ hv _ _ hlog _ => ?_)))
  refine (wp_writei_logged hd₁.held hv hsize).post fun _ d' hd' => ?_
  obtain ⟨e, he⟩ := hd'
  have hempty : d₁.logged = ∅ := hlog
  rw [hempty, Finset.empty_union, hn] at he
  calc d'.logged.card
      ≤ (e.touched sb i off.toNat m).card := Finset.card_le_card he
    _ ≤ 3 + ((m + (BSIZE - 1)) / BSIZE + 1) := card_touched ..
    _ ≤ 7 := by
      have := hm.trans maxWrite_le
      simp only [BSIZE]
      omega

/-- The largest write, to the file that has just been made. -/
theorem transaction_small_new : Wp (transaction mkfs 1 (fun j => UInt8.ofNat j) 0 1536)
    (· = .outOfBlocks) (fun _ d' => d'.logged.card ≤ 7) (blank.typed mkfs 1 2) := by
  have hf : (blank.typed mkfs 1 2).files 1 = some ⟨2, 0, []⟩ := by
    rw [typed_files ok_blank rfl (by decide), Function.update_self]
  exact transaction_small (ok_blank.typed rfl (by decide)) ⟨hf, by decide⟩ (by decide) (by decide)

end Xv6Projects.Fs
