import Xv6Projects.Fs.Contents
import Xv6Projects.Fs.Truncate
import Xv6Projects.Library.Simulation

/-!
# Files without blocks

What inodes are for: a file is a list of bytes with a type and a number of links.  Whatever is
done with the files of a disk, with direct and indirect blocks, the free map, and inodes in memory
that are recycled, the replies are those of such lists; and `bfree`, `bmap` and `ilock` do not
panic.
-/

namespace Xv6Projects.Fs

open Library

/-- A file. -/
structure File where
  type : ℤ
  nlink : ℤ
  bytes : List UInt8

/-- The files, by the numbers of their inodes. -/
abbrev Files := ℕ → Option File

/-- The operations on inodes, as the rest of the kernel uses them: each one but `ialloc` and
`recycle` is done under `ilock`. -/
inductive Op
  | begin_op
  | ialloc (type : ℤ)
  | recycle (i : ℕ)
  | setNlink (i : ℕ) (n : ℤ)
  | readi (i : ℕ) (off n : UInt32)
  | writei (i : ℕ) (src : ℕ → UInt8) (off n : UInt32)
  | iput (i : ℕ)

/-- What is returned, and the bytes that are read. -/
abbrev Reply := ℤ × List UInt8

variable (sb : Superblock)

/-- An operation on the blocks of a disk. -/
def perform : Op → FM Reply
  | .begin_op => do
      modify fun d => { d with logged := ∅ }
      return (0, [])
  | .ialloc type => do
      let i ← ialloc sb type
      return (i, [])
  | .recycle i => do
      -- `iget` takes the entry of the inode, which has no references, for another one
      modify fun d => { d with valid := Function.update d.valid i false }
      return (0, [])
  | .setNlink i n => do
      ilock i
      modify fun d => d.setInode i { d.inode i with nlink := n }
      iupdate sb i
      return (0, [])
  | .readi i off n => do
      ilock i
      readi sb i off n
  | .writei i src off n => do
      ilock i
      let r ← writei sb i src off n
      return (r, [])
  | .iput i => do
      ilock i
      iput sb i
      return (0, [])

/-- Bytes of a file are replaced, or added at its end. -/
def overwrite (c : List UInt8) (off : ℕ) (src : List UInt8) : List UInt8 :=
  c.take off ++ src ++ c.drop (off + src.length)

/-- An operation on files without blocks. -/
def Files.next (fs : Files) : Op → Reply × Files
  | .begin_op => ((0, []), fs)
  | .ialloc type =>
      match ((List.range sb.ninodes).drop 1).find? fun i => (fs i).isNone with
      | none => ((-1, []), fs)
      | some i => ((i, []), Function.update fs i (some ⟨type, 0, []⟩))
  | .recycle _ => ((0, []), fs)
  | .setNlink i n => ((0, []), Function.update fs i ((fs i).map fun f => { f with nlink := n }))
  | .readi i off n =>
      match fs i with
      | none => ((-1, []), fs)
      | some f =>
        if f.bytes.length < off.toNat ∨ off + n < off then ((-1, []), fs)
        else
          let bytes := (f.bytes.drop off.toNat).take n.toNat
          ((bytes.length, bytes), fs)
  | .writei i src off n =>
      match fs i with
      | none => ((-1, []), fs)
      | some f =>
        if f.bytes.length < off.toNat ∨ off + n < off ∨ MAXFILE * BSIZE < (off + n).toNat then
          ((-1, []), fs)
        else
          ((n.toNat, []), Function.update fs i (some { f with
            bytes := overwrite f.bytes off.toNat ((List.range n.toNat).map src) }))
  | .iput i =>
      match fs i with
      | none => ((0, []), fs)
      | some f => ((0, []), if f.nlink = 0 then Function.update fs i none else fs)

/-- What the callers see to: the inode is that of a file, and not of a device. -/
def Files.Allows (fs : Files) : Op → Prop
  | .begin_op | .recycle _ => True
  | .ialloc type => type ≠ 0
  | .setNlink i _ | .iput i => ∃ f, fs i = some f
  | .readi i _ _ | .writei i _ _ _ => ∃ f, fs i = some f ∧ f.type ≠ T_DEV

/-- The panics that are left: the disk is full, or there are no more inodes. -/
def Fails : Op → Panic → Prop
  | .writei .., e => e = .outOfBlocks
  | .ialloc .., e => e = .noInodes
  | _, _ => False

namespace Disk

variable {d d' : Disk} {sb : Superblock} {i : ℕ}

/-- The files of a disk. -/
def files (d : Disk) : Files := fun i =>
  if (d.dinode i).type = 0 then none
  else some ⟨(d.dinode i).type, (d.dinode i).nlink, d.content i⟩

/-- A file system between two operations. -/
structure Ok (sb : Superblock) (d : Disk) : Prop where
  held : Held sb d
  size_le (i : ℕ) : (d.dinode i).size ≤ MAXFILE * BSIZE
  sized {i o : ℕ} : o < (d.dinode i).size → d.blk i (o / BSIZE) ≠ 0
  synced {i : ℕ} : d.valid i = true → d.inode i = d.dinode i
  free {i : ℕ} : (d.dinode i).type = 0 →
    d.valid i = false ∧ (d.dinode i).size = 0 ∧ ∀ k, d.blk i k = 0

lemma Ok.cur_eq (h : Ok sb d) (i : ℕ) : d.cur i = d.dinode i := by
  rw [cur]
  split_ifs with hv
  · exact h.synced hv
  · rfl

lemma files_of_type (h : (d.dinode i).type ≠ 0) :
    d.files i = some ⟨(d.dinode i).type, (d.dinode i).nlink, d.content i⟩ := if_neg h

lemma content_congr (hsize : (d'.cur i).size = (d.cur i).size)
    (hbyte : ∀ o, o < (d.cur i).size → d'.byteAt i o = d.byteAt i o) :
    d'.content i = d.content i := by
  rw [content, content, hsize]
  exact List.map_congr_left fun o ho => hbyte o (List.mem_range.mp ho)

/-- The files depend on the inodes on disk and the contents only. -/
lemma files_congr (h : ∀ i, (d'.dinode i).type = (d.dinode i).type ∧
    ((d.dinode i).type ≠ 0 →
      (d'.dinode i).nlink = (d.dinode i).nlink ∧ d'.content i = d.content i)) :
    d'.files = d.files := by
  funext i
  obtain ⟨ht, hrest⟩ := h i
  rw [files, files, ht]
  split_ifs with hz
  · rfl
  · obtain ⟨hn, hc⟩ := hrest hz
    rw [hn, hc]

/-! ### `ilock` -/

/-- The disk after the inode has been read into memory. -/
def locked (d : Disk) (i : ℕ) : Disk :=
  { d.setInode i (d.dinode i) with valid := Function.update d.valid i true }

lemma locked_cur (h : Ok sb d) (j : ℕ) : (d.locked i).cur j = d.cur j := by
  rw [h.cur_eq]
  by_cases hj : j = i
  · subst hj
    rw [cur, if_pos (show (d.locked j).valid j = true from Function.update_self ..)]
    exact Function.update_self ..
  · have hv : (d.locked i).valid j = d.valid j := Function.update_of_ne hj ..
    have hi : (d.locked i).inode j = d.inode j := Function.update_of_ne hj ..
    rw [cur, hv, hi, ← h.cur_eq j, cur]
    rfl

lemma locked_blk (h : Ok sb d) (j k : ℕ) : (d.locked i).blk j k = d.blk j k :=
  blk_congr (congrArg Inode.addrs (locked_cur h j)) fun _ => rfl

lemma Ok.locked (h : Ok sb d) (ht : (d.dinode i).type ≠ 0) : Ok sb (d.locked i) := by
  refine ⟨h.held.congr (locked_blk h) rfl, h.size_le, fun {j o} ho => ?_, fun {j} hv => ?_,
    fun {j} hj => ?_⟩
  · rw [locked_blk h]
    exact h.sized ho
  · by_cases hj : j = i
    · subst hj
      exact Function.update_self ..
    · have hv' : (d.locked i).valid j = d.valid j := Function.update_of_ne hj ..
      exact (Function.update_of_ne hj ..).trans (h.synced (hv'.symm.trans hv))
  · have hji : j ≠ i := by
      rintro rfl
      exact ht hj
    obtain ⟨hv, hsize, hblk⟩ := h.free hj
    exact ⟨(Function.update_of_ne hji ..).trans hv, hsize,
      fun k => (locked_blk h j k).trans (hblk k)⟩

lemma locked_files (h : Ok sb d) : (d.locked i).files = d.files := by
  refine files_congr fun j => ⟨rfl, fun _ => ⟨rfl, ?_⟩⟩
  refine content_congr (congrArg Inode.size (locked_cur h j)) fun o _ => ?_
  rw [byteAt, byteAt, locked_blk h]
  rfl

lemma wp_ilock {Q : Unit → Disk → Prop} (h : Ok sb d) (ht : (d.dinode i).type ≠ 0)
    (hQ : ∀ d', Ok sb d' → d'.valid i = true → d'.dinode = d.dinode → d'.files = d.files →
      d'.logged = d.logged → (∀ j, d.valid j = true → d'.valid j = true) → Q ⟨⟩ d')
    {E : Panic → Prop} : Wp (ilock i) E Q d := by
  refine wp_bind (wp_get (wp_ite (fun hv => ?_) fun hv => ?_))
  · refine wp_bind (wp_modify (wp_ite (fun hz => absurd hz ht) fun _ => wp_pure ?_))
    refine hQ _ (h.locked ht) (Function.update_self ..) rfl (locked_files h) rfl fun j hj => ?_
    show Function.update d.valid i true j = true
    rw [Function.update_apply]
    split_ifs
    · rfl
    · exact hj
  · exact wp_pure (hQ d h (by simpa using hv) rfl rfl rfl fun _ hj => hj)

/-! ### Operations on the inode alone -/

/-- The disk after the entry of an inode has been recycled. -/
def recycled (d : Disk) (i : ℕ) : Disk := { d with valid := Function.update d.valid i false }

lemma recycled_cur (h : Ok sb d) (j : ℕ) : (d.recycled i).cur j = d.cur j := by
  rw [h.cur_eq]
  by_cases hj : j = i
  · subst hj
    have hv : (d.recycled j).valid j = false := Function.update_self ..
    rw [cur, hv]
    rfl
  · have hv : (d.recycled i).valid j = d.valid j := Function.update_of_ne hj ..
    rw [cur, hv, ← h.cur_eq j, cur]
    rfl

lemma recycled_blk (h : Ok sb d) (j k : ℕ) : (d.recycled i).blk j k = d.blk j k :=
  blk_congr (congrArg Inode.addrs (recycled_cur h j)) fun _ => rfl

lemma Ok.recycled (h : Ok sb d) : Ok sb (d.recycled i) := by
  have hv : ∀ j, (d.recycled i).valid j = true → d.valid j = true := by
    intro j hj
    by_cases hji : j = i
    · subst hji
      exact absurd (hj.symm.trans (Function.update_self ..)) (by simp)
    · exact (Function.update_of_ne hji ..).symm.trans hj
  refine ⟨h.held.congr (recycled_blk h) rfl, h.size_le, fun {j o} ho => ?_,
    fun {j} hj => h.synced (hv j hj), fun {j} hj => ?_⟩
  · rw [recycled_blk h]
    exact h.sized ho
  · obtain ⟨hvj, hsize, hblk⟩ := h.free hj
    refine ⟨?_, hsize, fun k => (recycled_blk h j k).trans (hblk k)⟩
    by_contra hne
    exact absurd ((hv j (by simpa using hne)).symm.trans hvj) (by simp)

lemma recycled_files (h : Ok sb d) : (d.recycled i).files = d.files := by
  refine files_congr fun j => ⟨rfl, fun _ => ⟨rfl, ?_⟩⟩
  refine content_congr (congrArg Inode.size (recycled_cur h j)) fun o _ => ?_
  rw [byteAt, byteAt, recycled_blk h]
  rfl

lemma files_isNone : (d.files i).isNone = ((d.dinode i).type == 0) := by
  rw [files]
  split_ifs with hz
  · simp [hz]
  · simp [hz]

/-- The disk after an inode has got a type. -/
def typed (d : Disk) (sb : Superblock) (i : ℕ) (type : ℤ) : Disk :=
  { d with dinode := Function.update d.dinode i { Inode.zero with type := type } }.log (sb.IBLOCK i)

lemma typed_dinode_self {type : ℤ} :
    (d.typed sb i type).dinode i = { Inode.zero with type := type } := Function.update_self ..

lemma typed_dinode_of_ne {type : ℤ} {j : ℕ} (hj : j ≠ i) :
    (d.typed sb i type).dinode j = d.dinode j := Function.update_of_ne hj ..

lemma typed_cur_self (h : Ok sb d) (hi : (d.dinode i).type = 0) {type : ℤ} :
    (d.typed sb i type).cur i = { Inode.zero with type := type } := by
  have hv : (d.typed sb i type).valid i = false := (h.free hi).1
  rw [cur, hv, if_neg (by simp), typed_dinode_self]

lemma typed_cur_of_ne {type : ℤ} {j : ℕ} (hj : j ≠ i) : (d.typed sb i type).cur j = d.cur j := by
  rw [cur, cur, typed_dinode_of_ne hj]
  rfl

lemma typed_blk (h : Ok sb d) (hi : (d.dinode i).type = 0) {type : ℤ} (j k : ℕ) :
    (d.typed sb i type).blk j k = d.blk j k := by
  by_cases hj : j = i
  · subst hj
    rw [(h.free hi).2.2 k, blk, typed_cur_self h hi]
    simp [Inode.zero]
  · exact blk_congr (congrArg Inode.addrs (typed_cur_of_ne hj)) fun _ => rfl

lemma Ok.typed (h : Ok sb d) (hi : (d.dinode i).type = 0) {type : ℤ} (ht : type ≠ 0) :
    Ok sb (d.typed sb i type) := by
  refine ⟨h.held.congr (typed_blk h hi) rfl, fun j => ?_, fun {j o} ho => ?_, fun {j} hv => ?_,
    fun {j} hj => ?_⟩
  · by_cases hj : j = i
    · subst hj
      rw [typed_dinode_self]
      exact Nat.zero_le _
    · rw [typed_dinode_of_ne hj]
      exact h.size_le j
  · by_cases hj : j = i
    · subst hj
      rw [typed_dinode_self] at ho
      exact absurd ho (Nat.not_lt_zero o)
    · rw [typed_dinode_of_ne hj] at ho
      rw [typed_blk h hi]
      exact h.sized ho
  · have hji : j ≠ i := by
      rintro rfl
      exact absurd (hv.symm.trans (h.free hi).1) (by simp)
    rw [typed_dinode_of_ne hji]
    exact h.synced hv
  · have hji : j ≠ i := by
      rintro rfl
      rw [typed_dinode_self] at hj
      exact ht hj
    rw [typed_dinode_of_ne hji] at hj ⊢
    obtain ⟨hv, hsize, hblk⟩ := h.free hj
    exact ⟨hv, hsize, fun k => (typed_blk h hi j k).trans (hblk k)⟩

lemma typed_files (h : Ok sb d) (hi : (d.dinode i).type = 0) {type : ℤ} (ht : type ≠ 0) :
    (d.typed sb i type).files = Function.update d.files i (some ⟨type, 0, []⟩) := by
  funext j
  by_cases hj : j = i
  · subst hj
    have hne : ((d.typed sb j type).dinode j).type ≠ 0 := by
      rw [typed_dinode_self]
      exact ht
    rw [Function.update_self, files_of_type hne, content, typed_cur_self h hi, typed_dinode_self]
    rfl
  · rw [Function.update_of_ne hj, files, files, typed_dinode_of_ne hj]
    have hc : (d.typed sb i type).content j = d.content j := by
      refine content_congr (congrArg Inode.size (typed_cur_of_ne hj)) fun o _ => ?_
      rw [byteAt, byteAt, typed_blk h hi]
      rfl
    rw [hc]

/-! ### `iupdate` -/

lemma copyInode_cur (hv : d.valid i = true) (j : ℕ) : (d.copyInode sb i).cur j = d.cur j := by
  by_cases hj : j = i
  · subst hj
    rw [cur_of_valid hv]
    exact cur_of_valid (d := d.copyInode sb j) hv
  · have hd : (d.copyInode sb i).dinode j = d.dinode j := Function.update_of_ne hj ..
    rw [cur, cur, hd]
    rfl

lemma copyInode_blk (hv : d.valid i = true) (j k : ℕ) : (d.copyInode sb i).blk j k = d.blk j k :=
  blk_congr (congrArg Inode.addrs (copyInode_cur hv j)) fun _ => rfl

/-- What holds while the inode in memory may differ from the one on disk. -/
structure Open (sb : Superblock) (i : ℕ) (d : Disk) : Prop where
  held : Held sb d
  valid : d.valid i = true
  type : (d.inode i).type ≠ 0
  size_le : (d.inode i).size ≤ MAXFILE * BSIZE
  sized {o : ℕ} : o < (d.inode i).size → d.blk i (o / BSIZE) ≠ 0
  size_le_other {j : ℕ} : j ≠ i → (d.dinode j).size ≤ MAXFILE * BSIZE
  sized_other {j o : ℕ} : j ≠ i → o < (d.dinode j).size → d.blk j (o / BSIZE) ≠ 0
  synced_other {j : ℕ} : j ≠ i → d.valid j = true → d.inode j = d.dinode j
  free_other {j : ℕ} : j ≠ i → (d.dinode j).type = 0 →
    d.valid j = false ∧ (d.dinode j).size = 0 ∧ ∀ k, d.blk j k = 0

lemma Open.copyInode (h : Open sb i d) : Ok sb (d.copyInode sb i) := by
  have hself : (d.copyInode sb i).dinode i = d.inode i := Function.update_self ..
  have hne : ∀ {j}, j ≠ i → (d.copyInode sb i).dinode j = d.dinode j :=
    fun hj => Function.update_of_ne hj ..
  have hblk : ∀ j k, (d.copyInode sb i).blk j k = d.blk j k := copyInode_blk h.valid
  refine ⟨h.held.congr hblk rfl, fun j => ?_, fun {j o} ho => ?_, fun {j} hv => ?_,
    fun {j} hz => ?_⟩
  · by_cases hj : j = i
    · subst hj
      rw [hself]
      exact h.size_le
    · rw [hne hj]
      exact h.size_le_other hj
  · rw [hblk]
    by_cases hj : j = i
    · subst hj
      rw [hself] at ho
      exact h.sized ho
    · rw [hne hj] at ho
      exact h.sized_other hj ho
  · by_cases hj : j = i
    · subst hj
      exact hself.symm
    · rw [hne hj]
      exact h.synced_other hj hv
  · by_cases hj : j = i
    · subst hj
      rw [hself] at hz
      exact absurd hz h.type
    · rw [hne hj] at hz ⊢
      obtain ⟨hv, hsize, hb⟩ := h.free_other hj hz
      exact ⟨hv, hsize, fun k => (hblk j k).trans (hb k)⟩

/-- The files after `iupdate`, when nothing else has changed in the other ones. -/
lemma Open.files (h : Open sb i d) {fs : Files}
    (hother : ∀ j, j ≠ i → d.files j = fs j) :
    (d.copyInode sb i).files =
      Function.update fs i (some ⟨(d.inode i).type, (d.inode i).nlink, d.content i⟩) := by
  have hcont : ∀ j, (d.copyInode sb i).content j = d.content j := by
    refine fun j => content_congr (congrArg Inode.size (copyInode_cur h.valid j)) fun o _ => ?_
    rw [byteAt, byteAt, copyInode_blk h.valid]
    rfl
  funext j
  by_cases hj : j = i
  · subst hj
    have hself : (d.copyInode sb j).dinode j = d.inode j := Function.update_self ..
    rw [Function.update_self, files_of_type (by rw [hself]; exact h.type), hself, hcont]
  · have hne : (d.copyInode sb i).dinode j = d.dinode j := Function.update_of_ne hj ..
    rw [Function.update_of_ne hj, ← hother j hj, Disk.files, Disk.files, hne, hcont]

lemma Ok.isOpen (h : Ok sb d) (hv : d.valid i = true) : Open sb i d := by
  have hi := h.synced hv
  refine ⟨h.held, hv, fun hz => ?_, ?_, fun {o} ho => ?_, fun {j} _ => h.size_le j,
    fun _ ho => h.sized ho, fun _ hvj => h.synced hvj, fun _ hz => h.free hz⟩
  · rw [hi] at hz
    exact absurd (hv.symm.trans (h.free hz).1) (by simp)
  · rw [hi]
    exact h.size_le i
  · rw [hi] at ho
    exact h.sized ho

/-- The number of links is changed. -/
def setNlink (d : Disk) (i : ℕ) (n : ℤ) : Disk := d.setInode i { d.inode i with nlink := n }

lemma setInode_cur_self (hv : d.valid i = true) (ip : Inode) : (d.setInode i ip).cur i = ip :=
  (cur_of_valid (d := d.setInode i ip) hv).trans (Function.update_self ..)

lemma setInode_cur_of_ne (ip : Inode) {j : ℕ} (hj : j ≠ i) : (d.setInode i ip).cur j = d.cur j := by
  have hi : (d.setInode i ip).inode j = d.inode j := Function.update_of_ne hj ..
  rw [cur, cur, hi]
  rfl

/-- The slots of an inode are not touched when its block numbers stay. -/
lemma setInode_blk (hv : d.valid i = true) {ip : Inode} (haddr : ip.addrs = (d.inode i).addrs)
    (j k : ℕ) : (d.setInode i ip).blk j k = d.blk j k := by
  refine blk_congr ?_ fun _ => rfl
  by_cases hj : j = i
  · subst hj
    rw [setInode_cur_self hv, cur_of_valid hv, haddr]
  · rw [setInode_cur_of_ne ip hj]

lemma setInode_byteAt (hv : d.valid i = true) {ip : Inode} (haddr : ip.addrs = (d.inode i).addrs)
    (j o : ℕ) : (d.setInode i ip).byteAt j o = d.byteAt j o := by
  rw [byteAt, byteAt, setInode_blk hv haddr]
  rfl

/-- The inode in memory is changed, but not its block numbers. -/
lemma Open.setInode (h : Open sb i d) {ip : Inode} (haddr : ip.addrs = (d.inode i).addrs)
    (htype : ip.type ≠ 0) (hle : ip.size ≤ MAXFILE * BSIZE)
    (hsized : ∀ o, o < ip.size → d.blk i (o / BSIZE) ≠ 0) : Open sb i (d.setInode i ip) := by
  have hself : (d.setInode i ip).inode i = ip := Function.update_self ..
  have hblk : ∀ j k, (d.setInode i ip).blk j k = d.blk j k := setInode_blk h.valid haddr
  refine ⟨h.held.congr hblk rfl, h.valid, ?_, ?_, fun {o} ho => ?_, h.size_le_other,
    fun {j o} hj ho => ?_, fun {j} hj hv => ?_, fun {j} hj hz => ?_⟩
  · rwa [hself]
  · rwa [hself]
  · rw [hself] at ho
    rw [hblk]
    exact hsized o ho
  · rw [hblk]
    exact h.sized_other hj ho
  · exact (Function.update_of_ne hj ..).trans (h.synced_other hj hv)
  · obtain ⟨hv, hsize, hb⟩ := h.free_other hj hz
    exact ⟨hv, hsize, fun k => (hblk j k).trans (hb k)⟩

lemma setInode_files_of_ne (hv : d.valid i = true) {ip : Inode}
    (haddr : ip.addrs = (d.inode i).addrs) {j : ℕ} (hj : j ≠ i) :
    (d.setInode i ip).files j = d.files j := by
  have hc : (d.setInode i ip).content j = d.content j :=
    content_congr (congrArg Inode.size (setInode_cur_of_ne ip hj)) fun o _ =>
      setInode_byteAt hv haddr j o
  rw [files, files, hc]
  rfl

/-- The number of links is written to the disk. -/
lemma Ok.setNlink (h : Ok sb d) (hv : d.valid i = true) (n : ℤ) :
    Ok sb ((d.setNlink i n).copyInode sb i) ∧ ((d.setNlink i n).copyInode sb i).files =
      Function.update d.files i ((d.files i).map fun f => { f with nlink := n }) := by
  obtain ⟨ip, hip⟩ : ∃ ip : Inode, ip = { d.inode i with nlink := n } := ⟨_, rfl⟩
  have hset : d.setNlink i n = d.setInode i ip := by
    rw [hip]
    rfl
  have hopen := h.isOpen hv
  have haddr : ip.addrs = (d.inode i).addrs := by rw [hip]
  have hsize : ip.size = (d.inode i).size := by rw [hip]
  have htype : ip.type = (d.inode i).type := by rw [hip]
  have hopen' : Open sb i (d.setInode i ip) :=
    hopen.setInode haddr (htype.trans_ne hopen.type) (hsize.trans_le hopen.size_le)
      fun o ho => hopen.sized (ho.trans_eq hsize)
  rw [hset]
  refine ⟨hopen'.copyInode, ?_⟩
  have hcont : (d.setInode i ip).content i = d.content i := by
    refine content_congr ?_ fun o _ => setInode_byteAt hv haddr i o
    rw [setInode_cur_self hv, cur_of_valid hv, hsize]
  have hself : (d.setInode i ip).inode i = ip := Function.update_self ..
  have hfiles := hopen'.files fun j hj => setInode_files_of_ne hv haddr hj
  have hin : d.inode i = d.dinode i := h.synced hv
  have hfi : d.files i = some ⟨(d.dinode i).type, (d.dinode i).nlink, d.content i⟩ :=
    files_of_type (hin ▸ hopen.type)
  rw [hfiles, hcont, hself, hfi, hip, hin]
  rfl

/-! ### `writei` -/

section Written

variable {off : ℕ} {src : List UInt8}

lemma Written.inode_of_ne (h : Written sb i off src d d') {j : ℕ} (hj : j ≠ i) :
    d'.inode j = d.inode j := by
  obtain ⟨f, hf⟩ := h.inode
  rw [hf, Function.update_of_ne hj]

lemma Written.cur_of_ne (h : Written sb i off src d d') {j : ℕ} (hj : j ≠ i) :
    d'.cur j = d.cur j := by
  rw [cur, cur, h.inode_of_ne hj, h.dinode, h.valid]

/-- The inode in memory, but for its block numbers. -/
lemma Written.inode_self (h : Written sb i off src d d') :
    (d'.inode i).type = (d.inode i).type ∧ (d'.inode i).nlink = (d.inode i).nlink ∧
      (d'.inode i).size = (d.inode i).size := by
  obtain ⟨f, hf⟩ := h.inode
  rw [hf, Function.update_self]
  exact ⟨rfl, rfl, rfl⟩

lemma Written.isOpen (h : Written sb i off src d d') (hd : Ok sb d) (hv : d.valid i = true) :
    Open sb i d' := by
  have hopen := hd.isOpen hv
  obtain ⟨htype, -, hsize⟩ := h.inode_self
  refine ⟨h.held, (congrFun h.valid i).trans hv, ?_, ?_, fun {o} ho => ?_, fun {j} hj => ?_,
    fun {j o} hj ho => ?_, fun {j} hj hvj => ?_, fun {j} hj hz => ?_⟩
  · rw [htype]
    exact hopen.type
  · rw [hsize]
    exact hopen.size_le
  · rw [hsize] at ho
    have hne := hopen.sized ho
    rwa [h.blk hne]
  · rw [h.dinode]
    exact hd.size_le j
  · rw [h.dinode] at ho
    rw [h.other hj]
    exact hd.sized ho
  · rw [h.valid] at hvj
    rw [h.inode_of_ne hj, h.dinode]
    exact hd.synced hvj
  · rw [h.dinode] at hz ⊢
    obtain ⟨hvj, hs, hb⟩ := hd.free hz
    exact ⟨(congrFun h.valid j).trans hvj, hs, fun k => (h.other hj).trans (hb k)⟩

/-- The other files are as before. -/
lemma Written.files_of_ne (h : Written sb i off src d d') (hd : Ok sb d) {j : ℕ} (hj : j ≠ i) :
    d'.files j = d.files j := by
  have hc : d'.content j = d.content j := by
    refine content_congr (congrArg Inode.size (h.cur_of_ne hj)) fun o ho => ?_
    rw [hd.cur_eq] at ho
    have hM : o / BSIZE < MAXFILE := div_lt_maxfile (ho.trans_le (hd.size_le j))
    rw [byteAt, byteAt, h.other hj, h.data hj hM (hd.sized ho)]
  rw [files, files, h.dinode, hc]

lemma getD_overwrite {c : List UInt8} (hoff : off ≤ c.length) (o : ℕ) :
    (overwrite c off src).getD o 0 =
      if off ≤ o ∧ o < off + src.length then src.getD (o - off) 0 else c.getD o 0 := by
  have htake : (c.take off).length = off := by
    rw [List.length_take]
    omega
  rw [overwrite, List.append_assoc]
  by_cases h₁ : o < off
  · rw [List.getD_append _ _ _ _ (by omega), if_neg (by omega), List.getD_eq_getElem?_getD,
      List.getElem?_take_of_lt h₁, List.getD_eq_getElem?_getD]
  · rw [List.getD_append_right _ _ _ _ (by omega), htake]
    by_cases h₂ : o < off + src.length
    · rw [List.getD_append _ _ _ _ (by omega), if_pos ⟨by omega, h₂⟩]
    · rw [List.getD_append_right _ _ _ _ (by omega), if_neg (by omega),
        List.getD_eq_getElem?_getD, List.getElem?_drop, List.getD_eq_getElem?_getD]
      congr 2
      omega

lemma length_overwrite {c : List UInt8} (hoff : off ≤ c.length) :
    (overwrite c off src).length = max c.length (off + src.length) := by
  rw [overwrite, List.length_append, List.length_append, List.length_take, List.length_drop]
  omega

lemma getD_content {o : ℕ} (ho : o < (d.cur i).size) : (d.content i).getD o 0 = d.byteAt i o := by
  rw [List.getD_eq_getElem _ _ (by rwa [length_content])]
  simp [content]

/-- The contents of the file after `writei`. -/
lemma Written.content (h : Written sb i off src d d') (hd : Ok sb d) (hoff : off ≤ (d.cur i).size)
    {e : Disk} (hbyte : ∀ o, e.byteAt i o = d'.byteAt i o)
    (hsize : (e.cur i).size = max (d.cur i).size (off + src.length)) :
    e.content i = overwrite (d.content i) off src := by
  have hlen : (d.content i).length = (d.cur i).size := length_content
  have hlen' : (overwrite (d.content i) off src).length = (e.cur i).size := by
    rw [length_overwrite (by rwa [hlen]), hlen, hsize]
  refine List.ext_getElem (by rw [length_content, hlen']) fun o h₁ h₂ => ?_
  have ho : o < (e.cur i).size := by rwa [length_content] at h₁
  rw [← List.getD_eq_getElem _ 0 h₁, ← List.getD_eq_getElem _ 0 h₂, getD_content ho, hbyte,
    getD_overwrite (by rwa [hlen])]
  split_ifs with hin
  · exact h.byte hin.1 hin.2
  · have hod : o < (d.cur i).size := by omega
    rw [getD_content hod]
    rw [hd.cur_eq] at hod
    exact h.byte_off (div_lt_maxfile (hod.trans_le (hd.size_le i))) (hd.sized hod) (by omega)

end Written

/-! ### The operations under `ilock` -/

lemma toNat_add_of_not_lt {off n : UInt32} (h : ¬off + n < off) :
    (off + n).toNat = off.toNat + n.toNat := by
  rw [UInt32.lt_iff_toNat_lt, UInt32.toNat_add] at h
  rw [UInt32.toNat_add]
  have h₁ := off.toNat_lt
  have h₂ := n.toNat_lt
  omega

lemma wp_readi {off n : UInt32} (h : Ok sb d) (hv : d.valid i = true) (ht : (d.dinode i).type ≠ 0) :
    Wp (readi sb i off n) (fun _ => False)
      (fun r d' => r = (d.files.next sb (.readi i off n)).1 ∧ d' = d) d := by
  have hin : d.inode i = d.dinode i := h.synced hv
  have hlen : (d.content i).length = (d.dinode i).size := by rw [length_content, h.cur_eq]
  have hle := h.size_le i
  simp only [Files.next, files_of_type ht, hlen]
  refine wp_bind (wp_get (wp_ite (fun hc => ?_) fun hc => ?_))
  · rw [hin] at hc
    rw [if_pos hc]
    exact wp_pure ⟨rfl, rfl⟩
  · rw [hin] at hc ⊢
    rw [if_neg hc]
    obtain ⟨hoff, hov⟩ := not_or.mp hc
    have hadd := toNat_add_of_not_lt hov
    rw [hadd]
    generalize hm : (if (d.dinode i).size < off.toNat + n.toNat then (d.dinode i).size - off.toNat
      else n.toNat) = m
    have hmle : off.toNat + m ≤ (d.dinode i).size := by
      split_ifs at hm <;> omega
    have hmin : m = min n.toNat ((d.dinode i).size - off.toNat) := by
      split_ifs at hm <;> omega
    refine (wp_readLoop hv m off.toNat (by omega) fun o _ ho => h.sized (by omega)).bind ?_
    rintro bytes s ⟨rfl, rfl⟩
    refine wp_pure ⟨?_, rfl⟩
    have hbytes : (List.range m).map (fun j => s.byteAt i (off.toNat + j)) =
        ((s.content i).drop off.toNat).take n.toNat := by
      refine List.ext_getElem ?_ fun o h₁ _ => ?_
      · rw [List.length_map, List.length_range, List.length_take, List.length_drop, hlen]
        exact hmin
      · simp [content]
    rw [hbytes, List.length_take, List.length_drop, hlen, ← hmin]

lemma wp_writei {src : ℕ → UInt8} {off n : UInt32} (h : Ok sb d) (hv : d.valid i = true)
    (ht : (d.dinode i).type ≠ 0) :
    Wp (writei sb i src off n) (· = .outOfBlocks)
      (fun r d' => (r, []) = (d.files.next sb (.writei i src off n)).1 ∧ Ok sb d' ∧
        d'.files = (d.files.next sb (.writei i src off n)).2 ∧ d'.valid = d.valid) d := by
  have hin : d.inode i = d.dinode i := h.synced hv
  have hlen : (d.content i).length = (d.dinode i).size := by rw [length_content, h.cur_eq]
  have hcur := h.cur_eq i
  simp only [Files.next, files_of_type ht, hlen]
  refine wp_bind (wp_get (wp_ite (fun hc => ?_) fun hc => wp_ite (fun hM => ?_) fun hM => ?_))
  · rw [hin] at hc
    rw [if_pos (by tauto)]
    exact wp_pure ⟨rfl, h, rfl, rfl⟩
  · rw [if_pos (by tauto)]
    exact wp_pure ⟨rfl, h, rfl, rfl⟩
  · rw [hin] at hc
    have hnot : ¬((d.dinode i).size < off.toNat ∨ off + n < off ∨
        MAXFILE * BSIZE < (off + n).toNat) := by tauto
    rw [if_neg hnot]
    obtain ⟨hoff, hov⟩ := not_or.mp hc
    have hadd := toNat_add_of_not_lt hov
    generalize hsrc : (List.range n.toNat).map src = bytes
    have hbytes : bytes.length = n.toNat := by rw [← hsrc, List.length_map, List.length_range]
    have hoff' : off.toNat ≤ (d.cur i).size := by rw [hcur]; omega
    refine (wp_writeLoop bytes.length off.toNat bytes d rfl h.held hv (by omega)).bind
      fun _ d₁ h₁ => ?_
    have hopen := h₁.isOpen h hv
    obtain ⟨htype, hnlink, hsize⟩ := h₁.inode_self
    refine wp_ite (fun hgrow => ?_) fun hkeep => ?_
    · -- the file grows
      rw [hin] at hgrow
      obtain ⟨ip, hip⟩ : ∃ ip : Inode, ip = { d₁.inode i with size := (off + n).toNat } := ⟨_, rfl⟩
      have hset : d₁.setSize i (off + n).toNat = d₁.setInode i ip := by
        rw [hip]
        rfl
      have haddr : ip.addrs = (d₁.inode i).addrs := by rw [hip]
      have hips : ip.size = off.toNat + n.toNat := by rw [hip, ← hadd]
      have hself : (d₁.setInode i ip).inode i = ip := Function.update_self ..
      have hopen' : Open sb i (d₁.setInode i ip) := by
        refine hopen.setInode haddr (by rw [hip]; exact hopen.type) (by omega) fun o ho => ?_
        by_cases hlt : o < (d.dinode i).size
        · have hne := h.sized hlt
          rwa [h₁.blk hne]
        · exact h₁.reached (by omega) (by omega)
      refine wp_bind (wp_modify (wp_bind (wp_modify (wp_pure ?_))))
      rw [hset]
      refine ⟨rfl, hopen'.copyInode, ?_, h₁.valid⟩
      have hfiles := hopen'.files fun j hj =>
        (setInode_files_of_ne hopen.valid haddr hj).trans (h₁.files_of_ne h hj)
      have hcont : (d₁.setInode i ip).content i = overwrite (d.content i) off.toNat bytes := by
        refine h₁.content h hoff' (setInode_byteAt hopen.valid haddr i) ?_
        rw [setInode_cur_self hopen.valid, hcur]
        omega
      have htype' : ip.type = (d.dinode i).type := by rw [← hin, ← htype, hip]
      have hnlink' : ip.nlink = (d.dinode i).nlink := by rw [← hin, ← hnlink, hip]
      rw [hfiles, hcont, hself, htype', hnlink']
    · -- the bytes are in blocks that are there already
      rw [hin] at hkeep
      have hin₁ : d₁.inode = d.inode := h₁.fixed fun o ho hlt => h.sized (by
        rw [UInt32.lt_iff_toNat_lt] at hkeep
        have : (0 : UInt32).toNat = 0 := rfl
        omega)
      have hcurs : (d₁.cur i).size = max (d.cur i).size (off.toNat + bytes.length) := by
        rw [cur_of_valid hopen.valid, hsize, hin, hcur]
        rw [UInt32.lt_iff_toNat_lt] at hkeep
        have : (0 : UInt32).toNat = 0 := rfl
        omega
      have hcont := h₁.content h hoff' (fun _ => rfl) hcurs
      refine wp_pure ⟨rfl, ?_, ?_, h₁.valid⟩
      · refine ⟨h₁.held, fun j => ?_, fun {j o} ho => ?_, fun {j} hvj => ?_, fun {j} hz => ?_⟩
        · rw [h₁.dinode]
          exact h.size_le j
        · rw [h₁.dinode] at ho
          have hne := h.sized ho
          rwa [h₁.blk hne]
        · rw [h₁.valid] at hvj
          rw [hin₁, h₁.dinode]
          exact h.synced hvj
        · rw [h₁.dinode] at hz ⊢
          obtain ⟨hvj, hs, hb⟩ := h.free hz
          have hji : j ≠ i := by
            rintro rfl
            exact ht hz
          exact ⟨(congrFun h₁.valid j).trans hvj, hs, fun k => (h₁.other hji).trans (hb k)⟩
      · change d₁.files = Function.update d.files i _
        funext j
        by_cases hj : j = i
        · subst hj
          have htj : (d₁.dinode j).type ≠ 0 := by rwa [h₁.dinode]
          rw [Function.update_self, files_of_type htj, hcont, h₁.dinode]
        · rw [Function.update_of_ne hj]
          exact h₁.files_of_ne h hj

/-! ### `iput` -/

/-- The disk after the entry of an inode without links has been given up. -/
def freed (d : Disk) (sb : Superblock) (i : ℕ) : Disk :=
  ((d.setType i 0).copyInode sb i).recycled i

lemma Emptied.freed_cur_self {s : Disk} :
    (s.freed sb i).cur i = { s.inode i with type := 0 } := by
  have hv : (s.freed sb i).valid i = false := Function.update_self ..
  have hi : (s.setType i 0).inode i = { s.inode i with type := 0 } := Function.update_self ..
  rw [cur, hv, if_neg (by simp), ← hi]
  exact Function.update_self ..

lemma Emptied.freed_dinode_of_ne {s : Disk} (h : Emptied sb i d s) {j : ℕ} (hj : j ≠ i) :
    (s.freed sb i).dinode j = d.dinode j := by
  have hd : (s.freed sb i).dinode j = s.dinode j := Function.update_of_ne hj ..
  rw [hd, h.dinode, Function.update_of_ne hj]

lemma Emptied.freed_valid_of_ne {s : Disk} (h : Emptied sb i d s) {j : ℕ} (hj : j ≠ i) :
    (s.freed sb i).valid j = d.valid j := by
  rw [← h.valid]
  exact Function.update_of_ne hj ..

lemma Emptied.freed_inode_of_ne {s : Disk} (h : Emptied sb i d s) {j : ℕ} (hj : j ≠ i) :
    (s.freed sb i).inode j = d.inode j := by
  rw [← h.other hj]
  exact Function.update_of_ne hj ..

lemma Emptied.freed_cur_of_ne {s : Disk} (h : Emptied sb i d s) {j : ℕ} (hj : j ≠ i) :
    (s.freed sb i).cur j = d.cur j := by
  rw [cur, cur, h.freed_dinode_of_ne hj, h.freed_valid_of_ne hj, h.freed_inode_of_ne hj]

lemma Emptied.freed_blk {s : Disk} (h : Emptied sb i d s) (j k : ℕ) :
    (s.freed sb i).blk j k = if j = i then 0 else d.blk j k := by
  by_cases hj : j = i
  · subst hj
    have hcur : ((s.freed sb j).cur j).addrs = (s.inode j).addrs := by
      rw [Emptied.freed_cur_self]
    have hN : ((s.freed sb j).cur j).addrs NDIRECT = 0 := by rw [hcur, h.addrs le_rfl]
    rw [if_pos rfl]
    obtain hk | ⟨m, hm, rfl⟩ | rfl | hk := slot_cases k
    · rw [blk_direct hk, hcur, h.addrs hk.le]
    · exact blk_entry_of_zero hm hN
    · rw [blk_indirect, hN]
    · exact blk_of_gt hk
  · rw [if_neg hj]
    exact blk_congr (congrArg Inode.addrs (h.freed_cur_of_ne hj)) fun _ => congrFun h.data _

/-- The blocks of the inode are free, and those of the others are not. -/
lemma Emptied.freed_held {s : Disk} (h : Emptied sb i d s) (hd : Held sb d) :
    Held sb (s.freed sb i) := by
  have hbit : (s.freed sb i).bitmap = s.bitmap := rfl
  have hblk := h.freed_blk
  refine ⟨fun {b} hb => ?_, fun {j k j' k'} hne he => ?_, fun {j k} hne => ?_, fun {b} hb hbb => ?_⟩
  · rw [hbit, h.bitmap]
    refine ⟨hd.low hb, fun k hne he => ?_⟩
    have := (hd.used hne).2.1
    omega
  · rw [hblk] at hne
    rw [hblk, hblk] at he
    split_ifs at hne he with h₁ h₂
    · exact absurd rfl hne
    · exact absurd rfl hne
    · exact absurd he hne
    · exact hd.inj hne he
  · rw [hblk] at hne ⊢
    split_ifs at hne ⊢ with h₁
    · exact absurd rfl hne
    · obtain ⟨hb, hr⟩ := hd.used hne
      rw [hbit, h.bitmap]
      exact ⟨⟨hb, fun k' hk' he => h₁ (hd.inj hk' he).1.symm⟩, hr⟩
  · rw [hbit, h.bitmap] at hbb
    obtain ⟨j, k, hjk⟩ := hd.exact hb hbb.1
    refine ⟨j, k, ?_⟩
    rw [hblk, if_neg, hjk]
    rintro rfl
    exact hbb.2 k (by rw [hjk]; exact Nat.ne_of_gt (sb.pos.trans_le hb)) hjk

lemma Emptied.freed_ok {s : Disk} (h : Emptied sb i d s) (hd : Ok sb d) : Ok sb (s.freed sb i) := by
  have hself : (s.freed sb i).dinode i = { s.inode i with type := 0 } := by
    have hi : (s.setType i 0).inode i = { s.inode i with type := 0 } := Function.update_self ..
    rw [← hi]
    exact Function.update_self ..
  have hv : (s.freed sb i).valid i = false := Function.update_self ..
  have hsize : ((s.freed sb i).dinode i).size = 0 := by rw [hself, h.size]
  refine ⟨h.freed_held hd.held, fun j => ?_, fun {j o} ho => ?_, fun {j} hvj => ?_,
    fun {j} hz => ?_⟩
  · by_cases hj : j = i
    · subst hj
      omega
    · rw [h.freed_dinode_of_ne hj]
      exact hd.size_le j
  · by_cases hj : j = i
    · subst hj
      omega
    · rw [h.freed_dinode_of_ne hj] at ho
      rw [h.freed_blk, if_neg hj]
      exact hd.sized ho
  · have hj : j ≠ i := by
      rintro rfl
      exact absurd (hvj.symm.trans hv) (by simp)
    rw [h.freed_valid_of_ne hj] at hvj
    rw [h.freed_inode_of_ne hj, h.freed_dinode_of_ne hj]
    exact hd.synced hvj
  · by_cases hj : j = i
    · subst hj
      exact ⟨hv, hsize, fun k => by rw [h.freed_blk, if_pos rfl]⟩
    · rw [h.freed_dinode_of_ne hj] at hz ⊢
      obtain ⟨hvj, hs, hb⟩ := hd.free hz
      exact ⟨(h.freed_valid_of_ne hj).trans hvj, hs, fun k => by
        rw [h.freed_blk, if_neg hj]
        exact hb k⟩

lemma Emptied.freed_files {s : Disk} (h : Emptied sb i d s) :
    (s.freed sb i).files = Function.update d.files i none := by
  funext j
  by_cases hj : j = i
  · subst hj
    have hi : (s.setType j 0).inode j = { s.inode j with type := 0 } := Function.update_self ..
    have hself : (s.freed sb j).dinode j = (s.setType j 0).inode j := Function.update_self ..
    rw [Function.update_self, files, hself, hi, if_pos rfl]
  · have hc : (s.freed sb i).content j = d.content j := by
      refine content_congr (congrArg Inode.size (h.freed_cur_of_ne hj)) fun o _ => ?_
      have hdata : (s.freed sb i).data = d.data := h.data
      rw [byteAt, byteAt, h.freed_blk, if_neg hj, hdata]
    rw [Function.update_of_ne hj, files, files, h.freed_dinode_of_ne hj, hc]

lemma wp_iput (h : Ok sb d) (hv : d.valid i = true) (ht : (d.dinode i).type ≠ 0) :
    Wp (iput sb i) (fun _ => False)
      (fun _ d' => Ok sb d' ∧ d'.files = (d.files.next sb (.iput i)).2 ∧
        ∀ j, j ≠ i → d'.valid j = d.valid j) d := by
  have hin : d.inode i = d.dinode i := h.synced hv
  simp only [Files.next, files_of_type ht]
  refine wp_bind (wp_get (wp_ite (fun hc => ?_) fun hc => ?_))
  · rw [hin] at hc
    rw [if_pos hc.2]
    refine (wp_itrunc h.held hv).bind fun _ s hs => ?_
    refine wp_bind (wp_modify (wp_bind (wp_modify (wp_modify ?_))))
    exact ⟨hs.freed_ok h, hs.freed_files, fun j hj => hs.freed_valid_of_ne hj⟩
  · rw [hin] at hc
    rw [if_neg fun hn => hc ⟨hv, hn⟩]
    exact wp_pure ⟨h, rfl, fun _ _ => rfl⟩

end Disk

open Disk

variable {sb}

lemma next_iput_reply (fs : Files) (i : ℕ) : (fs.next sb (.iput i)).1 = (0, []) := by
  simp only [Files.next]
  split <;> rfl

lemma next_readi_state (fs : Files) (i : ℕ) (off n : UInt32) :
    (fs.next sb (.readi i off n)).2 = fs := by
  simp only [Files.next]
  split
  · rfl
  · split <;> rfl

/-- An inode without a type gets one. -/
lemma wp_ialloc {d : Disk} {type : ℤ} : Wp (ialloc sb type) (· = .noInodes)
    (fun i d' => ((List.range sb.ninodes).drop 1).find? (fun i => (d.files i).isNone) = some i ∧
      (d.dinode i).type = 0 ∧ d' = d.typed sb i type) d := by
  have hnone : (fun i => (d.files i).isNone) = fun i => (d.dinode i).type == 0 :=
    funext fun i => files_isNone
  rw [hnone]
  refine wp_bind (wp_get ?_)
  cases hf : ((List.range sb.ninodes).drop 1).find? fun i => (d.dinode i).type == 0 with
  | none => exact wp_throw rfl
  | some i =>
    have hi : (d.dinode i).type = 0 := by simpa using List.find?_some hf
    exact wp_bind (wp_modify (wp_pure ⟨rfl, hi, rfl⟩))

/-- **One operation**: it has the reply of the files without blocks, and does to them what it
should. -/
lemma wp_perform {d : Disk} {fs : Files} (op : Op) (h : Ok sb d ∧ d.files = fs)
    (ha : fs.Allows op) :
    Wp (perform sb op) (Fails op)
      (fun r d' => r = (fs.next sb op).1 ∧ Ok sb d' ∧ d'.files = (fs.next sb op).2) d := by
  obtain ⟨hd, rfl⟩ := h
  have htype : ∀ {i f}, d.files i = some f → (d.dinode i).type ≠ 0 := by
    intro i f hf hz
    rw [files, if_pos hz] at hf
    exact absurd hf (by simp)
  cases op with
  | begin_op =>
    refine wp_bind (wp_modify (wp_pure ⟨rfl, ?_, rfl⟩))
    exact ⟨hd.held.congr (fun _ _ => rfl) rfl, hd.size_le, hd.sized, hd.synced, hd.free⟩
  | ialloc type =>
    refine (wp_ialloc.mono (fun _ _ hr => hr) fun e he => he).bind fun i d' hr => ?_
    obtain ⟨hf, hi, rfl⟩ := hr
    simp only [Files.next, hf]
    exact wp_pure ⟨rfl, hd.typed hi ha, typed_files hd hi ha⟩
  | recycle i =>
    exact wp_bind (wp_modify (wp_pure ⟨rfl, hd.recycled, recycled_files hd⟩))
  | setNlink i n =>
    obtain ⟨f, hf⟩ := ha
    refine wp_bind (wp_ilock hd (htype hf) fun d₁ hd₁ hv _ hfs _ _ => ?_)
    obtain ⟨hok, hfiles⟩ := hd₁.setNlink hv n
    rw [hfs] at hfiles
    exact wp_bind (wp_modify (wp_bind (wp_modify (wp_pure ⟨rfl, hok, hfiles⟩))))
  | readi i off n =>
    obtain ⟨f, hf, -⟩ := ha
    refine wp_bind (wp_ilock hd (htype hf) fun d₁ hd₁ hv hdi hfs _ _ => ?_)
    have ht : (d₁.dinode i).type ≠ 0 := by
      rw [hdi]
      exact htype hf
    refine (wp_readi hd₁ hv ht).mono ?_ fun e he => he.elim
    rintro r d' ⟨hr, rfl⟩
    rw [hfs] at hr
    exact ⟨hr, hd₁, by rw [hfs, next_readi_state]⟩
  | writei i src off n =>
    obtain ⟨f, hf, -⟩ := ha
    refine wp_bind (wp_ilock hd (htype hf) fun d₁ hd₁ hv hdi hfs _ _ => ?_)
    have ht : (d₁.dinode i).type ≠ 0 := by
      rw [hdi]
      exact htype hf
    refine ((wp_writei hd₁ hv ht).mono (fun _ _ hr => hr) fun e he => he).bind fun r d' hr => ?_
    rw [hfs] at hr
    exact wp_pure ⟨hr.1, hr.2.1, hr.2.2.1⟩
  | iput i =>
    obtain ⟨f, hf⟩ := ha
    refine wp_bind (wp_ilock hd (htype hf) fun d₁ hd₁ hv hdi hfs _ _ => ?_)
    have ht : (d₁.dinode i).type ≠ 0 := by
      rw [hdi]
      exact htype hf
    refine (wp_iput hd₁ hv ht).bind_errors (fun e he => he.elim) fun _ d' hr =>
      wp_pure ⟨?_, hr.1, ?_⟩
    · rw [next_iput_reply]
    · rw [← hfs]
      exact hr.2.1

lemma wp_performs {d : Disk} (h : Ok sb d) (ops : List Op)
    (hops : AllowsAll (Files.next sb) Files.Allows d.files ops) :
    Wp (performAll (perform sb) ops) (fun e => ∃ op ∈ ops, Fails op e)
      (fun rs d' => rs = replies (Files.next sb) d.files ops ∧ Ok sb d' ∧
        d'.files = finish (Files.next sb) d.files ops) d :=
  wp_performAll_finish (R := fun d fs => Ok sb d ∧ d.files = fs)
    (fun _ _ op hR ha => wp_perform op hR ha) ops d d.files ⟨h, rfl⟩ hops

/-- **Files do not show their blocks.**  Whatever is done with the inodes of a disk, the replies are
those of files that are lists of bytes, and so are the files that are left; the only panics are
those of a full disk and of a disk without free inodes. -/
theorem files_of_blocks {d : Disk} (h : Ok sb d) (ops : List Op)
    (hops : AllowsAll (Files.next sb) Files.Allows d.files ops) :
    Wp (performAll (perform sb) ops) (fun e => ∃ op ∈ ops, Fails op e)
      (fun rs d' => rs = replies (Files.next sb) d.files ops ∧ Ok sb d' ∧
        d'.files = finish (Files.next sb) d.files ops) d :=
  wp_performs h ops hops

/-- The layout of the disk that `mkfs` makes. -/
def mkfs : Superblock where
  size := FSSIZE
  ninodes := 200
  inodestart := 32
  bmapstart := 58
  nmeta := 59
  pos := by decide
  le := by decide
  lt := by decide

/-- A disk without files. -/
def blank : Disk where
  bitmap b := decide (b < mkfs.nmeta)
  data _ _ := 0
  dinode _ := Inode.zero
  inode _ := Inode.zero
  valid _ := false
  logged := ∅

lemma blank_blk (i k : ℕ) : blank.blk i k = 0 := by
  rw [blk]
  simp [cur, blank, Inode.zero]

lemma ok_blank : Ok mkfs blank := by
  refine ⟨⟨fun hb => by simpa [blank] using hb, fun hne => absurd (blank_blk _ _) hne,
    fun hne => absurd (blank_blk _ _) hne, fun hb hbb => ?_⟩, fun i => Nat.zero_le _,
    fun ho => absurd ho (Nat.not_lt_zero _), fun hv => absurd hv (by simp [blank]),
    fun _ => ⟨rfl, rfl, blank_blk _⟩⟩
  exact absurd (by simpa [blank] using hbb) (Nat.not_lt.mpr hb)

/-- A file is made and written, its inode is recycled, and it is read. -/
theorem files_of_blocks_two : Wp (performAll (perform mkfs)
      [.ialloc 2, .writei 1 (fun j => UInt8.ofNat j) 0 5, .recycle 1, .readi 1 3 4])
    (fun e => e = .outOfBlocks ∨ e = .noInodes)
    (fun rs d' => rs = [(1, []), (5, []), (0, []), (2, [3, 4])] ∧ Ok mkfs d') blank := by
  have hdir : (2 : ℤ) ≠ 0 := by decide
  have h := files_of_blocks ok_blank
    [.ialloc 2, .writei 1 (fun j => UInt8.ofNat j) 0 5, .recycle 1, .readi 1 3 4]
    ⟨hdir, ⟨_, rfl, by decide⟩, trivial, ⟨_, rfl, by decide⟩, trivial⟩
  refine h.mono (fun rs d' hr => ⟨hr.1, hr.2.1⟩) fun e he => ?_
  obtain ⟨op, hop, he⟩ := he
  simp only [List.mem_cons, List.not_mem_nil, or_false] at hop
  obtain rfl | rfl | rfl | rfl := hop
  · exact Or.inr he
  · exact Or.inl he
  · exact he.elim
  · exact he.elim

/-- **The free map is right.**  Whatever is done with the inodes of a disk, no block is in two slots
of inodes, and the bit of a data block is set if and only if the block is in a slot. -/
theorem free_map {d : Disk} (h : Ok sb d) (ops : List Op)
    (hops : AllowsAll (Files.next sb) Files.Allows d.files ops) :
    Wp (performAll (perform sb) ops) (fun e => ∃ op ∈ ops, Fails op e)
      (fun _ d' => (∀ i k j l, d'.blk i k ≠ 0 → d'.blk i k = d'.blk j l → i = j ∧ k = l) ∧
        ∀ b, sb.nmeta ≤ b → (d'.bitmap b = true ↔ ∃ i k, d'.blk i k = b)) d := by
  refine (wp_performs h ops hops).post fun _ d' hd' => ?_
  obtain ⟨-, hok, -⟩ := hd'
  refine ⟨fun i k j l hne he => hok.held.inj hne he, fun b hb => ⟨hok.held.exact hb, ?_⟩⟩
  rintro ⟨i, k, rfl⟩
  exact (hok.held.used (Nat.ne_of_gt (sb.pos.trans_le hb))).1

/-- A file is made and written, and its last link goes. -/
theorem free_map_iput : Wp (performAll (perform mkfs)
      [.ialloc 2, .writei 1 (fun j => UInt8.ofNat j) 0 600, .iput 1])
    (fun e => e = .outOfBlocks ∨ e = .noInodes)
    (fun _ d' => ∀ b, 59 ≤ b → (d'.bitmap b = true ↔ ∃ i k, d'.blk i k = b)) blank := by
  have hdir : (2 : ℤ) ≠ 0 := by decide
  have h := free_map ok_blank [.ialloc 2, .writei 1 (fun j => UInt8.ofNat j) 0 600, .iput 1]
    ⟨hdir, ⟨_, rfl, by decide⟩, ⟨_, rfl⟩, trivial⟩
  refine h.mono (fun _ d' hr => hr.2) fun e he => ?_
  obtain ⟨op, hop, he⟩ := he
  simp only [List.mem_cons, List.not_mem_nil, or_false] at hop
  obtain rfl | rfl | rfl := hop
  · exact Or.inr he
  · exact Or.inl he
  · exact he.elim

end Xv6Projects.Fs
