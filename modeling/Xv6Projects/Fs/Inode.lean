import Xv6Projects.Fs.Blocks
import Xv6Projects.Library.Wp

/-!
# Inodes

The blocks of files: the free map, direct and indirect blocks, and reading and writing at an
offset, as one thread does it that holds the lock of the inode inside a transaction.  `logged` is
the set of the blocks that the transaction has passed to `log_write`.
-/

namespace Xv6Projects.Fs

open Library

/-! ### Constants of the source -/

/-- Block numbers in an inode itself. -/
def NDIRECT : ℕ := 12

/-- Block numbers in an indirect block. -/
def NINDIRECT : ℕ := BSIZE / 4

/-- Max blocks of a file. -/
def MAXFILE : ℕ := NDIRECT + NINDIRECT

/-- Inodes per block. -/
def IPB : ℕ := BSIZE / 64

/-- Bitmap bits per block. -/
def BPB : ℕ := BSIZE * 8

/-- A file that is a device. -/
def T_DEV : ℤ := 3

/-- The layout of a disk; `nmeta` is the number of blocks before the data blocks. -/
structure Superblock where
  size : ℕ
  ninodes : ℕ
  inodestart : ℕ
  bmapstart : ℕ
  nmeta : ℕ
  pos : 0 < nmeta
  le : nmeta ≤ size
  lt : size < UInt32.size

namespace Superblock

/-- Block containing inode `i`. -/
def IBLOCK (sb : Superblock) (i : ℕ) : ℕ := i / IPB + sb.inodestart

/-- Block of free map containing bit for block `b`. -/
def BBLOCK (sb : Superblock) (b : ℕ) : ℕ := b / BPB + sb.bmapstart

end Superblock

/-- An inode.  `nlink` is a `short` in the source; it does not overflow (`wp_calls_nlink`). -/
@[ext]
structure Inode where
  type : ℤ
  nlink : ℤ
  size : ℕ
  addrs : ℕ → ℕ

/-- An inode after `memset`. -/
def Inode.zero : Inode := ⟨0, 0, 0, fun _ => 0⟩

/-- The free map, the data blocks, the inodes on disk and those in memory. -/
structure Disk where
  bitmap : ℕ → Bool
  data : ℕ → Data
  dinode : ℕ → Inode
  inode : ℕ → Inode
  valid : ℕ → Bool
  logged : Finset ℕ

namespace Disk

/-- `log_write` of block `b`, without its panic when the transaction is too big for the log. -/
def log (d : Disk) (b : ℕ) : Disk := { d with logged := insert b d.logged }

/-- Block `b` is changed and passed to `log_write`. -/
def setData (d : Disk) (b : ℕ) (x : Data) : Disk :=
  { d with data := Function.update d.data b x }.log b

/-- Bit `b` of the free map is changed. -/
def setBit (d : Disk) (sb : Superblock) (b : ℕ) (v : Bool) : Disk :=
  { d with bitmap := Function.update d.bitmap b v }.log (sb.BBLOCK b)

/-- The inode in memory is changed. -/
def setInode (d : Disk) (i : ℕ) (ip : Inode) : Disk :=
  { d with inode := Function.update d.inode i ip }

def setAddr (d : Disk) (i k a : ℕ) : Disk :=
  d.setInode i { d.inode i with addrs := Function.update (d.inode i).addrs k a }

def setSize (d : Disk) (i n : ℕ) : Disk := d.setInode i { d.inode i with size := n }

def setType (d : Disk) (i : ℕ) (t : ℤ) : Disk := d.setInode i { d.inode i with type := t }

/-- The inode in memory is copied to the disk. -/
def copyInode (d : Disk) (sb : Superblock) (i : ℕ) : Disk :=
  { d with dinode := Function.update d.dinode i (d.inode i) }.log (sb.IBLOCK i)

end Disk

/-- What the functions of the file system panic with; `deadlock` stands for a process that waits for
a lock that it holds itself. -/
inductive Panic
  | outOfBlocks
  | freeingFree
  | outOfRange
  | noInodes
  | noType
  | shortWrite
  | noSlots
  | deadlock
  | ilock
  | iunlock
  | notDir
  | dirRead
  | dirWrite
  | unlinkWrite
  | nlink
  | dots
  | createLink
deriving DecidableEq

/-- Programs over the blocks of files. -/
abbrev FM := Prog Disk Panic

variable (sb : Superblock)

/-! ### Blocks -/

def bzero (b : ℕ) : FM Unit := modify fun d => d.setData b fun _ => 0

/-- The first free block is taken, with zeros in it. -/
def balloc : FM ℕ := do
  let d ← get
  match (List.range sb.size).find? fun b => !d.bitmap b with
  | none => throw .outOfBlocks
  | some b => do
      modify fun d => d.setBit sb b true
      bzero b
      return b

def bfree (b : ℕ) : FM Unit := do
  let d ← get
  if d.bitmap b = false then throw .freeingFree
  else modify fun d => d.setBit sb b false

/-! ### Inodes -/

/-- The first inode without a type gets one. -/
def ialloc (type : ℤ) : FM ℕ := do
  let d ← get
  match ((List.range sb.ninodes).drop 1).find? fun i => (d.dinode i).type == 0 with
  | none => throw .noInodes
  | some i => do
      modify fun d => { d with
        dinode := Function.update d.dinode i { Inode.zero with type := type } }.log (sb.IBLOCK i)
      return i

def iupdate (i : ℕ) : FM Unit := modify fun d => d.copyInode sb i

/-- The part of `ilock` that reads the inode from the disk. -/
def ilock (i : ℕ) : FM Unit := do
  let d ← get
  if d.valid i = false then do
    modify fun d => { d.setInode i (d.dinode i) with valid := Function.update d.valid i true }
    if (d.dinode i).type = 0 then throw .noType
    else pure ()
  else pure ()

/-! ### Inode content -/

/-- `ip->addrs[k]`, which is allocated if necessary. -/
def addr (i k : ℕ) : FM ℕ := do
  let d ← get
  let a := (d.inode i).addrs k
  if a = 0 then do
    let a ← balloc sb
    modify fun d => d.setAddr i k a
    return a
  else return a

/-- The number of block `bn` of an inode, which is allocated if necessary. -/
def bmap (i bn : ℕ) : FM ℕ :=
  if bn < NDIRECT then addr sb i bn
  else
    let j := bn - NDIRECT
    if j < NINDIRECT then do
      let a ← addr sb i NDIRECT
      let d ← get
      let w := ((d.data a).word (4 * j)).toNat
      if w = 0 then do
        let b ← balloc sb
        modify fun d => d.setData a ((d.data a).setWord (4 * j) (UInt32.ofNat b))
        return b
      else return w
    else throw .outOfRange

/-- A direct block is freed. -/
def freeDirect (i k : ℕ) : FM Unit := do
  let d ← get
  let a := (d.inode i).addrs k
  if a = 0 then pure ()
  else do
    bfree sb a
    modify fun d => d.setAddr i k 0

/-- A block of an indirect block `a` is freed. -/
def freeIndirect (a j : ℕ) : FM Unit := do
  let d ← get
  let w := ((d.data a).word (4 * j)).toNat
  if w = 0 then pure () else bfree sb w

/-- Discard the contents of an inode. -/
def itrunc (i : ℕ) : FM Unit := do
  (List.range NDIRECT).forM (freeDirect sb i)
  let d ← get
  let a := (d.inode i).addrs NDIRECT
  if a = 0 then pure ()
  else do
    (List.range NINDIRECT).forM (freeIndirect sb a)
    bfree sb a
    modify fun d => d.setAddr i NDIRECT 0
  modify fun d => d.setSize i 0
  iupdate sb i

/-- The part of `iput` for an inode without links and without other references. -/
def iput (i : ℕ) : FM Unit := do
  let d ← get
  if d.valid i = true ∧ (d.inode i).nlink = 0 then do
    itrunc sb i
    modify fun d => d.setType i 0
    iupdate sb i
    modify fun d => { d with valid := Function.update d.valid i false }
  else pure ()

/-- The loop of `readi`: `n` bytes from offset `off` on. -/
def readLoop (i off n : ℕ) : FM (List UInt8) :=
  if n = 0 then return []
  else do
    let a ← bmap sb i (off / BSIZE)
    let d ← get
    let m := min n (BSIZE - off % BSIZE)
    let rest ← readLoop i (off + m) (n - m)
    return (List.range m).map (fun j => d.data a (off % BSIZE + j)) ++ rest
termination_by n
decreasing_by
  have : off % BSIZE < BSIZE := Nat.mod_lt _ (by decide)
  omega

/-- The bytes of a block after `memmove`. -/
def memmove (x : Data) (start : ℕ) (src : List UInt8) : Data := fun j =>
  if start ≤ j ∧ j < start + src.length then src.getD (j - start) 0 else x j

/-- The loop of `writei`: the bytes `src` from offset `off` on. -/
def writeLoop (i off : ℕ) (src : List UInt8) : FM Unit :=
  if src = [] then pure ()
  else do
    let a ← bmap sb i (off / BSIZE)
    let m := min src.length (BSIZE - off % BSIZE)
    modify fun d => d.setData a (memmove (d.data a) (off % BSIZE) (src.take m))
    writeLoop i (off + m) (src.drop m)
termination_by src.length
decreasing_by
  have : off % BSIZE < BSIZE := Nat.mod_lt _ (by decide)
  have : 0 < src.length := List.length_pos_of_ne_nil ‹_›
  rw [List.length_drop]
  omega

/-- Read data from an inode that is not a device: the value that is returned, and the bytes. -/
def readi (i : ℕ) (off n : UInt32) : FM (ℤ × List UInt8) := do
  let d ← get
  let size := (d.inode i).size
  if size < off.toNat ∨ off + n < off then return (-1, [])
  else do
    let n := if size < (off + n).toNat then size - off.toNat else n.toNat
    let bytes ← readLoop sb i off.toNat n
    return (n, bytes)

/-- Write data to an inode that is not a device. -/
def writei (i : ℕ) (src : ℕ → UInt8) (off n : UInt32) : FM ℤ := do
  let d ← get
  let size := (d.inode i).size
  if size < off.toNat ∨ off + n < off then return -1
  else if MAXFILE * BSIZE < (off + n).toNat then return -1
  else do
    writeLoop sb i off.toNat ((List.range n.toNat).map src)
    if 0 < n ∧ size < (off + n).toNat then do
      modify fun d => d.setSize i (off + n).toNat
      iupdate sb i
    else pure ()
    return n.toNat

end Xv6Projects.Fs
