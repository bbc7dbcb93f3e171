import Xv6Projects.Library.Composition
import Xv6Projects.Threads.Words

/-!
# Blocks of a disk

What the buffer cache is for: a process that has read a block has it for itself until it releases
it, sees in it what the last process left there, and decides when it is written to the disk.
-/

namespace Xv6Projects.Fs

open Library

/-! ### Constants of the source -/

/-- Block size. -/
def BSIZE : ℕ := 512

/-- Max number of blocks that a file-system operation writes. -/
def MAXOPBLOCKS : ℕ := 10

/-- Max data blocks in the log on disk. -/
def LOGSIZE : ℕ := MAXOPBLOCKS * 3

/-- Size of the buffer cache. -/
def NBUF : ℕ := MAXOPBLOCKS * 3

/-- Size of the file system in blocks. -/
def FSSIZE : ℕ := 1000

/-- Device number of the file-system root disk. -/
def ROOTDEV : ℕ := 1

/-- The bytes of a block, by offset. -/
abbrev Data := Threads.Memory

/-! ### The blocks as their users see them -/

/-- The calls of the buffer cache, when they have an effect that other processes can see: `bread`
at its return, `bwrite` when it is called and when the block is on the disk, and `brelse`.  The
call of `log_write` stands with the change of the buffer before it. -/
inductive Act (T : Type)
  | bread (t : T) (b : ℕ) (d : Data)
  | log_write (t : T) (b : ℕ) (d : Data)
  | bwrite (t : T) (b : ℕ) (d : Data)
  | written (b : ℕ)
  | brelse (t : T) (b : ℕ)
  | crash

/-- The blocks on disk, the blocks as a process reads them, and who has which block. -/
structure Blocks (T : Type) where
  disk : ℕ → Data
  view : ℕ → Data
  owner : ℕ → Option T

variable {T : Type}

namespace Blocks

/-- The effect of a call. -/
inductive Step : Blocks T → Act T → Blocks T → Prop
  | bread {s : Blocks T} {t : T} {b : ℕ} : s.owner b = none → b < FSSIZE →
      Step s (.bread t b (s.view b)) { s with owner := Function.update s.owner b (some t) }
  | log_write {s : Blocks T} {t : T} {b : ℕ} (d : Data) : s.owner b = some t →
      Step s (.log_write t b d) { s with view := Function.update s.view b d }
  | bwrite {s : Blocks T} {t : T} {b : ℕ} (d : Data) : s.owner b = some t →
      Step s (.bwrite t b d) { s with view := Function.update s.view b d }
  | written {s : Blocks T} (b : ℕ) :
      Step s (.written b) { s with disk := Function.update s.disk b (s.view b) }
  | brelse {s : Blocks T} {t : T} {b : ℕ} : s.owner b = some t →
      Step s (.brelse t b) { s with owner := Function.update s.owner b none }
  | crash {s : Blocks T} : Step s .crash { s with view := s.disk, owner := fun _ => none }

/-- The blocks of a disk, before any of them is read. -/
def start (disk : ℕ → Data) : Blocks T := ⟨disk, disk, fun _ => none⟩

end Blocks

end Xv6Projects.Fs
