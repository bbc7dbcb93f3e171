import Mathlib.Data.List.FinRange
import Mathlib.Data.Fintype.Basic
import Xv6Projects.Fs.Blocks

/-!
# The buffer cache and the disk queue

`bio.c` over `ide.c`.  The buffers are the entries of an array that is kept in the order of use.
A thread that reads a block looks for its buffer or takes over one that is not in use, waits for
the lock of the buffer, and has the disk driver read the block if the buffer is not valid.  Where
a thread may be suspended between two of these, it stands at a place of its own.
-/

namespace Xv6Projects.Fs

open Library

/-! ### Buffers -/

/-- A sleep lock: `pid` is that of the holder. -/
structure Sleeplock where
  locked : Bool
  pid : ℕ

/-- `struct buf`, with the flags `B_VALID` and `B_DIRTY`. -/
structure Buf where
  valid : Bool
  dirty : Bool
  dev : ℕ
  blockno : ℕ
  lock : Sleeplock
  refcnt : ℕ
  data : Data

/-- `bcache`: the buffers, and the list of them with the most recently used first. -/
structure Bcache where
  buf : Fin NBUF → Buf
  lru : List (Fin NBUF)

namespace Bcache

/-- A buffer before its first use. -/
def zero : Buf := ⟨false, false, 0, 0, ⟨false, 0⟩, 0, fun _ => 0⟩

/-- `binit`: each buffer is put in front of the ones before it. -/
def binit : Bcache := ⟨fun _ => zero, (List.finRange NBUF).reverse⟩

/-- Change one buffer. -/
def upd (c : Bcache) (i : Fin NBUF) (f : Buf → Buf) : Bcache :=
  { c with buf := Function.update c.buf i (f (c.buf i)) }

@[simp] lemma upd_lru (c : Bcache) (i : Fin NBUF) (f : Buf → Buf) : (c.upd i f).lru = c.lru := rfl

@[simp] lemma upd_buf_self (c : Bcache) (i : Fin NBUF) (f : Buf → Buf) :
    (c.upd i f).buf i = f (c.buf i) :=
  Function.update_self ..

@[simp] lemma upd_buf_of_ne (c : Bcache) {i j : Fin NBUF} (f : Buf → Buf) (h : j ≠ i) :
    (c.upd i f).buf j = c.buf j :=
  Function.update_of_ne h ..

/-- `bget`, until it waits for the lock of the buffer.  Without a buffer to recycle it panics. -/
def bget (c : Bcache) (dev blockno : ℕ) : Option (Fin NBUF × Bcache) :=
  match c.lru.find? fun i => (c.buf i).dev = dev ∧ (c.buf i).blockno = blockno with
  | some i => some (i, c.upd i fun b => { b with refcnt := b.refcnt + 1 })
  | none =>
    match c.lru.reverse.find? fun i => (c.buf i).refcnt = 0 ∧ (c.buf i).dirty = false with
    | some i => some (i, c.upd i fun b =>
        { b with dev := dev, blockno := blockno, valid := false, dirty := false, refcnt := 1 })
    | none => none

/-- The end of `brelse`: a buffer that nobody refers to is moved to the head of the list. -/
def unref (c : Bcache) (i : Fin NBUF) : Bcache :=
  let c' := c.upd i fun b => { b with refcnt := b.refcnt - 1 }
  if (c'.buf i).refcnt = 0 then { c' with lru := i :: c'.lru.erase i } else c'

end Bcache

/-! ### Threads in the buffer cache -/

/-- Where a thread stands in `bio.c` and `ide.c`. -/
inductive Io
  /-- outside -/
  | run
  /-- in `acquiresleep`, called by `bget` for block `b` -/
  | lock (i : Fin NBUF) (b : ℕ)
  /-- in `bread`, after `bget` -/
  | got (i : Fin NBUF) (b : ℕ)
  /-- in `iderw`, called by `bread` -/
  | read (i : Fin NBUF) (b : ℕ)
  /-- in `iderw`, called by `bwrite` -/
  | write (i : Fin NBUF)
  /-- in `brelse`, after `releasesleep` -/
  | put (i : Fin NBUF)

/-- The buffer cache, the queue of the disk driver, the disk, and the threads: where each of them
stands, and the locked buffers that `bread` has returned to it. -/
structure Device (T : Type) where
  bcache : Bcache
  idequeue : List (Fin NBUF)
  disk : ℕ → Data
  io : T → Io
  held : T → List (Fin NBUF)

variable {T : Type}

namespace Device

/-- Change one buffer. -/
def upd (s : Device T) (i : Fin NBUF) (f : Buf → Buf) : Device T :=
  { s with bcache := s.bcache.upd i f }

@[simp] lemma upd_bcache (s : Device T) (i : Fin NBUF) (f : Buf → Buf) :
    (s.upd i f).bcache = s.bcache.upd i f := rfl

@[simp] lemma upd_idequeue (s : Device T) (i : Fin NBUF) (f : Buf → Buf) :
    (s.upd i f).idequeue = s.idequeue := rfl

@[simp] lemma upd_disk (s : Device T) (i : Fin NBUF) (f : Buf → Buf) :
    (s.upd i f).disk = s.disk := rfl

@[simp] lemma upd_io (s : Device T) (i : Fin NBUF) (f : Buf → Buf) : (s.upd i f).io = s.io := rfl

@[simp] lemma upd_held (s : Device T) (i : Fin NBUF) (f : Buf → Buf) :
    (s.upd i f).held = s.held := rfl

/-- `holdingsleep`, on the lock of a buffer. -/
def holdingsleep (pid : ℕ) (b : Buf) : Bool := b.lock.locked && b.lock.pid == pid

/-- `idestart` for the first buffer of the queue. -/
def idestart (s : Device T) : Option (Device T) :=
  match s.idequeue.head? with
  | some i => if FSSIZE ≤ (s.bcache.buf i).blockno then none else some s
  | none => some s

/-- `iderw` until it waits for the end of the request: the buffer is appended to the queue, and
the disk is started unless it is busy. -/
def iderw (s : Device T) (pid : ℕ) (i : Fin NBUF) : Option (Device T) :=
  let b := s.bcache.buf i
  if holdingsleep pid b = false then none
  else if b.valid = true ∧ b.dirty = false then none
  else
    let s' := { s with idequeue := s.idequeue ++ [i] }
    if s.idequeue = [] then s'.idestart else some s'

section
variable [DecidableEq T]

/-- Move a thread. -/
def setIo (s : Device T) (t : T) (p : Io) : Device T :=
  { s with io := Function.update s.io t p }

def setHeld (s : Device T) (t : T) (l : List (Fin NBUF)) : Device T :=
  { s with held := Function.update s.held t l }

@[simp] lemma setIo_bcache (s : Device T) (t : T) (p : Io) : (s.setIo t p).bcache = s.bcache := rfl

@[simp] lemma setIo_idequeue (s : Device T) (t : T) (p : Io) :
    (s.setIo t p).idequeue = s.idequeue := rfl

@[simp] lemma setIo_disk (s : Device T) (t : T) (p : Io) : (s.setIo t p).disk = s.disk := rfl

@[simp] lemma setIo_held (s : Device T) (t : T) (p : Io) : (s.setIo t p).held = s.held := rfl

@[simp] lemma setIo_io_self (s : Device T) (t : T) (p : Io) : (s.setIo t p).io t = p :=
  Function.update_self ..

lemma setIo_io_of_ne (s : Device T) {t u : T} (p : Io) (h : u ≠ t) :
    (s.setIo t p).io u = s.io u :=
  Function.update_of_ne h ..

@[simp] lemma setHeld_bcache (s : Device T) (t : T) (l : List (Fin NBUF)) :
    (s.setHeld t l).bcache = s.bcache := rfl

@[simp] lemma setHeld_idequeue (s : Device T) (t : T) (l : List (Fin NBUF)) :
    (s.setHeld t l).idequeue = s.idequeue := rfl

@[simp] lemma setHeld_disk (s : Device T) (t : T) (l : List (Fin NBUF)) :
    (s.setHeld t l).disk = s.disk := rfl

@[simp] lemma setHeld_io (s : Device T) (t : T) (l : List (Fin NBUF)) :
    (s.setHeld t l).io = s.io := rfl

@[simp] lemma setHeld_held_self (s : Device T) (t : T) (l : List (Fin NBUF)) :
    (s.setHeld t l).held t = l :=
  Function.update_self ..

lemma setHeld_held_of_ne (s : Device T) {t u : T} (l : List (Fin NBUF)) (h : u ≠ t) :
    (s.setHeld t l).held u = s.held u :=
  Function.update_of_ne h ..

/-- What a thread, or the disk, does next. -/
inductive Label (T : Type)
  | bget (t : T) (b : ℕ)
  | acquiresleep (t : T)
  | iderw (t : T)
  | bread (t : T)
  | log_write (t : T) (i : Fin NBUF) (d : Data)
  | bwrite (t : T) (i : Fin NBUF) (d : Data)
  | bwriteEnd (t : T)
  | brelse (t : T) (i : Fin NBUF)
  | unref (t : T)
  | ideintr
  | crash

variable (pid : T → ℕ)

/-- One step, and its effect as other processes see it.  There is no step from where the code
panics. -/
def next (s : Device T) : Label T → Option (Option (Act T) × Device T)
  | .bget t b =>
      match s.io t with
      | .run => (s.bcache.bget ROOTDEV b).map fun r =>
          (none, { s with bcache := r.2 }.setIo t (.lock r.1 b))
      | _ => none
  | .acquiresleep t =>
      match s.io t with
      | .lock i b =>
        if (s.bcache.buf i).lock.locked then none
        else some (none,
          (s.upd i fun x => { x with lock := ⟨true, pid t⟩ }).setIo t (.got i b))
      | _ => none
  | .iderw t =>
      match s.io t with
      | .got i b =>
        if (s.bcache.buf i).valid then none
        else (s.iderw (pid t) i).map fun s' => (none, s'.setIo t (.read i b))
      | _ => none
  | .bread t =>
      match s.io t with
      | .got i b =>
        if (s.bcache.buf i).valid then
          some (some (.bread t b (s.bcache.buf i).data),
            (s.setHeld t (i :: s.held t)).setIo t .run)
        else none
      | .read i b =>
        -- the loop of `iderw` ends when the block is valid and not dirty
        if (s.bcache.buf i).valid = true ∧ (s.bcache.buf i).dirty = false then
          some (some (.bread t b (s.bcache.buf i).data),
            (s.setHeld t (i :: s.held t)).setIo t .run)
        else none
      | _ => none
  | .log_write t i d =>
      match s.io t with
      | .run =>
        if i ∈ s.held t then
          some (some (.log_write t (s.bcache.buf i).blockno d),
            s.upd i fun x => { x with data := d, dirty := true })
        else none
      | _ => none
  | .bwrite t i d =>
      match s.io t with
      | .run =>
        if i ∈ s.held t ∧ holdingsleep (pid t) (s.bcache.buf i) = true then
          ((s.upd i fun x => { x with data := d, dirty := true }).iderw (pid t) i).map fun s' =>
            (some (.bwrite t (s.bcache.buf i).blockno d), s'.setIo t (.write i))
        else none
      | _ => none
  | .bwriteEnd t =>
      match s.io t with
      | .write i =>
        if (s.bcache.buf i).valid = true ∧ (s.bcache.buf i).dirty = false then
          some (none, s.setIo t .run)
        else none
      | _ => none
  | .brelse t i =>
      match s.io t with
      | .run =>
        if i ∈ s.held t ∧ holdingsleep (pid t) (s.bcache.buf i) = true then
          some (some (.brelse t (s.bcache.buf i).blockno),
            ((s.upd i fun x => { x with lock := ⟨false, 0⟩ }).setHeld t
              ((s.held t).erase i)).setIo t (.put i))
        else none
      | _ => none
  | .unref t =>
      match s.io t with
      | .put i => some (none, { s with bcache := s.bcache.unref i }.setIo t .run)
      | _ => none
  | .ideintr =>
      match s.idequeue with
      | [] => none
      | i :: q =>
        let b := s.bcache.buf i
        if b.dirty then
          -- the block is on the disk
          ({ s.upd i (fun x => { x with valid := true, dirty := false }) with
            idequeue := q, disk := Function.update s.disk b.blockno b.data }).idestart.map
              fun s' => (some (.written b.blockno), s')
        else
          ({ s.upd i (fun x => { x with data := s.disk b.blockno, valid := true, dirty := false })
            with idequeue := q }).idestart.map fun s' => (none, s')
  | .crash => some (some .crash, ⟨Bcache.binit, [], s.disk, fun _ => .run, fun _ => []⟩)

/-- The steps, by their effect. -/
def Step (s : Device T) (a : Option (Act T)) (s' : Device T) : Prop :=
  ∃ l, s.next pid l = some (a, s')

/-- What a step can do. -/
inductive Effect (s : Device T) : Option (Act T) → Device T → Prop
  | bget {t : T} {b : ℕ} {i : Fin NBUF} {c : Bcache} : s.io t = .run →
      s.bcache.bget ROOTDEV b = some (i, c) →
      Effect s none ({ s with bcache := c }.setIo t (.lock i b))
  | acquiresleep {t : T} {b : ℕ} {i : Fin NBUF} : s.io t = .lock i b →
      (s.bcache.buf i).lock.locked = false →
      Effect s none ((s.upd i fun x => { x with lock := ⟨true, pid t⟩ }).setIo t (.got i b))
  | iderw {t : T} {b : ℕ} {i : Fin NBUF} {s' : Device T} : s.io t = .got i b →
      (s.bcache.buf i).valid = false → s.iderw (pid t) i = some s' →
      Effect s none (s'.setIo t (.read i b))
  | bread {t : T} {b : ℕ} {i : Fin NBUF} : (s.bcache.buf i).valid = true →
      s.io t = .got i b ∨ s.io t = .read i b ∧ (s.bcache.buf i).dirty = false →
      Effect s (some (.bread t b (s.bcache.buf i).data))
        ((s.setHeld t (i :: s.held t)).setIo t .run)
  | log_write {t : T} {i : Fin NBUF} (d : Data) : s.io t = .run → i ∈ s.held t →
      Effect s (some (.log_write t (s.bcache.buf i).blockno d))
        (s.upd i fun x => { x with data := d, dirty := true })
  | bwrite {t : T} {i : Fin NBUF} {d : Data} {s' : Device T} : s.io t = .run → i ∈ s.held t →
      (s.upd i fun x => { x with data := d, dirty := true }).iderw (pid t) i = some s' →
      Effect s (some (.bwrite t (s.bcache.buf i).blockno d)) (s'.setIo t (.write i))
  | bwriteEnd {t : T} {i : Fin NBUF} : s.io t = .write i → (s.bcache.buf i).dirty = false →
      Effect s none (s.setIo t .run)
  | brelse {t : T} {i : Fin NBUF} : s.io t = .run → i ∈ s.held t →
      Effect s (some (.brelse t (s.bcache.buf i).blockno))
        (((s.upd i fun x => { x with lock := ⟨false, 0⟩ }).setHeld t ((s.held t).erase i)).setIo t
          (.put i))
  | unref {t : T} {i : Fin NBUF} : s.io t = .put i →
      Effect s none ({ s with bcache := s.bcache.unref i }.setIo t .run)
  | written {i : Fin NBUF} {q : List (Fin NBUF)} {s' : Device T} : s.idequeue = i :: q →
      (s.bcache.buf i).dirty = true →
      { s.upd i fun x => { x with data := (s.bcache.buf i).data, valid := true, dirty := false }
        with
        idequeue := q
        disk := Function.update s.disk (s.bcache.buf i).blockno (s.bcache.buf i).data
        }.idestart = some s' →
      Effect s (some (.written (s.bcache.buf i).blockno)) s'
  | filled {i : Fin NBUF} {q : List (Fin NBUF)} {s' : Device T} : s.idequeue = i :: q →
      (s.bcache.buf i).dirty = false →
      { s.upd i fun x =>
        { x with data := s.disk (s.bcache.buf i).blockno, valid := true, dirty := false } with
        idequeue := q }.idestart = some s' →
      Effect s none s'
  | crash : Effect s (some .crash) ⟨Bcache.binit, [], s.disk, fun _ => .run, fun _ => []⟩

lemma Effect.of_next {s s' : Device T} {l : Label T} {a : Option (Act T)}
    (h : s.next pid l = some (a, s')) : Effect pid s a s' := by
  cases l with
  | bget t b =>
    simp only [next] at h
    split at h
    · rename_i ht
      obtain ⟨r, hr, hrs⟩ := Option.map_eq_some_iff.mp h
      obtain ⟨rfl, rfl⟩ := Prod.mk.inj hrs
      exact .bget ht hr
    · exact absurd h (by simp)
  | acquiresleep t =>
    simp only [next] at h
    split at h
    · rename_i ht
      split_ifs at h with hlocked
      obtain ⟨rfl, rfl⟩ := Prod.mk.inj (Option.some.inj h)
      exact .acquiresleep ht (by simpa using hlocked)
    · exact absurd h (by simp)
  | iderw t =>
    simp only [next] at h
    split at h
    · rename_i ht
      split_ifs at h with hv
      obtain ⟨r, hr, hrs⟩ := Option.map_eq_some_iff.mp h
      obtain ⟨rfl, rfl⟩ := Prod.mk.inj hrs
      exact .iderw ht (by simpa using hv) hr
    · exact absurd h (by simp)
  | bread t =>
    simp only [next] at h
    split at h
    · rename_i ht
      split_ifs at h with hv
      obtain ⟨rfl, rfl⟩ := Prod.mk.inj (Option.some.inj h)
      exact .bread hv (Or.inl ht)
    · rename_i ht
      split_ifs at h with hv
      obtain ⟨rfl, rfl⟩ := Prod.mk.inj (Option.some.inj h)
      exact .bread hv.1 (Or.inr ⟨ht, hv.2⟩)
    · exact absurd h (by simp)
  | log_write t i d =>
    simp only [next] at h
    split at h
    · rename_i ht
      split_ifs at h with hi
      obtain ⟨rfl, rfl⟩ := Prod.mk.inj (Option.some.inj h)
      exact .log_write d ht hi
    · exact absurd h (by simp)
  | bwrite t i d =>
    simp only [next] at h
    split at h
    · rename_i ht
      split_ifs at h with hi
      obtain ⟨r, hr, hrs⟩ := Option.map_eq_some_iff.mp h
      obtain ⟨rfl, rfl⟩ := Prod.mk.inj hrs
      exact .bwrite ht hi.1 hr
    · exact absurd h (by simp)
  | bwriteEnd t =>
    simp only [next] at h
    split at h
    · rename_i ht
      split_ifs at h with hv
      obtain ⟨rfl, rfl⟩ := Prod.mk.inj (Option.some.inj h)
      exact .bwriteEnd ht hv.2
    · exact absurd h (by simp)
  | brelse t i =>
    simp only [next] at h
    split at h
    · rename_i ht
      split_ifs at h with hi
      obtain ⟨rfl, rfl⟩ := Prod.mk.inj (Option.some.inj h)
      exact .brelse ht hi.1
    · exact absurd h (by simp)
  | unref t =>
    simp only [next] at h
    split at h
    · rename_i ht
      obtain ⟨rfl, rfl⟩ := Prod.mk.inj (Option.some.inj h)
      exact .unref ht
    · exact absurd h (by simp)
  | ideintr =>
    simp only [next] at h
    split at h
    · exact absurd h (by simp)
    · rename_i i q hq
      split_ifs at h with hd
      · obtain ⟨r, hr, hrs⟩ := Option.map_eq_some_iff.mp h
        obtain ⟨rfl, rfl⟩ := Prod.mk.inj hrs
        exact .written hq hd hr
      · obtain ⟨r, hr, hrs⟩ := Option.map_eq_some_iff.mp h
        obtain ⟨rfl, rfl⟩ := Prod.mk.inj hrs
        exact .filled hq (by simpa using hd) hr
  | crash =>
    obtain ⟨rfl, rfl⟩ := Prod.mk.inj (Option.some.inj h)
    exact .crash

end

/-- A disk, and the buffer cache after `binit`. -/
def start (disk : ℕ → Data) : Device T := ⟨Bcache.binit, [], disk, fun _ => .run, fun _ => []⟩

end Device

end Xv6Projects.Fs
