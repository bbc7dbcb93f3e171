import Xv6Projects.Fs.Blocks
import Xv6Projects.Library.Count
import Xv6Projects.Library.RedoLog

/-!
# The log

`log.c`.  File-system operations change blocks in the buffer cache and call `log_write`, which
notes the numbers of the blocks.  The operation that ends last commits: it copies the blocks from
the cache to the log on disk, writes the header, copies the blocks from the log to where they
belong, and writes an empty header.  A thread stands at a place of its own between any two calls of
the buffer cache, and the machine may crash at each of them.
-/

namespace Xv6Projects.Fs

open Finset Library

/-! ### The header block -/

/-- `lh->block[i] = l[0]`, `lh->block[i + 1] = l[1]`, and so on. -/
def setBlocks (d : Data) : List ℕ → ℕ → Data
  | [], _ => d
  | b :: l, i => setBlocks (d.setWord (4 + 4 * i) (UInt32.ofNat b)) l (i + 1)

/-- The header block with the numbers of these blocks. -/
def putHead (l : List ℕ) (d : Data) : Data := setBlocks (d.setWord 0 (UInt32.ofNat l.length)) l 0

/-- The block numbers in a header block; `n` is an `int`. -/
def getHead (d : Data) : List ℕ :=
  (List.range (d.word 0).toInt32.toInt.toNat).map fun i => (d.word (4 + 4 * i)).toNat

/-! ### Places -/

/-- Where a thread stands in one turn of the loop of `write_log` or of `install_trans`. -/
inductive Copy
  /-- before the first `bread` -/
  | first
  /-- before the second `bread`, with the data of the first buffer -/
  | second (d : Data)
  /-- before `memmove`, with the data that it moves -/
  | move (d : Data)
  /-- in `bwrite` -/
  | write
  /-- before `brelse` of the buffer that is copied from -/
  | drop
  /-- before `brelse` of the buffer that is copied to -/
  | last

/-- Where a thread stands in `write_head`. -/
inductive Head
  | bread
  /-- with the data of the buffer -/
  | move (d : Data)
  /-- in `bwrite` -/
  | write
  | brelse

/-- Where a thread stands in `log.c`. -/
inductive Place
  /-- outside of an operation -/
  | out
  /-- at the head of the loop of `begin_op` -/
  | begin
  /-- asleep in `begin_op` -/
  | asleep
  /-- in an operation -/
  | op
  | writeLog (tail : ℕ) (c : Copy)
  /-- in the first `write_head` of `commit` -/
  | writeHead (h : Head)
  | install (tail : ℕ) (c : Copy)
  /-- in the `write_head` that clears the log -/
  | clear (h : Head)
  /-- in `end_op`, after `commit` -/
  | committed
  /-- in `read_head`, with the data of the buffer after `bread` -/
  | readHead (d : Option Data)

/-- `log`, and the threads.  The file system is up from the end of `initlog`. -/
structure Log (T : Type) where
  outstanding : ℕ
  committing : Bool
  lh : List ℕ
  up : Bool
  place : T → Place

variable {T : Type}

/-! ### Calls of the buffer cache -/

/-- The call that a thread makes next in a copy of a block; `d` is the data that `bread` returns. -/
def Copy.act (t : T) (fst snd src dst : ℕ) (d : Data) : Copy → Act T
  | .first => .bread t fst d
  | .second _ => .bread t snd d
  | .move d' => .bwrite t dst d'
  | .write => .written dst
  | .drop => .brelse t src
  | .last => .brelse t dst

/-- Where the thread stands then, until the copy is done.  The data to move are those of the first
buffer or of the second one. -/
def Copy.next (useFst : Bool) (d : Data) : Copy → Option Copy
  | .first => some (.second d)
  | .second d' => some (.move (if useFst then d' else d))
  | .move _ => some .write
  | .write => some .drop
  | .drop => some .last
  | .last => none

def Head.act (t : T) (start : ℕ) (lh : List ℕ) (d : Data) : Head → Act T
  | .bread => .bread t start d
  | .move d' => .bwrite t start (putHead lh d')
  | .write => .written start
  | .brelse => .brelse t start

def Head.next (d : Data) : Head → Option Head
  | .bread => some (.move d)
  | .move _ => some .write
  | .write => some .brelse
  | .brelse => none

/-- The blocks that belong to the files: `log_write` is called for these only. -/
def Home (start size b : ℕ) : Prop := start + size ≤ b ∧ b < FSSIZE

instance (start size b : ℕ) : Decidable (Home start size b) := inferInstanceAs (Decidable (_ ∧ _))

/-- `log_write` notes a block; a block that is noted already is absorbed. -/
def absorb (l : List ℕ) (b : ℕ) : List ℕ := if b ∈ l then l else l ++ [b]

namespace Log

/-- `begin_op` lets the caller in: each operation that is inside may still write
`MAXOPBLOCKS` blocks. -/
def Fits (c : Log T) : Prop :=
  c.committing = false ∧ c.lh.length + (c.outstanding + 1) * MAXOPBLOCKS ≤ LOGSIZE

instance (c : Log T) : Decidable c.Fits := inferInstanceAs (Decidable (_ ∧ _))

/-- `wakeup(&log)`. -/
def wakeup (c : Log T) : Log T :=
  { c with place := fun t => match c.place t with
    | .asleep => .begin
    | p => p }

section
variable [DecidableEq T]

/-- Move a thread. -/
def setPlace (c : Log T) (t : T) (p : Place) : Log T :=
  { c with place := Function.update c.place t p }

/-- The head of the loop of `write_log`. -/
def writeLogFrom (c : Log T) (t : T) (tail : ℕ) : Log T :=
  if tail < c.lh.length then c.setPlace t (.writeLog tail .first)
  else c.setPlace t (.writeHead .bread)

/-- The head of the loop of `install_trans`; after it the header in memory is cleared. -/
def installFrom (c : Log T) (t : T) (tail : ℕ) : Log T :=
  if tail < c.lh.length then c.setPlace t (.install tail .first)
  else { c with lh := [] }.setPlace t (.clear .bread)

/-- What a thread does next. -/
inductive Label (T : Type)
  /-- calls `begin_op` -/
  | call (t : T)
  /-- goes through the loop of `begin_op` -/
  | begin_op (t : T)
  | log_write (t : T) (b : ℕ) (d : Data)
  | end_op (t : T)
  /-- ends `end_op` after `commit` -/
  | committed (t : T)
  | bread (t : T) (b : ℕ) (d : Data)
  | brelse (t : T) (b : ℕ)
  /-- goes on with `commit` or with the recovery -/
  | io (t : T) (d : Data)
  /-- the machine stops and boots, and the thread calls `initlog` -/
  | crash (t : T)

/-- The machine at boot: the thread calls `initlog`. -/
def boot (t : T) : Log T :=
  { outstanding := 0, committing := false, lh := [], up := false, place := fun _ => .out : Log T
    }.setPlace t (.readHead none)

variable (start size : ℕ)

/-- The next step of `commit` or of the recovery. -/
def io (c : Log T) (t : T) (d : Data) : Option (Option (Act T) × Log T) :=
  match c.place t with
  | .writeLog tail p =>
    -- `to` is the block of the log, `from` the block of the cache
    some (some (p.act t (start + tail + 1) (c.lh.getD tail 0) (c.lh.getD tail 0)
      (start + tail + 1) d), match p.next false d with
      | some p' => c.setPlace t (.writeLog tail p')
      | none => c.writeLogFrom t (tail + 1))
  | .writeHead p =>
    some (some (p.act t start c.lh d), match p.next d with
      | some p' => c.setPlace t (.writeHead p')
      | none => c.installFrom t 0)
  | .install tail p =>
    -- `lbuf` is the block of the log, `dbuf` the one to write
    some (some (p.act t (start + tail + 1) (c.lh.getD tail 0) (start + tail + 1)
      (c.lh.getD tail 0) d), match p.next true d with
      | some p' => c.setPlace t (.install tail p')
      | none => c.installFrom t (tail + 1))
  | .clear p =>
    some (some (p.act t start c.lh d), match p.next d with
      | some p' => c.setPlace t (.clear p')
      -- `commit` and `recover_from_log` return
      | none => if c.up then c.setPlace t .committed else { c with up := true }.setPlace t .out)
  | .readHead none => some (some (.bread t start d), c.setPlace t (.readHead (some d)))
  | .readHead (some d') =>
    some (some (.brelse t start), { c with lh := getHead d' }.installFrom t 0)
  | _ => none

/-- One step, and the call of the buffer cache in it.  There is no step from where the code
panics. -/
def next (c : Log T) : Label T → Option (Option (Act T) × Log T)
  | .call t =>
      match c.place t with
      | .out => if c.up then some (none, c.setPlace t .begin) else none
      | _ => none
  | .begin_op t =>
      match c.place t with
      | .begin =>
        if c.Fits then some (none, { c with outstanding := c.outstanding + 1 }.setPlace t .op)
        else some (none, c.setPlace t .asleep)
      | _ => none
  | .log_write t b d =>
      match c.place t with
      | .op =>
        if Home start size b then
          if LOGSIZE ≤ c.lh.length ∨ size - 1 ≤ c.lh.length then none
          else if c.outstanding < 1 then none
          else some (some (.log_write t b d),
            { c with lh := absorb c.lh b })
        else none
      | _ => none
  | .end_op t =>
      match c.place t with
      | .op =>
        let c' := { c with outstanding := c.outstanding - 1 }
        if c.committing then none
        else if c'.outstanding = 0 then
          let c' := { c' with committing := true }
          some (none, if c.lh.length = 0 then c'.setPlace t .committed else c'.writeLogFrom t 0)
        else some (none, c'.wakeup.setPlace t .out)
      | _ => none
  | .committed t =>
      match c.place t with
      | .committed => some (none, { c with committing := false }.wakeup.setPlace t .out)
      | _ => none
  | .bread t b d =>
      match c.place t with
      | .out | .op => if c.up then some (some (.bread t b d), c) else none
      | _ => none
  | .brelse t b =>
      match c.place t with
      | .out | .op => if c.up then some (some (.brelse t b), c) else none
      | _ => none
  | .io t d => c.io start t d
  | .crash t => some (some .crash, boot t)

/-- What a step means for the contents of the disk: the transaction is committed when the header
is on the disk. -/
def event (c : Log T) : Label T → Option (TxnEvent T ℕ Data)
  | .begin_op t => if c.Fits then some (.enter t) else none
  | .log_write t b d => some (.write t b d)
  | .end_op t => some (.leave t)
  | .io t _ =>
      match c.place t with
      | .writeHead .write => some .commit
      | _ => none
  | .crash _ => some .crash
  | _ => none

/-- What a step can do: the call of the buffer cache in it, what it means, and the state after
it. -/
inductive Effect (c : Log T) : Option (Act T) → Option (TxnEvent T ℕ Data) → Log T → Prop
  | call {t : T} : c.place t = .out → c.up = true → Effect c none none (c.setPlace t .begin)
  | enter {t : T} : c.place t = .begin → c.Fits →
      Effect c none (some (.enter t)) ({ c with outstanding := c.outstanding + 1 }.setPlace t .op)
  | wait {t : T} : c.place t = .begin → ¬c.Fits → Effect c none none (c.setPlace t .asleep)
  | log_write {t : T} {b : ℕ} (d : Data) : c.place t = .op → Home start size b →
      c.lh.length < LOGSIZE → c.lh.length < size - 1 →
      Effect c (some (.log_write t b d)) (some (.write t b d))
        { c with lh := absorb c.lh b }
  | leave {t : T} : c.place t = .op → c.committing = false → c.outstanding - 1 ≠ 0 →
      Effect c none (some (.leave t))
        ({ c with outstanding := c.outstanding - 1 }.wakeup.setPlace t .out)
  | commit {t : T} : c.place t = .op → c.committing = false → c.outstanding - 1 = 0 →
      c.lh ≠ [] → Effect c none (some (.leave t))
        ({ c with outstanding := 0, committing := true }.setPlace t (.writeLog 0 .first))
  | commitNone {t : T} : c.place t = .op → c.committing = false → c.outstanding - 1 = 0 →
      c.lh = [] → Effect c none (some (.leave t))
        ({ c with outstanding := 0, committing := true }.setPlace t .committed)
  | committed {t : T} : c.place t = .committed →
      Effect c none none ({ c with committing := false }.wakeup.setPlace t .out)
  | bread {t : T} (b : ℕ) (d : Data) : c.up = true → Effect c (some (.bread t b d)) none c
  | brelse {t : T} (b : ℕ) : c.up = true → Effect c (some (.brelse t b)) none c
  | writeLog {t : T} {tail : ℕ} {p p' : Copy} {d : Data} : c.place t = .writeLog tail p →
      p.next false d = some p' →
      Effect c (some (p.act t (start + tail + 1) (c.lh.getD tail 0) (c.lh.getD tail 0)
        (start + tail + 1) d)) none (c.setPlace t (.writeLog tail p'))
  | writeLogLast {t : T} {tail : ℕ} : c.place t = .writeLog tail .last →
      Effect c (some (.brelse t (start + tail + 1))) none (c.writeLogFrom t (tail + 1))
  | writeHead {t : T} {p p' : Head} {d : Data} : c.place t = .writeHead p →
      p.next d = some p' →
      Effect c (some (p.act t start c.lh d)) (match p with | .write => some .commit | _ => none)
        (c.setPlace t (.writeHead p'))
  | writeHeadLast {t : T} : c.place t = .writeHead .brelse →
      Effect c (some (.brelse t start)) none (c.installFrom t 0)
  | install {t : T} {tail : ℕ} {p p' : Copy} {d : Data} : c.place t = .install tail p →
      p.next true d = some p' →
      Effect c (some (p.act t (start + tail + 1) (c.lh.getD tail 0) (start + tail + 1)
        (c.lh.getD tail 0) d)) none (c.setPlace t (.install tail p'))
  | installLast {t : T} {tail : ℕ} : c.place t = .install tail .last →
      Effect c (some (.brelse t (c.lh.getD tail 0))) none (c.installFrom t (tail + 1))
  | clear {t : T} {p p' : Head} {d : Data} : c.place t = .clear p → p.next d = some p' →
      Effect c (some (p.act t start c.lh d)) none (c.setPlace t (.clear p'))
  | clearLast {t : T} : c.place t = .clear .brelse → c.up = true →
      Effect c (some (.brelse t start)) none (c.setPlace t .committed)
  | clearUp {t : T} : c.place t = .clear .brelse → c.up = false →
      Effect c (some (.brelse t start)) none ({ c with up := true }.setPlace t .out)
  | readHead {t : T} (d : Data) : c.place t = .readHead none →
      Effect c (some (.bread t start d)) none (c.setPlace t (.readHead (some d)))
  | readHeadLast {t : T} {d : Data} : c.place t = .readHead (some d) →
      Effect c (some (.brelse t start)) none ({ c with lh := getHead d }.installFrom t 0)
  | crash (t : T) : Effect c (some .crash) (some .crash) (boot t)

variable {start size} {c c' : Log T} {a : Option (Act T)}

lemma Effect.of_io {t : T} {d : Data} (h : c.io start t d = some (a, c')) :
    Effect start size c a (c.event (.io t d)) c' := by
  rw [io] at h
  rw [event]
  split at h
  · rename_i tail p ht
    obtain ⟨rfl, hc⟩ := Prod.mk.inj (Option.some.inj h)
    rw [ht]
    cases p with
    | last => exact hc ▸ .writeLogLast ht
    | first | second | move | write | drop => exact hc ▸ .writeLog ht rfl
  · rename_i p ht
    obtain ⟨rfl, hc⟩ := Prod.mk.inj (Option.some.inj h)
    rw [ht]
    cases p with
    | brelse => exact hc ▸ .writeHeadLast ht
    | bread => exact hc ▸ .writeHead (p := .bread) ht rfl
    | move d' => exact hc ▸ .writeHead (p := .move d') ht rfl
    | write => exact hc ▸ .writeHead (p := .write) ht rfl
  · rename_i tail p ht
    obtain ⟨rfl, hc⟩ := Prod.mk.inj (Option.some.inj h)
    rw [ht]
    cases p with
    | last => exact hc ▸ .installLast ht
    | first | second | move | write | drop => exact hc ▸ .install ht rfl
  · rename_i p ht
    obtain ⟨rfl, hc⟩ := Prod.mk.inj (Option.some.inj h)
    rw [ht]
    cases p with
    | brelse =>
      cases hup : c.up with
      | true =>
        simp only [Head.next, hup, if_true] at hc
        exact hc ▸ .clearLast ht hup
      | false =>
        simp only [Head.next, hup] at hc
        exact hc ▸ .clearUp ht hup
    | bread | move | write => exact hc ▸ .clear ht rfl
  · rename_i ht
    obtain ⟨rfl, rfl⟩ := Prod.mk.inj (Option.some.inj h)
    rw [ht]
    exact .readHead d ht
  · rename_i d' ht
    obtain ⟨rfl, rfl⟩ := Prod.mk.inj (Option.some.inj h)
    rw [ht]
    exact .readHeadLast ht
  · exact absurd h (by simp)

lemma Effect.of_next {l : Label T} (h : c.next start size l = some (a, c')) :
    Effect start size c a (c.event l) c' := by
  cases l with
  | call t =>
    simp only [next] at h
    split at h
    · rename_i ht
      split_ifs at h with hup
      obtain ⟨rfl, rfl⟩ := Prod.mk.inj (Option.some.inj h)
      exact .call ht hup
    · exact absurd h (by simp)
  | begin_op t =>
    simp only [next] at h
    split at h
    · rename_i ht
      split_ifs at h with hfit
      · obtain ⟨rfl, rfl⟩ := Prod.mk.inj (Option.some.inj h)
        rw [event, if_pos hfit]
        exact .enter ht hfit
      · obtain ⟨rfl, rfl⟩ := Prod.mk.inj (Option.some.inj h)
        rw [event, if_neg hfit]
        exact .wait ht hfit
    · exact absurd h (by simp)
  | log_write t b d =>
    simp only [next] at h
    split at h
    · rename_i ht
      split_ifs at h with hhome hfull hout
      · rw [not_or, not_le, not_le] at hfull
        obtain ⟨rfl, rfl⟩ := Prod.mk.inj (Option.some.inj h)
        exact .log_write d ht hhome hfull.1 hfull.2
    · exact absurd h (by simp)
  | end_op t =>
    simp only [next] at h
    split at h
    · rename_i ht
      split_ifs at h with hcom hout hlen
      · obtain ⟨rfl, hc⟩ := Prod.mk.inj (Option.some.inj h)
        rw [hout] at hc
        exact hc ▸ .commitNone ht (by simpa using hcom) hout (List.length_eq_zero_iff.mp hlen)
      · obtain ⟨rfl, hc⟩ := Prod.mk.inj (Option.some.inj h)
        rw [hout, writeLogFrom, if_pos (Nat.pos_of_ne_zero hlen)] at hc
        exact hc ▸ .commit ht (by simpa using hcom) hout (by simpa using hlen)
      · obtain ⟨rfl, rfl⟩ := Prod.mk.inj (Option.some.inj h)
        exact .leave ht (by simpa using hcom) hout
    · exact absurd h (by simp)
  | committed t =>
    simp only [next] at h
    split at h
    · rename_i ht
      obtain ⟨rfl, rfl⟩ := Prod.mk.inj (Option.some.inj h)
      exact .committed ht
    · exact absurd h (by simp)
  | bread t b d =>
    simp only [next] at h
    split at h
    · split_ifs at h with hup
      obtain ⟨rfl, rfl⟩ := Prod.mk.inj (Option.some.inj h)
      exact .bread b d hup
    · split_ifs at h with hup
      obtain ⟨rfl, rfl⟩ := Prod.mk.inj (Option.some.inj h)
      exact .bread b d hup
    · exact absurd h (by simp)
  | brelse t b =>
    simp only [next] at h
    split at h
    · split_ifs at h with hup
      obtain ⟨rfl, rfl⟩ := Prod.mk.inj (Option.some.inj h)
      exact .brelse b hup
    · split_ifs at h with hup
      obtain ⟨rfl, rfl⟩ := Prod.mk.inj (Option.some.inj h)
      exact .brelse b hup
    · exact absurd h (by simp)
  | io t d => exact Effect.of_io h
  | crash t =>
    obtain ⟨rfl, rfl⟩ := Prod.mk.inj (Option.some.inj h)
    exact .crash t

variable (start size)

/-- The steps of the log, with the events of the run so far. -/
def Step (s : Log T × List (TxnEvent T ℕ Data)) (a : Option (Act T))
    (s' : Log T × List (TxnEvent T ℕ Data)) : Prop :=
  ∃ l, s.1.next start size l = some (a, s'.1) ∧ s'.2 = s.2 ++ (s.1.event l).toList

lemma Step.of_next {start size : ℕ} {c c' : Log T} {hist : List (TxnEvent T ℕ Data)}
    {a : Option (Act T)} {l : Label T} (h : c.next start size l = some (a, c')) :
    Step start size (c, hist) a (c', hist ++ (c.event l).toList) :=
  ⟨l, h, rfl⟩

end

end Log

end Xv6Projects.Fs
