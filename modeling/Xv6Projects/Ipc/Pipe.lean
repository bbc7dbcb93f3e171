import Mathlib.Data.Fintype.Basic
import Xv6Projects.Library.Composition
import Xv6Projects.Library.Ring

/-!
# Pipes

A pipe with its two files, and the processes that hold descriptors of them.  What `pipewrite` and
`piperead` do between two moments at which they release `p->lock` is one step; so is the part of
`sleep` that puts a process to sleep and releases `p->lock`.  Between the decision to sleep and
that part, a process can be killed.
-/

namespace Xv6Projects.Ipc

open Library

/-- The number of bytes that a pipe holds. -/
def PIPESIZE : ℕ := 512

/-- A pipe. -/
structure Pipe where
  data : ℕ → UInt8
  nread : UInt32
  nwrite : UInt32
  readopen : Bool
  writeopen : Bool

namespace Pipe

/-- Whether the end for writers, or that for readers, is open. -/
def isOpen (p : Pipe) : Bool → Bool
  | true => p.writeopen
  | false => p.readopen

/-- The first part of `pipeclose`. -/
def shut (p : Pipe) : Bool → Pipe
  | true => { p with writeopen := false }
  | false => { p with readopen := false }

/-- The test that the pipe is full. -/
def Full (p : Pipe) : Prop := p.nwrite = p.nread + UInt32.ofNat PIPESIZE

instance (p : Pipe) : Decidable p.Full := decEq p.nwrite (p.nread + UInt32.ofNat PIPESIZE)

/-- The loop of `pipewrite`, up to where it finds the pipe full, and the bytes that are left. -/
def fill (p : Pipe) : List UInt8 → Pipe × List UInt8
  | [] => (p, [])
  | c :: cs =>
    if p.Full then (p, c :: cs)
    else fill { p with
      data := Function.update p.data (p.nwrite.toNat % PIPESIZE) c
      nwrite := p.nwrite + 1 } cs

/-- The loop of `piperead` that copies up to `n` bytes, and the bytes. -/
def drain (p : Pipe) : ℕ → Pipe × List UInt8
  | 0 => (p, [])
  | n + 1 =>
    if p.nread = p.nwrite then (p, [])
    else
      let r := drain { p with nread := p.nread + 1 } n
      (r.1, p.data (p.nread.toNat % PIPESIZE) :: r.2)

end Pipe

/-- A call of `pipewrite`, with the bytes that are still to be put, or one of `piperead`. -/
inductive Call
  | write (cs : List UInt8)
  | read (n : ℕ)
deriving DecidableEq

/-- Whether a call uses the end for writers; also, whether it sleeps on `&p->nwrite`. -/
def Call.writable : Call → Bool
  | .write _ => true
  | .read _ => false

/-- Where a process stands. -/
inductive Place
  /-- Outside the calls below. -/
  | user
  /-- In a call, about to acquire `p->lock`. -/
  | ready (c : Call)
  /-- In `sleep`, still with `p->lock`. -/
  | drowsy (c : Call)
  /-- Asleep. -/
  | asleep (c : Call)
  /-- In `fileclose` of an end, whose `ref` has become 0. -/
  | closing (writable : Bool)
deriving DecidableEq

namespace Place

/-- The effect of `wakeup` on a process. -/
def wake (writable : Bool) : Place → Place
  | .asleep c => if c.writable = writable then .ready c else .asleep c
  | p => p

/-- The effect of `kill` on a process. -/
def rouse : Place → Place
  | .asleep c => .ready c
  | p => p

end Place

/-- What the processes see of a pipe: calls of `pipewrite`, the bytes that they put until the pipe
is full (`put`), until they return (`wrote`), or until they return -1 (`failed`); calls of
`piperead` that wait, return bytes, or return -1; and the ends that are closed. -/
inductive Act (T : Type)
  | write (t : T) (cs : List UInt8)
  | put (t : T) (cs : List UInt8)
  | wrote (t : T) (cs : List UInt8)
  | failed (t : T) (cs : List UInt8)
  | waits (t : T)
  | got (t : T) (n : ℕ) (cs : List UInt8)
  | interrupted (t : T)
  | shut (writable : Bool)

/-- A pipe, its two files, and the processes.  `fds` is the number of descriptors of a process for
each end; `freed` tells that the pipe has been given back with `kfree`. -/
structure State (T : Type) where
  pipe : Pipe
  freed : Bool
  lock : Option T
  ref : Bool → ℕ
  fds : T → Bool → ℕ
  place : T → Place
  killed : T → Bool

variable {T : Type} [DecidableEq T]

namespace State

def setPlace (s : State T) (t : T) (p : Place) : State T :=
  { s with place := Function.update s.place t p }

/-- `wakeup(&p->nwrite)` or `wakeup(&p->nread)`. -/
def wakeup (s : State T) (writable : Bool) : State T :=
  { s with place := fun t => (s.place t).wake writable }

def setFds (s : State T) (t : T) (f : Bool → ℕ) : State T :=
  { s with fds := Function.update s.fds t f }

/-- What a process does next. -/
inductive Label (T : Type)
  | call (t : T) (c : Call)
  | pipewrite (t : T)
  | piperead (t : T)
  | sleep (t : T)
  | kill (t : T)
  | dup (t : T) (writable : Bool)
  | close (t : T) (writable : Bool)
  | pipeclose (t : T)
  | fork (t u : T)

/-- The action that is seen of a call. -/
def callAct (t : T) : Call → Option (Act T)
  | .write cs => some (.write t cs)
  | .read _ => none

/-- One step, and what is seen of it.  There is no step in which a pipe is used that has been
freed. -/
def next (s : State T) : Label T → Option (Option (Act T) × State T)
  | .call t c =>
      if s.place t = .user ∧ 0 < s.fds t c.writable then
        some (callAct t c, s.setPlace t (.ready c))
      else none
  | .pipewrite t =>
      match s.place t with
      | .ready (.write cs) =>
        if s.lock = none ∧ s.freed = false then
          let r := s.pipe.fill cs
          let done := cs.take (cs.length - r.2.length)
          if r.2 = [] then
            some (some (.wrote t done), ({ s with pipe := r.1 }.wakeup false).setPlace t .user)
          else if r.1.readopen = false ∨ s.killed t = true then
            some (some (.failed t done), { s with pipe := r.1 }.setPlace t .user)
          else
            some (some (.put t done),
              ({ s with pipe := r.1, lock := some t }.wakeup false).setPlace t
                (.drowsy (.write r.2)))
        else none
      | _ => none
  | .piperead t =>
      match s.place t with
      | .ready (.read n) =>
        if s.lock = none ∧ s.freed = false then
          if s.pipe.nread = s.pipe.nwrite ∧ s.pipe.writeopen = true then
            if s.killed t = true then some (some (.interrupted t), s.setPlace t .user)
            else some (some (.waits t), { s with lock := some t }.setPlace t (.drowsy (.read n)))
          else
            let r := s.pipe.drain n
            some (some (.got t n r.2), ({ s with pipe := r.1 }.wakeup true).setPlace t .user)
        else none
      | _ => none
  | .sleep t =>
      match s.place t with
      | .drowsy c => some (none, { s with lock := none }.setPlace t (.asleep c))
      | _ => none
  | .kill t => some (none,
      { s with killed := Function.update s.killed t true }.setPlace t (s.place t).rouse)
  | .dup t w =>
      if s.place t = .user ∧ 0 < s.fds t w then
        some (none, { s with ref := Function.update s.ref w (s.ref w + 1) }.setFds t
          (Function.update (s.fds t) w (s.fds t w + 1)))
      else none
  | .close t w =>
      if s.place t = .user ∧ 0 < s.fds t w then
        let s' := { s with ref := Function.update s.ref w (s.ref w - 1) }.setFds t
          (Function.update (s.fds t) w (s.fds t w - 1))
        some (none, if s.ref w - 1 = 0 then s'.setPlace t (.closing w) else s')
      else none
  | .pipeclose t =>
      match s.place t with
      | .closing w =>
        if s.lock = none ∧ s.freed = false then
          let p := s.pipe.shut w
          some (some (.shut w), ({ s with
            pipe := p
            freed := !p.readopen && !p.writeopen }.wakeup w.not).setPlace t .user)
        else none
      | _ => none
  | .fork t u =>
      -- `u` is a new process
      if s.place t = .user ∧ s.place u = .user ∧ s.fds u = (fun _ => 0) ∧ t ≠ u then
        some (none, { s with
          ref := fun w => s.ref w + s.fds t w
          killed := Function.update s.killed u false }.setFds u (s.fds t))
      else none

/-- The steps. -/
def Moves (s : State T) (l : Label T) (s' : State T) : Prop :=
  (s.next l).map Prod.snd = some s'

/-- The steps, by what is seen of them. -/
def Step (s : State T) (a : Option (Act T)) (s' : State T) : Prop :=
  ∃ l, s.next l = some (a, s')

/-- What a step can do. -/
inductive Effect (s : State T) : Label T → Option (Act T) → State T → Prop
  | call {t : T} {c : Call} : s.place t = .user → 0 < s.fds t c.writable →
      Effect s (.call t c) (callAct t c) (s.setPlace t (.ready c))
  | wrote {t : T} {cs : List UInt8} : s.place t = .ready (.write cs) → s.lock = none →
      s.freed = false → (s.pipe.fill cs).2 = [] →
      Effect s (.pipewrite t) (some (.wrote t (cs.take (cs.length - (s.pipe.fill cs).2.length))))
        (({ s with pipe := (s.pipe.fill cs).1 }.wakeup false).setPlace t .user)
  | failed {t : T} {cs : List UInt8} : s.place t = .ready (.write cs) → s.lock = none →
      s.freed = false → (s.pipe.fill cs).2 ≠ [] →
      (s.pipe.fill cs).1.readopen = false ∨ s.killed t = true →
      Effect s (.pipewrite t) (some (.failed t (cs.take (cs.length - (s.pipe.fill cs).2.length))))
        ({ s with pipe := (s.pipe.fill cs).1 }.setPlace t .user)
  | put {t : T} {cs : List UInt8} : s.place t = .ready (.write cs) → s.lock = none →
      s.freed = false → (s.pipe.fill cs).2 ≠ [] → (s.pipe.fill cs).1.readopen = true →
      Effect s (.pipewrite t) (some (.put t (cs.take (cs.length - (s.pipe.fill cs).2.length))))
        (({ s with pipe := (s.pipe.fill cs).1, lock := some t }.wakeup false).setPlace t
          (.drowsy (.write (s.pipe.fill cs).2)))
  | interrupted {t : T} {n : ℕ} : s.place t = .ready (.read n) → s.lock = none →
      s.pipe.nread = s.pipe.nwrite → s.pipe.writeopen = true →
      Effect s (.piperead t) (some (.interrupted t)) (s.setPlace t .user)
  | wait {t : T} {n : ℕ} : s.place t = .ready (.read n) → s.lock = none → s.freed = false →
      s.pipe.nread = s.pipe.nwrite → s.pipe.writeopen = true →
      Effect s (.piperead t) (some (.waits t))
        ({ s with lock := some t }.setPlace t (.drowsy (.read n)))
  | got {t : T} {n : ℕ} : s.place t = .ready (.read n) → s.lock = none → s.freed = false →
      ¬(s.pipe.nread = s.pipe.nwrite ∧ s.pipe.writeopen = true) →
      Effect s (.piperead t) (some (.got t n (s.pipe.drain n).2))
        (({ s with pipe := (s.pipe.drain n).1 }.wakeup true).setPlace t .user)
  | sleep {t : T} {c : Call} : s.place t = .drowsy c →
      Effect s (.sleep t) none ({ s with lock := none }.setPlace t (.asleep c))
  | kill (t : T) : Effect s (.kill t) none
      ({ s with killed := Function.update s.killed t true }.setPlace t (s.place t).rouse)
  | dup {t : T} {w : Bool} : s.place t = .user → 0 < s.fds t w →
      Effect s (.dup t w) none ({ s with ref := Function.update s.ref w (s.ref w + 1) }.setFds t
        (Function.update (s.fds t) w (s.fds t w + 1)))
  | close {t : T} {w : Bool} : s.place t = .user → 0 < s.fds t w → s.ref w - 1 ≠ 0 →
      Effect s (.close t w) none ({ s with ref := Function.update s.ref w (s.ref w - 1) }.setFds t
        (Function.update (s.fds t) w (s.fds t w - 1)))
  | last {t : T} {w : Bool} : s.place t = .user → 0 < s.fds t w → s.ref w - 1 = 0 →
      Effect s (.close t w) none (({ s with ref := Function.update s.ref w (s.ref w - 1) }.setFds t
        (Function.update (s.fds t) w (s.fds t w - 1))).setPlace t (.closing w))
  | pipeclose {t : T} {w : Bool} : s.place t = .closing w → s.lock = none → s.freed = false →
      Effect s (.pipeclose t) (some (.shut w)) (({ s with
        pipe := s.pipe.shut w
        freed := !(s.pipe.shut w).readopen && !(s.pipe.shut w).writeopen }.wakeup w.not).setPlace t
          .user)
  | fork {t u : T} : s.place t = .user → s.place u = .user → s.fds u = (fun _ => 0) → t ≠ u →
      Effect s (.fork t u) none ({ s with
        ref := fun w => s.ref w + s.fds t w
        killed := Function.update s.killed u false }.setFds u (s.fds t))

lemma Effect.of_next {s s' : State T} {l : Label T} {a : Option (Act T)}
    (h : s.next l = some (a, s')) : Effect s l a s' := by
  cases l with
  | call t c =>
    simp only [next] at h
    split_ifs at h with hg
    obtain ⟨rfl, rfl⟩ := Prod.mk.inj (Option.some.inj h)
    exact .call hg.1 hg.2
  | pipewrite t =>
    simp only [next] at h
    split at h
    · rename_i cs ht
      split_ifs at h with hg hr hf
      · obtain ⟨rfl, rfl⟩ := Prod.mk.inj (Option.some.inj h)
        exact .wrote ht hg.1 hg.2 hr
      · obtain ⟨rfl, rfl⟩ := Prod.mk.inj (Option.some.inj h)
        exact .failed ht hg.1 hg.2 hr hf
      · obtain ⟨rfl, rfl⟩ := Prod.mk.inj (Option.some.inj h)
        obtain ⟨hopen, -⟩ := not_or.mp hf
        exact .put ht hg.1 hg.2 hr (by simpa using hopen)
    · exact absurd h (by simp)
  | piperead t =>
    simp only [next] at h
    split at h
    · rename_i n ht
      split_ifs at h with hg he hk
      · obtain ⟨rfl, rfl⟩ := Prod.mk.inj (Option.some.inj h)
        exact .interrupted ht hg.1 he.1 he.2
      · obtain ⟨rfl, rfl⟩ := Prod.mk.inj (Option.some.inj h)
        exact .wait ht hg.1 hg.2 he.1 he.2
      · obtain ⟨rfl, rfl⟩ := Prod.mk.inj (Option.some.inj h)
        exact .got ht hg.1 hg.2 he
    · exact absurd h (by simp)
  | sleep t =>
    simp only [next] at h
    split at h
    · rename_i c ht
      obtain ⟨rfl, rfl⟩ := Prod.mk.inj (Option.some.inj h)
      exact .sleep ht
    · exact absurd h (by simp)
  | kill t =>
    obtain ⟨rfl, rfl⟩ := Prod.mk.inj (Option.some.inj h)
    exact .kill t
  | dup t w =>
    simp only [next] at h
    split_ifs at h with hg
    obtain ⟨rfl, rfl⟩ := Prod.mk.inj (Option.some.inj h)
    exact .dup hg.1 hg.2
  | close t w =>
    simp only [next] at h
    split_ifs at h with hg hr
    · obtain ⟨rfl, rfl⟩ := Prod.mk.inj (Option.some.inj h)
      exact .last hg.1 hg.2 hr
    · obtain ⟨rfl, rfl⟩ := Prod.mk.inj (Option.some.inj h)
      exact .close hg.1 hg.2 hr
  | pipeclose t =>
    simp only [next] at h
    split at h
    · rename_i w ht
      split_ifs at h with hg
      obtain ⟨rfl, rfl⟩ := Prod.mk.inj (Option.some.inj h)
      exact .pipeclose ht hg.1 hg.2
    · exact absurd h (by simp)
  | fork t u =>
    simp only [next] at h
    split_ifs at h with hg
    obtain ⟨rfl, rfl⟩ := Prod.mk.inj (Option.some.inj h)
    exact .fork hg.1 hg.2.1 hg.2.2.1 hg.2.2.2

lemma Effect.of_moves {s s' : State T} {l : Label T} (h : s.Moves l s') : ∃ a, Effect s l a s' := by
  obtain ⟨r, hr, rfl⟩ := Option.map_eq_some_iff.mp h
  exact ⟨r.1, .of_next hr⟩

/-- A pipe after `sys_pipe` of process `t`.  The page of the pipe may hold anything. -/
def start (data : ℕ → UInt8) (t : T) : State T where
  pipe := ⟨data, 0, 0, true, true⟩
  freed := false
  lock := none
  ref := fun _ => 1
  fds := Function.update (fun _ _ => 0) t fun _ => 1
  place := fun _ => .user
  killed := fun _ => false

end State

end Xv6Projects.Ipc
