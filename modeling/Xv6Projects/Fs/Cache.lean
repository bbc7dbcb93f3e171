import Mathlib.Data.List.Count
import Xv6Projects.Fs.Buffer
import Xv6Projects.Library.Count

/-!
# What the buffer cache keeps

A buffer is recycled only when nobody refers to it and its block is safe on the disk.  So the
reference count of a buffer is the number of the threads that wait for it, have it, or are about
to drop it; one thread has it at a time; no block is in two buffers; and the buffer of a thread
keeps its block until the thread has released it.
-/

namespace Xv6Projects.Fs

open Finset Library

variable {T : Type}

/-! ### References -/

/-- The references to a buffer that a thread counts while it stands in the buffer cache. -/
def Io.refs (i : Fin NBUF) : Io → ℕ
  | .lock j _ | .got j _ | .read j _ | .put j => if j = i then 1 else 0
  | .run | .write _ => 0

/-- Has a thread the lock of a buffer before `bread` returns the buffer? -/
def Io.locks (i : Fin NBUF) : Io → ℕ
  | .got j _ | .read j _ => if j = i then 1 else 0
  | .run | .lock _ _ | .write _ | .put _ => 0

@[simp] lemma Io.refs_run (i : Fin NBUF) : Io.run.refs i = 0 := rfl

@[simp] lemma Io.locks_run (i : Fin NBUF) : Io.run.locks i = 0 := rfl

lemma Io.locks_le_refs (i : Fin NBUF) (p : Io) : p.locks i ≤ p.refs i := by
  cases p <;> simp [Io.locks, Io.refs]

namespace Device

/-- The references of a thread to a buffer. -/
def refs (s : Device T) (i : Fin NBUF) (t : T) : ℕ := (s.held t).count i + (s.io t).refs i

/-- How often a thread has the lock of a buffer. -/
def locks (s : Device T) (i : Fin NBUF) (t : T) : ℕ := (s.held t).count i + (s.io t).locks i

lemma locks_le_refs (s : Device T) (i : Fin NBUF) (t : T) : s.locks i t ≤ s.refs i t :=
  Nat.add_le_add_left (Io.locks_le_refs i _) _

lemma locks_pos_of_mem {s : Device T} {i : Fin NBUF} {t : T} (h : i ∈ s.held t) :
    0 < s.locks i t :=
  Nat.add_pos_left (List.count_pos_iff.mpr h) _

/-- The counters of the buffers are right. -/
structure Counted [Fintype T] (s : Device T) : Prop where
  refcnt : ∀ i, ∑ t, s.refs i t = (s.bcache.buf i).refcnt
  locked : ∀ i, ∑ t, s.locks i t = (s.bcache.buf i).lock.locked.toNat

/-- A step that changes one thread and one buffer. -/
structure Moves (s s' : Device T) (t : T) (i : Fin NBUF) : Prop where
  buf : ∀ j, j ≠ i → s'.bcache.buf j = s.bcache.buf j
  io : ∀ u, u ≠ t → s'.io u = s.io u
  held : ∀ u, u ≠ t → s'.held u = s.held u

section
variable [Fintype T] {s s' : Device T} {t u : T} {i : Fin NBUF}

/-- The counters stay right when the counters of the buffer change as the thread does. -/
lemma Counted.moves [DecidableEq T] (h : s.Counted) (hm : Moves s s' t i)
    (hoff : ∀ j, j ≠ i → s'.refs j t = s.refs j t ∧ s'.locks j t = s.locks j t)
    (href : s'.refs i t + (s.bcache.buf i).refcnt = s.refs i t + (s'.bcache.buf i).refcnt)
    (hlock : s'.locks i t + (s.bcache.buf i).lock.locked.toNat =
      s.locks i t + (s'.bcache.buf i).lock.locked.toNat) : s'.Counted := by
  have hr : ∀ j, ∑ u, s'.refs j u + s.refs j t = ∑ u, s.refs j u + s'.refs j t := by
    refine fun j => sum_univ_add_of_eq_off t fun u hu => ?_
    rw [refs, refs, hm.io u hu, hm.held u hu]
  have hl : ∀ j, ∑ u, s'.locks j u + s.locks j t = ∑ u, s.locks j u + s'.locks j t := by
    refine fun j => sum_univ_add_of_eq_off t fun u hu => ?_
    rw [locks, locks, hm.io u hu, hm.held u hu]
  constructor
  · intro j
    have hj := hr j
    have h' := h.refcnt j
    by_cases hji : j = i
    · subst hji
      omega
    · rw [hm.buf j hji]
      have := (hoff j hji).1
      omega
  · intro j
    have hj := hl j
    have h' := h.locked j
    by_cases hji : j = i
    · subst hji
      omega
    · rw [hm.buf j hji]
      have := (hoff j hji).2
      omega

lemma Counted.refcnt_pos (h : s.Counted) (ht : 0 < s.refs i t) :
    0 < (s.bcache.buf i).refcnt := by
  rw [← h.refcnt i]
  exact ht.trans_le (le_sum_univ (s.refs i) t)

lemma Counted.refs_eq_zero (h : s.Counted) (hi : (s.bcache.buf i).refcnt = 0) (t : T) :
    s.refs i t = 0 := by
  by_contra hne
  have := h.refcnt_pos (Nat.pos_of_ne_zero hne)
  omega

lemma Counted.locks_le (h : s.Counted) (i : Fin NBUF) (t : T) :
    s.locks i t ≤ (s.bcache.buf i).lock.locked.toNat := by
  rw [← h.locked i]
  exact le_sum_univ (s.locks i) t

/-- One thread has the lock. -/
lemma Counted.locks_unique [DecidableEq T] (h : s.Counted) (ht : 0 < s.locks i t)
    (hu : 0 < s.locks i u) : t = u := by
  by_contra hne
  have hsum := add_le_sum_univ (s.locks i) hne
  rw [h.locked i] at hsum
  have := Bool.toNat_le (s.bcache.buf i).lock.locked
  omega

end

/-! ### The invariant -/

/-- A thread waits in `iderw` for the request of a buffer: to read the block of a buffer that is
not valid, or to write that of a buffer that is dirty.  When the request has left the queue, it is
done. -/
def Pending (s : Device T) (i : Fin NBUF) (w : Bool) : Prop :=
  (i ∈ s.idequeue ∧ (s.bcache.buf i).valid = w ∧ (s.bcache.buf i).dirty = w) ∨
    (i ∉ s.idequeue ∧ (s.bcache.buf i).valid = true ∧ (s.bcache.buf i).dirty = false)

variable (pid : T → ℕ)

/-- What holds of a thread where it stands. -/
def At (s : Device T) (t : T) : Io → Prop
  | .run | .put _ => True
  | .lock i b => (s.bcache.buf i).blockno = b
  | .got i b => (s.bcache.buf i).blockno = b ∧ (s.bcache.buf i).lock.pid = pid t
  | .read i b => (s.bcache.buf i).blockno = b ∧ (s.bcache.buf i).lock.pid = pid t ∧
      s.Pending i false
  | .write i => i ∈ s.held t ∧ s.Pending i true

/-- What holds of a thread. -/
structure Thread (s : Device T) (t : T) : Prop where
  place : s.At pid t (s.io t)
  held : ∀ i ∈ s.held t, (s.bcache.buf i).valid = true ∧ (s.bcache.buf i).lock.pid = pid t

/-- The queue of the disk driver: each buffer once, with a thread that waits for it. -/
structure Queued (s : Device T) : Prop where
  nodup : s.idequeue.Nodup
  waits : ∀ i ∈ s.idequeue, ∃ t, (∃ b, s.io t = .read i b) ∨ s.io t = .write i
  head : ∀ i, s.idequeue.head? = some i → (s.bcache.buf i).blockno < FSSIZE

end Device

/-- A buffer that is valid and not dirty has the data of its block on the disk. -/
structure Buf.Ok (disk : ℕ → Data) (x : Buf) : Prop where
  used : x.refcnt ≠ 0 ∨ x.valid = true → x.dev = ROOTDEV
  valid : x.dirty = true → x.valid = true
  clean : x.valid = true → x.dirty = false → x.data = disk x.blockno
  bound : x.valid = true → x.blockno < FSSIZE

/-- What a thread with the lock of a buffer relies on. -/
structure Buf.Kept (x y : Buf) : Prop where
  blockno : y.blockno = x.blockno
  valid : y.valid = x.valid
  dirty : y.dirty = x.dirty
  pid : y.lock.pid = x.lock.pid

namespace Device

variable (pid : T → ℕ)

/-- The invariant of the buffer cache. -/
structure Ok [Fintype T] (s : Device T) : Prop extends Counted s, Queued s where
  lru : s.bcache.lru.Perm (List.finRange NBUF)
  key : ∀ i j, (s.bcache.buf i).dev = ROOTDEV → (s.bcache.buf j).dev = ROOTDEV →
    (s.bcache.buf i).blockno = (s.bcache.buf j).blockno → i = j
  buf : ∀ i, (s.bcache.buf i).Ok s.disk
  thread : ∀ t, s.Thread pid t

variable {pid} {s s' : Device T} {t u : T} {i j : Fin NBUF} {b : ℕ}

/-- A thread stands as before when the block of its buffer is as before and, if it has the lock,
so are the buffer and the request. -/
lemma Thread.frame (h : s.Thread pid u) (hio : s'.io u = s.io u) (hheld : s'.held u = s.held u)
    (hblk : ∀ j, 0 < (s.io u).refs j → (s'.bcache.buf j).blockno = (s.bcache.buf j).blockno)
    (hkept : ∀ j, 0 < s.locks j u →
      (s.bcache.buf j).Kept (s'.bcache.buf j) ∧ (j ∈ s'.idequeue ↔ j ∈ s.idequeue)) :
    s'.Thread pid u := by
  have hpend : ∀ j w, 0 < s.locks j u → s.Pending j w → s'.Pending j w := by
    intro j w hj hp
    obtain ⟨hk, hq⟩ := hkept j hj
    rw [Pending, hk.valid, hk.dirty, hq]
    exact hp
  have hlock : ∀ j, 0 < (s.io u).locks j → 0 < s.locks j u := fun j hj => Nat.add_pos_right _ hj
  constructor
  · rw [hio]
    have hat := h.place
    generalize s.io u = p at hat hblk hlock
    cases p with
    | run => trivial
    | put => trivial
    | lock j b => exact (hblk j (by simp [Io.refs])).trans hat
    | got j b =>
      have hk := (hkept j (hlock j (by simp [Io.locks]))).1
      exact ⟨hk.blockno.trans hat.1, hk.pid.trans hat.2⟩
    | read j b =>
      have hj := hlock j (by simp [Io.locks])
      have hk := (hkept j hj).1
      exact ⟨hk.blockno.trans hat.1, hk.pid.trans hat.2.1, hpend j _ hj hat.2.2⟩
    | write j => exact ⟨hheld ▸ hat.1, hpend j _ (locks_pos_of_mem hat.1) hat.2⟩
  · rw [hheld]
    intro j hj
    have hk := (hkept j (locks_pos_of_mem hj)).1
    rw [hk.valid, hk.pid]
    exact h.held j hj

/-- The queue is as before, and the thread that moves does not wait for a request. -/
lemma Queued.moves (h : s.Queued) (hm : Moves s s' t i) (hq : s'.idequeue = s.idequeue)
    (hblk : (s'.bcache.buf i).blockno = (s.bcache.buf i).blockno)
    (hread : ∀ j b, s.io t = .read j b → j ∉ s.idequeue)
    (hwrite : ∀ j, s.io t = .write j → j ∉ s.idequeue) : s'.Queued := by
  refine ⟨hq ▸ h.nodup, fun j hj => ?_, fun j hj => ?_⟩
  · rw [hq] at hj
    obtain ⟨u, hu⟩ := h.waits j hj
    have hut : u ≠ t := by
      rintro rfl
      rcases hu with ⟨b, hb⟩ | hw
      · exact hread j b hb hj
      · exact hwrite j hw hj
    exact ⟨u, by rwa [hm.io u hut]⟩
  · rw [hq] at hj
    have hlt := h.head j hj
    by_cases hji : j = i
    · subst hji
      rwa [hblk]
    · rwa [hm.buf j hji]

/-- A buffer is appended to the queue, and the thread that moves waits for it. -/
lemma Queued.append (h : s.Queued) (hm : Moves s s' t i) (hq : s'.idequeue = s.idequeue ++ [i])
    (hnew : i ∉ s.idequeue) (hblk : (s'.bcache.buf i).blockno = (s.bcache.buf i).blockno)
    (hread : ∀ j b, s.io t ≠ .read j b) (hwrite : ∀ j, s.io t ≠ .write j)
    (hio : (∃ b, s'.io t = .read i b) ∨ s'.io t = .write i)
    (hlt : s.idequeue = [] → (s.bcache.buf i).blockno < FSSIZE) : s'.Queued := by
  refine ⟨?_, fun j hj => ?_, fun j hj => ?_⟩
  · rw [hq]
    exact List.nodup_append.mpr ⟨h.nodup, List.nodup_singleton i, fun j hj k hk => by
      rintro rfl
      rw [List.mem_singleton] at hk
      exact hnew (hk ▸ hj)⟩
  · rw [hq, List.mem_append, List.mem_singleton] at hj
    rcases hj with hj | rfl
    · obtain ⟨u, hu⟩ := h.waits j hj
      have hut : u ≠ t := by
        rintro rfl
        rcases hu with ⟨b, hb⟩ | hw
        · exact hread j b hb
        · exact hwrite j hw
      exact ⟨u, by rwa [hm.io u hut]⟩
    · exact ⟨t, hio⟩
  · have hblk' : (s'.bcache.buf j).blockno = (s.bcache.buf j).blockno := by
      by_cases hji : j = i
      · rw [hji, hblk]
      · rw [hm.buf j hji]
    rw [hblk']
    rw [hq, List.head?_append] at hj
    cases hs : s.idequeue with
    | nil =>
      rw [hs] at hj
      obtain rfl : i = j := by simpa using hj
      exact hlt hs
    | cons k l =>
      rw [hs] at hj
      exact h.head j (by rw [hs]; simpa using hj)

section
variable [Fintype T]

lemma Ok.mem_lru (h : s.Ok pid) (i : Fin NBUF) : i ∈ s.bcache.lru :=
  h.lru.mem_iff.mpr (List.mem_finRange i)

/-- A thread that waits in `iderw` has the lock. -/
lemma Ok.locks_of_queue (h : s.Ok pid) (hi : i ∈ s.idequeue) :
    ∃ t, 0 < s.locks i t ∧ ((∃ b, s.io t = .read i b) ∨ s.io t = .write i) := by
  obtain ⟨t, ht⟩ := h.waits i hi
  refine ⟨t, ?_, ht⟩
  rcases ht with ⟨b, hb⟩ | hw
  · rw [locks, hb]
    simp [Io.locks]
  · have hat := (h.thread t).place
    rw [hw] at hat
    exact locks_pos_of_mem hat.1

/-- A thread that stands outside `iderw` has no buffer with a request. -/
lemma Ok.notMem_queue [DecidableEq T] (h : s.Ok pid) (ht : 0 < s.locks i t)
    (hr : ∀ b, s.io t ≠ .read i b) (hw : s.io t ≠ .write i) : i ∉ s.idequeue := by
  intro hi
  obtain ⟨u, hu, hio⟩ := h.locks_of_queue hi
  obtain rfl := h.locks_unique ht hu
  rcases hio with ⟨b, hb⟩ | hw'
  · exact hr b hb
  · exact hw hw'

lemma Ok.dev_of_refs (h : s.Ok pid) (ht : 0 < s.refs i t) : (s.bcache.buf i).dev = ROOTDEV :=
  (h.buf i).used (Or.inl (h.refcnt_pos ht).ne')

lemma Ok.dev_of_held (h : s.Ok pid) (ht : i ∈ s.held t) : (s.bcache.buf i).dev = ROOTDEV :=
  (h.buf i).used (Or.inr ((h.thread t).held i ht).1)

lemma Ok.dev_of_locks (h : s.Ok pid) (ht : 0 < s.locks i t) : (s.bcache.buf i).dev = ROOTDEV :=
  (h.buf i).used (Or.inl (h.refcnt_pos (ht.trans_le (s.locks_le_refs i t))).ne')

/-- A thread moves, and changes one buffer but not the number of its block. -/
lemma Ok.moves (h : s.Ok pid) (hm : Moves s s' t i)
    (hdisk : ∀ j, j ≠ i → (s.bcache.buf j).valid = true →
      s'.disk (s.bcache.buf j).blockno = s.disk (s.bcache.buf j).blockno)
    (hlru : s'.bcache.lru.Perm s.bcache.lru)
    (hdev : (s'.bcache.buf i).dev = (s.bcache.buf i).dev)
    (hblk : (s'.bcache.buf i).blockno = (s.bcache.buf i).blockno)
    (hc : s'.Counted) (hq : s'.Queued) (hbuf : (s'.bcache.buf i).Ok s'.disk)
    (hmem : ∀ j, j ≠ i → (j ∈ s'.idequeue ↔ j ∈ s.idequeue))
    (hkept : ∀ u, u ≠ t → 0 < s.locks i u →
      (s.bcache.buf i).Kept (s'.bcache.buf i) ∧ (i ∈ s'.idequeue ↔ i ∈ s.idequeue))
    (ht : s'.Thread pid t) : s'.Ok pid := by
  have hdev' : ∀ j, (s'.bcache.buf j).dev = (s.bcache.buf j).dev := by
    intro j
    by_cases hj : j = i
    · rw [hj, hdev]
    · rw [hm.buf j hj]
  have hblk' : ∀ j, (s'.bcache.buf j).blockno = (s.bcache.buf j).blockno := by
    intro j
    by_cases hj : j = i
    · rw [hj, hblk]
    · rw [hm.buf j hj]
  refine ⟨hc, hq, hlru.trans h.lru, fun j k => ?_, fun j => ?_, fun u => ?_⟩
  · rw [hdev', hdev', hblk', hblk']
    exact h.key j k
  · by_cases hj : j = i
    · rw [hj]
      exact hbuf
    · rw [hm.buf j hj]
      have hb := h.buf j
      exact ⟨hb.used, hb.valid, fun hv hd => (hb.clean hv hd).trans (hdisk j hj hv).symm, hb.bound⟩
  · by_cases hu : u = t
    · rw [hu]
      exact ht
    refine (h.thread u).frame (hm.io u hu) (hm.held u hu) (fun j _ => hblk' j) fun j hj => ?_
    by_cases hji : j = i
    · subst hji
      exact hkept u hu hj
    · rw [hm.buf j hji]
      exact ⟨⟨rfl, rfl, rfl, rfl⟩, hmem j hji⟩

/-! ### One step -/

/-- What `bget` returns: the buffer of the block, or one that nobody uses for a block that is in
no buffer. -/
lemma bget_cases {c c' : Bcache} {dev : ℕ} (h : c.bget dev b = some (i, c')) :
    ((c.buf i).dev = dev ∧ (c.buf i).blockno = b ∧
      c' = c.upd i fun x => { x with refcnt := x.refcnt + 1 }) ∨
    ((∀ j ∈ c.lru, ¬((c.buf j).dev = dev ∧ (c.buf j).blockno = b)) ∧
      (c.buf i).refcnt = 0 ∧ (c.buf i).dirty = false ∧
      c' = c.upd i fun x =>
        { x with dev := dev, blockno := b, valid := false, dirty := false, refcnt := 1 }) := by
  rw [Bcache.bget] at h
  split at h
  · rename_i k hk
    obtain ⟨rfl, rfl⟩ := Prod.mk.inj (Option.some.inj h)
    have hfound := List.find?_some hk
    simp only [decide_eq_true_eq] at hfound
    exact Or.inl ⟨hfound.1, hfound.2, rfl⟩
  · rename_i hnone
    split at h
    · rename_i k hk
      obtain ⟨rfl, rfl⟩ := Prod.mk.inj (Option.some.inj h)
      have hfound := List.find?_some hk
      simp only [decide_eq_true_eq] at hfound
      refine Or.inr ⟨fun j hj hkey => ?_, hfound.1, hfound.2, rfl⟩
      have := List.find?_eq_none.mp hnone j hj
      simp only [decide_eq_true_eq] at this
      exact this hkey
    · exact absurd h (by simp)

variable [DecidableEq T]

/-- The buffer of the block is found: it has one reference more. -/
lemma Ok.bget_hit (h : s.Ok pid) (ht : s.io t = .run) (hdev : (s.bcache.buf i).dev = ROOTDEV)
    (hblk : (s.bcache.buf i).blockno = b) :
    ((s.upd i fun x => { x with refcnt := x.refcnt + 1 }).setIo t (.lock i b)).Ok pid := by
  have hm : Moves s ((s.upd i fun x => { x with refcnt := x.refcnt + 1 }).setIo t (.lock i b))
      t i :=
    ⟨fun j hj => by simp [hj], fun u hu => setIo_io_of_ne _ _ hu, fun u _ => rfl⟩
  refine h.moves hm (fun _ _ _ => rfl) (.refl _) ?_ ?_ (h.toCounted.moves hm ?_ ?_ ?_)
    ?_ ?_ ?_ ?_ ?_
  · simp
  · simp
  · intro j hj
    simp [refs, locks, Io.refs, Io.locks, ht, hj.symm]
  · simp [refs, Io.refs, ht]
    omega
  · simp [locks, Io.locks, ht]
  · exact h.toQueued.moves hm rfl (by simp) (by simp [ht]) (by simp [ht])
  · have hb := h.buf i
    refine ⟨fun _ => ?_, ?_, ?_, ?_⟩
    · simpa using hdev
    · simpa using hb.valid
    · simpa using hb.clean
    · simpa using hb.bound
  · exact fun j _ => Iff.rfl
  · intro u _ _
    simp only [setIo_bcache, upd_bcache, Bcache.upd_buf_self]
    exact ⟨⟨rfl, rfl, rfl, rfl⟩, Iff.rfl⟩
  · constructor
    · simpa [At] using hblk
    · intro j hj
      have := (h.thread t).held j hj
      by_cases hji : j = i
      · subst hji
        simpa using this
      · simpa [hji] using this

/-- A buffer that nobody refers to is taken for a block that is in no buffer. -/
lemma Ok.bget_miss (h : s.Ok pid) (ht : s.io t = .run)
    (hnone : ∀ j ∈ s.bcache.lru, ¬((s.bcache.buf j).dev = ROOTDEV ∧ (s.bcache.buf j).blockno = b))
    (href : (s.bcache.buf i).refcnt = 0) (hdirty : (s.bcache.buf i).dirty = false) :
    ((s.upd i fun x => { x with
      dev := ROOTDEV, blockno := b, valid := false, dirty := false, refcnt := 1 }).setIo t
        (.lock i b)).Ok pid := by
  have hm : Moves s ((s.upd i fun x => { x with
      dev := ROOTDEV, blockno := b, valid := false, dirty := false, refcnt := 1 }).setIo t
        (.lock i b)) t i :=
    ⟨fun j hj => by simp [hj], fun u hu => setIo_io_of_ne _ _ hu, fun u _ => rfl⟩
  have hzero := h.refs_eq_zero href
  have hne : ∀ {j u}, 0 < s.refs j u → j ≠ i := by
    rintro j u hj rfl
    have := hzero u
    omega
  have hnq : i ∉ s.idequeue := by
    intro hi
    obtain ⟨u, hu, -⟩ := h.locks_of_queue hi
    exact hne (hu.trans_le (s.locks_le_refs i u)) rfl
  refine ⟨h.toCounted.moves hm ?_ ?_ ?_, ⟨h.nodup, fun j hj => ?_, fun j hj => ?_⟩, h.lru,
    fun j k hj hk hjk => ?_, fun j => ?_, fun u => ?_⟩
  · intro j hj
    simp [refs, locks, Io.refs, Io.locks, ht, hj.symm]
  · simp [refs, Io.refs, ht, href]
  · simp [locks, Io.locks, ht]
  · obtain ⟨u, hu⟩ := h.waits j hj
    have hut : u ≠ t := by
      rintro rfl
      simp [ht] at hu
    exact ⟨u, by rwa [setIo_io_of_ne _ _ hut]⟩
  · have hji : j ≠ i := by
      rintro rfl
      exact hnq (List.mem_of_head? hj)
    simpa [hji] using h.head j hj
  · -- no other buffer has the block
    have hother : ∀ l, l ≠ i → (s.bcache.buf l).dev = ROOTDEV → (s.bcache.buf l).blockno ≠ b :=
      fun l _ hl hlb => hnone l (h.mem_lru l) ⟨hl, hlb⟩
    by_cases hji : j = i <;> by_cases hki : k = i
    · rw [hji, hki]
    · subst hji
      simp only [setIo_bcache, upd_bcache, Bcache.upd_buf_self, ne_eq, hki, not_false_eq_true,
        Bcache.upd_buf_of_ne] at hk hjk
      exact absurd hjk.symm (hother k hki hk)
    · subst hki
      simp only [setIo_bcache, upd_bcache, Bcache.upd_buf_self, ne_eq, hji, not_false_eq_true,
        Bcache.upd_buf_of_ne] at hj hjk
      exact absurd hjk (hother j hji hj)
    · simp only [setIo_bcache, upd_bcache, ne_eq, hji, hki, not_false_eq_true,
        Bcache.upd_buf_of_ne] at hj hk hjk
      exact h.key j k hj hk hjk
  · by_cases hji : j = i
    · subst hji
      constructor <;> simp
    · simpa [hji] using h.buf j
  · by_cases hut : u = t
    · subst hut
      constructor
      · simp [At]
      · intro j hj
        have hji : j ≠ i := hne ((locks_pos_of_mem (s := s) hj).trans_le (s.locks_le_refs j u))
        simpa [hji] using (h.thread u).held j hj
    · refine (h.thread u).frame (hm.io u hut) (hm.held u hut) (fun j hj => ?_) fun j hj => ?_
      · have hji : j ≠ i := hne (Nat.add_pos_right _ hj : 0 < s.refs j u)
        simp [hji]
      · have hji : j ≠ i := hne (hj.trans_le (s.locks_le_refs j u))
        rw [hm.buf j hji]
        exact ⟨⟨rfl, rfl, rfl, rfl⟩, Iff.rfl⟩

lemma Ok.bget {c : Bcache} (h : s.Ok pid) (ht : s.io t = .run)
    (hb : s.bcache.bget ROOTDEV b = some (i, c)) :
    ({ s with bcache := c }.setIo t (.lock i b)).Ok pid := by
  rcases bget_cases hb with ⟨hdev, hblk, rfl⟩ | ⟨hnone, href, hdirty, rfl⟩
  · exact h.bget_hit ht hdev hblk
  · exact h.bget_miss ht hnone href hdirty

lemma Ok.acquiresleep (h : s.Ok pid) (ht : s.io t = .lock i b)
    (hfree : (s.bcache.buf i).lock.locked = false) :
    ((s.upd i fun x => { x with lock := ⟨true, pid t⟩ }).setIo t (.got i b)).Ok pid := by
  have hm : Moves s ((s.upd i fun x => { x with lock := ⟨true, pid t⟩ }).setIo t (.got i b)) t i :=
    ⟨fun j hj => by simp [hj], fun u hu => setIo_io_of_ne _ _ hu, fun u _ => rfl⟩
  have hzero : ∀ u, s.locks i u = 0 := by
    intro u
    have := h.locks_le i u
    rw [hfree] at this
    exact Nat.le_zero.mp this
  have hb := h.buf i
  have hat := (h.thread t).place
  rw [ht] at hat
  refine h.moves hm (fun _ _ _ => rfl) (.refl _) ?_ ?_ (h.toCounted.moves hm ?_ ?_ ?_)
    ?_ ?_ ?_ ?_ ?_
  · simp
  · simp
  · intro j hj
    simp [refs, locks, Io.refs, Io.locks, ht, hj.symm]
  · simp [refs, Io.refs, ht]
  · have := hzero t
    simp [locks, Io.locks, ht, hfree] at this ⊢
  · exact h.toQueued.moves hm rfl (by simp) (by simp [ht]) (by simp [ht])
  · simpa using ⟨hb.used, hb.valid, hb.clean, hb.bound⟩
  · exact fun j _ => Iff.rfl
  · intro u _ hu
    exact absurd (hzero u) hu.ne'
  · constructor
    · simpa [At] using hat
    · intro j hj
      have hji : j ≠ i := by
        rintro rfl
        exact absurd (hzero t) (locks_pos_of_mem (s := s) hj).ne'
      simpa [hji] using (h.thread t).held j hj

omit [Fintype T] [DecidableEq T] in
/-- What `iderw` does before it waits. -/
lemma iderw_cases {n : ℕ} (h : s.iderw n i = some s') :
    s' = { s with idequeue := s.idequeue ++ [i] } ∧
      (s.idequeue = [] → (s.bcache.buf i).blockno < FSSIZE) := by
  simp only [Device.iderw, idestart] at h
  split_ifs at h with hhold hflags hempty
  · simp only [hempty, List.nil_append, List.head?_cons] at h
    split_ifs at h with hlt
    obtain rfl := Option.some.inj h
    exact ⟨by rw [hempty]; rfl, fun _ => not_le.mp hlt⟩
  · obtain rfl := Option.some.inj h
    exact ⟨rfl, fun hnil => absurd hnil hempty⟩

/-- A thread in `bread` asks for the block. -/
lemma Ok.iderw_read (h : s.Ok pid) (ht : s.io t = .got i b)
    (hvalid : (s.bcache.buf i).valid = false) (hs : s.iderw (pid t) i = some s') :
    (s'.setIo t (.read i b)).Ok pid := by
  obtain ⟨rfl, hlt⟩ := iderw_cases hs
  have hm : Moves s ({ s with idequeue := s.idequeue ++ [i] }.setIo t (.read i b)) t i :=
    ⟨fun _ _ => rfl, fun u hu => setIo_io_of_ne _ _ hu, fun u _ => rfl⟩
  have hat := (h.thread t).place
  rw [ht] at hat
  have hlock : 0 < s.locks i t := by simp [locks, ht, Io.locks]
  have hnq : i ∉ s.idequeue := h.notMem_queue hlock (by simp [ht]) (by simp [ht])
  have hdirty : (s.bcache.buf i).dirty = false := by
    by_contra hd
    have := (h.buf i).valid (by simpa using hd)
    rw [hvalid] at this
    exact absurd this (by simp)
  refine h.moves hm (fun _ _ _ => rfl) (.refl _) rfl rfl (h.toCounted.moves hm ?_ ?_ ?_)
    ?_ (h.buf i) ?_ ?_ ?_
  · intro j hj
    simp [refs, locks, Io.refs, Io.locks, ht]
  · simp [refs, Io.refs, ht]
  · simp [locks, Io.locks, ht]
  · exact h.toQueued.append hm rfl hnq rfl (by simp [ht]) (by simp [ht]) (Or.inl ⟨b, by simp⟩) hlt
  · intro j hj
    simp [hj]
  · intro u hu hi
    exact absurd (h.locks_unique hi hlock) hu
  · constructor
    · rw [setIo_io_self]
      exact ⟨hat.1, hat.2, Or.inl ⟨by simp, hvalid, hdirty⟩⟩
    · exact (h.thread t).held

/-- `bread` returns the buffer. -/
lemma Ok.bread (h : s.Ok pid) (ht : s.io t = .got i b ∨ s.io t = .read i b)
    (hvalid : (s.bcache.buf i).valid = true)
    (hnq : i ∉ s.idequeue) : ((s.setHeld t (i :: s.held t)).setIo t .run).Ok pid := by
  have hm : Moves s ((s.setHeld t (i :: s.held t)).setIo t .run) t i :=
    ⟨fun _ _ => rfl, fun u hu => setIo_io_of_ne _ _ hu, fun u hu => setHeld_held_of_ne _ _ hu⟩
  have hrefs : ∀ j, (s.io t).refs j = (if i = j then 1 else 0) ∧
      (s.io t).locks j = if i = j then 1 else 0 := by
    rcases ht with ht | ht
    · exact fun j => by rw [ht]; exact ⟨rfl, rfl⟩
    · exact fun j => by rw [ht]; exact ⟨rfl, rfl⟩
  have hlock : 0 < s.locks i t := by simp [locks, (hrefs i).2]
  have hpid : (s.bcache.buf i).lock.pid = pid t := by
    have hat := (h.thread t).place
    rcases ht with ht | ht
    · rw [ht] at hat
      exact hat.2
    · rw [ht] at hat
      exact hat.2.1
  have hread : ∀ j c, s.io t = .read j c → j ∉ s.idequeue := by
    intro j c hj
    rcases ht with ht | ht <;> rw [ht] at hj
    · exact absurd hj (by simp)
    · obtain ⟨rfl, rfl⟩ := Io.read.inj hj
      exact hnq
  have hwrite : ∀ j, s.io t = .write j → j ∉ s.idequeue := by
    intro j hj
    rcases ht with ht | ht <;> rw [ht] at hj <;> exact absurd hj (by simp)
  refine h.moves hm (fun _ _ _ => rfl) (.refl _) rfl rfl (h.toCounted.moves hm ?_ ?_ ?_)
    (h.toQueued.moves hm rfl rfl hread hwrite) (h.buf i) (fun _ _ => Iff.rfl) ?_ ?_
  · intro j hj
    simp [refs, locks, (hrefs j).1, (hrefs j).2, hj.symm]
  · simp [refs, (hrefs i).1]
  · simp [locks, (hrefs i).2]
  · intro u hu hi
    exact absurd (h.locks_unique hi hlock) hu
  · constructor
    · rw [setIo_io_self]
      trivial
    · intro j hj
      simp only [setIo_held, setHeld_held_self, List.mem_cons] at hj
      rcases hj with rfl | hj
      · exact ⟨hvalid, hpid⟩
      · exact (h.thread t).held j hj

/-- A thread outside the buffer cache has a buffer: its lock and its block. -/
lemma Ok.of_held (h : s.Ok pid) (ht : s.io t = .run) (hi : i ∈ s.held t) :
    0 < s.locks i t ∧ i ∉ s.idequeue ∧ (s.bcache.buf i).valid = true ∧
      (s.bcache.buf i).lock.pid = pid t :=
  have hlock := locks_pos_of_mem hi
  ⟨hlock, h.notMem_queue hlock (by simp [ht]) (by simp [ht]), (h.thread t).held i hi⟩

/-- A thread changes a buffer that it has, and pins it. -/
lemma Ok.log_write (h : s.Ok pid) (ht : s.io t = .run) (hi : i ∈ s.held t) (d : Data) :
    (s.upd i fun x => { x with data := d, dirty := true }).Ok pid := by
  obtain ⟨hlock, hnq, hvalid, hpid⟩ := h.of_held ht hi
  have hm : Moves s (s.upd i fun x => { x with data := d, dirty := true }) t i :=
    ⟨fun j hj => by simp [hj], fun u hu => rfl, fun u hu => rfl⟩
  have hb := h.buf i
  refine h.moves hm (fun _ _ _ => rfl) (.refl _) ?_ ?_ (h.toCounted.moves hm ?_ ?_ ?_)
    (h.toQueued.moves hm rfl ?_ ?_ ?_) ?_ (fun _ _ => Iff.rfl) ?_ ?_
  · simp
  · simp
  · exact fun j _ => ⟨rfl, rfl⟩
  · simp [refs]
  · simp [locks]
  · simp
  · simp [ht]
  · simp [ht]
  · simpa using ⟨hb.used, fun _ => hvalid, fun _ hd => absurd hd (by simp), hb.bound⟩
  · intro u hu hlu
    exact absurd (h.locks_unique hlu hlock) hu
  · constructor
    · rw [upd_io, ht]
      trivial
    · intro j hj
      have := (h.thread t).held j hj
      by_cases hji : j = i
      · subst hji
        simpa using this
      · simpa [hji] using this

/-- A thread changes a buffer that it has, and asks for its block to be written. -/
lemma Ok.bwrite (h : s.Ok pid) (ht : s.io t = .run) (hi : i ∈ s.held t) (d : Data)
    (hs : (s.upd i fun x => { x with data := d, dirty := true }).iderw (pid t) i = some s') :
    (s'.setIo t (.write i)).Ok pid := by
  obtain ⟨rfl, hlt⟩ := iderw_cases hs
  have h' := h.log_write ht hi d
  obtain ⟨hlock, hnq, hvalid, hpid⟩ := h'.of_held ht hi
  have hm : Moves (s.upd i fun x => { x with data := d, dirty := true })
      ({ s.upd i fun x => { x with data := d, dirty := true } with
        idequeue := s.idequeue ++ [i] }.setIo t (.write i)) t i :=
    ⟨fun _ _ => rfl, fun u hu => setIo_io_of_ne _ _ hu, fun u _ => rfl⟩
  refine h'.moves hm (fun _ _ _ => rfl) (.refl _) rfl rfl (h'.toCounted.moves hm ?_ ?_ ?_)
    ?_ (h'.buf i) ?_ ?_ ?_
  · intro j hj
    simp [refs, locks, Io.refs, Io.locks, ht]
  · simp [refs, Io.refs, ht]
  · simp [locks, Io.locks, ht]
  · exact h'.toQueued.append hm rfl hnq rfl (by simp [ht]) (by simp [ht]) (Or.inr (by simp)) hlt
  · intro j hj
    simp [hj]
  · intro u hu hlu
    exact absurd (h'.locks_unique hlu hlock) hu
  · constructor
    · rw [setIo_io_self]
      exact ⟨hi, Or.inl ⟨by simp, hvalid, by simp⟩⟩
    · exact (h'.thread t).held

/-- The end of `bwrite`. -/
lemma Ok.bwriteEnd (h : s.Ok pid) (ht : s.io t = .write i)
    (hdirty : (s.bcache.buf i).dirty = false) : (s.setIo t .run).Ok pid := by
  have hm : Moves s (s.setIo t .run) t i :=
    ⟨fun _ _ => rfl, fun u hu => setIo_io_of_ne _ _ hu, fun u _ => rfl⟩
  have hat := (h.thread t).place
  rw [ht] at hat
  have hnq : i ∉ s.idequeue := by
    rcases hat.2 with ⟨-, -, hd⟩ | ⟨hnq, -⟩
    · rw [hdirty] at hd
      exact absurd hd (by simp)
    · exact hnq
  have hwrite : ∀ j, s.io t = .write j → j ∉ s.idequeue := by
    intro j hj
    rw [ht] at hj
    obtain rfl := Io.write.inj hj
    exact hnq
  refine h.moves hm (fun _ _ _ => rfl) (.refl _) rfl rfl (h.toCounted.moves hm ?_ ?_ ?_)
    (h.toQueued.moves hm rfl rfl (by simp [ht]) hwrite) (h.buf i) (fun _ _ => Iff.rfl) ?_ ?_
  · intro j hj
    simp [refs, locks, Io.refs, Io.locks, ht]
  · simp [refs, Io.refs, ht]
  · simp [locks, Io.locks, ht]
  · intro u _ _
    exact ⟨⟨rfl, rfl, rfl, rfl⟩, Iff.rfl⟩
  · constructor
    · rw [setIo_io_self]
      trivial
    · exact (h.thread t).held

/-- The first half of `brelse`. -/
lemma Ok.brelse (h : s.Ok pid) (ht : s.io t = .run) (hi : i ∈ s.held t) :
    (((s.upd i fun x => { x with lock := ⟨false, 0⟩ }).setHeld t ((s.held t).erase i)).setIo t
      (.put i)).Ok pid := by
  obtain ⟨hlock, hnq, hvalid, hpid⟩ := h.of_held ht hi
  have hm : Moves s (((s.upd i fun x => { x with lock := ⟨false, 0⟩ }).setHeld t
      ((s.held t).erase i)).setIo t (.put i)) t i :=
    ⟨fun j hj => by simp [hj], fun u hu => setIo_io_of_ne _ _ hu,
      fun u hu => setHeld_held_of_ne _ _ hu⟩
  have hb := h.buf i
  have hone : (s.held t).count i ≤ 1 := by
    have h₁ := h.locks_le i t
    have h₂ := Bool.toNat_le (s.bcache.buf i).lock.locked
    rw [locks] at h₁
    omega
  have hcount : (s.held t).count i = 1 := le_antisymm hone (List.count_pos_iff.mpr hi)
  have hlocked : (s.bcache.buf i).lock.locked.toNat = 1 :=
    le_antisymm (Bool.toNat_le _) (hlock.trans_le (h.locks_le i t))
  refine h.moves hm (fun _ _ _ => rfl) (.refl _) ?_ ?_ (h.toCounted.moves hm ?_ ?_ ?_)
    (h.toQueued.moves hm rfl ?_ ?_ ?_) ?_ (fun _ _ => Iff.rfl) ?_ ?_
  · simp
  · simp
  · intro j hj
    simp [refs, locks, Io.refs, Io.locks, ht, List.count_erase_of_ne hj, hj.symm]
  · simp [refs, Io.refs, ht, hcount]
  · simp [locks, Io.locks, ht, hcount, hlocked]
  · simp
  · simp [ht]
  · simp [ht]
  · simpa using ⟨hb.used, hb.valid, hb.clean, hb.bound⟩
  · intro u hu hlu
    exact absurd (h.locks_unique hlu hlock) hu
  · constructor
    · rw [setIo_io_self]
      trivial
    · intro j hj
      simp only [setIo_held, setHeld_held_self] at hj
      have hji : j ≠ i := by
        rintro rfl
        have := List.count_pos_iff.mpr hj
        rw [List.count_erase_self, hcount] at this
        omega
      simpa [hji] using (h.thread t).held j (List.mem_of_mem_erase hj)

omit [Fintype T] [DecidableEq T] in
/-- The second half of `brelse` drops one reference, and may move the buffer in the list. -/
lemma unref_eq {c : Bcache} (hi : i ∈ c.lru) :
    (c.unref i).buf = (c.upd i fun x => { x with refcnt := x.refcnt - 1 }).buf ∧
      (c.unref i).lru.Perm c.lru := by
  rw [Bcache.unref]
  split_ifs
  · exact ⟨rfl, (List.perm_cons_erase hi).symm⟩
  · exact ⟨rfl, .refl _⟩

/-- The second half of `brelse`. -/
lemma Ok.unref (h : s.Ok pid) (ht : s.io t = .put i) :
    ({ s with bcache := s.bcache.unref i }.setIo t .run).Ok pid := by
  obtain ⟨hbuf, hlru⟩ := unref_eq (h.mem_lru i)
  have hm : Moves s ({ s with bcache := s.bcache.unref i }.setIo t .run) t i := by
    refine ⟨fun j hj => ?_, fun u hu => setIo_io_of_ne _ _ hu, fun u _ => rfl⟩
    rw [setIo_bcache, hbuf, Bcache.upd_buf_of_ne _ _ hj]
  have hself : ({ s with bcache := s.bcache.unref i }.setIo t .run).bcache.buf i =
      { s.bcache.buf i with refcnt := (s.bcache.buf i).refcnt - 1 } := by
    rw [setIo_bcache, hbuf, Bcache.upd_buf_self]
  have hb := h.buf i
  have hpos := h.refcnt_pos (i := i) (t := t) (by simp [refs, ht, Io.refs])
  refine h.moves hm (fun _ _ _ => rfl) hlru ?_ ?_ (h.toCounted.moves hm ?_ ?_ ?_)
    (h.toQueued.moves hm rfl ?_ ?_ ?_) ?_ (fun _ _ => Iff.rfl) ?_ ?_
  · rw [hself]
  · rw [hself]
  · intro j hj
    simp [refs, locks, Io.refs, Io.locks, ht, hj.symm]
  · rw [hself]
    simp only [refs, setIo_held, setIo_io_self, ht, Io.refs, if_true]
    omega
  · rw [hself]
    simp [locks, Io.locks, ht]
  · rw [hself]
  · simp [ht]
  · simp [ht]
  · rw [hself]
    exact ⟨fun hu => hb.used (hu.imp_left fun _ => hpos.ne'), hb.valid, hb.clean, hb.bound⟩
  · intro u _ _
    rw [hself]
    exact ⟨⟨rfl, rfl, rfl, rfl⟩, Iff.rfl⟩
  · constructor
    · rw [setIo_io_self]
      trivial
    · intro j hj
      have := (h.thread t).held j hj
      by_cases hji : j = i
      · subst hji
        rw [hself]
        exact this
      · rw [hm.buf j hji]
        exact this

omit [Fintype T] [DecidableEq T] in
lemma idestart_cases (h : s.idestart = some s') :
    s' = s ∧ ∀ i, s.idequeue.head? = some i → (s.bcache.buf i).blockno < FSSIZE := by
  rw [idestart] at h
  cases hq : s.idequeue.head? with
  | none =>
    rw [hq] at h
    exact ⟨(Option.some.inj h).symm, by simp⟩
  | some i =>
    rw [hq] at h
    dsimp only at h
    split_ifs at h with hlt
    refine ⟨(Option.some.inj h).symm, fun j hj => ?_⟩
    obtain rfl := Option.some.inj hj
    exact not_le.mp hlt

/-- The request of the first buffer of the queue is done: its thread finds the buffer valid and
not dirty, with the data of the disk. -/
lemma Ok.ideintr {q : List (Fin NBUF)} {d : Data} {disk : ℕ → Data} (h : s.Ok pid)
    (hq : s.idequeue = i :: q) (hd : d = disk (s.bcache.buf i).blockno)
    (hdisk : ∀ b, b ≠ (s.bcache.buf i).blockno → disk b = s.disk b)
    (hs : { s.upd i fun x => { x with data := d, valid := true, dirty := false } with
      idequeue := q, disk := disk }.idestart = some s') : s'.Ok pid := by
  obtain ⟨rfl, hhead⟩ := idestart_cases hs
  have hi : i ∈ s.idequeue := by rw [hq]; exact List.mem_cons_self
  obtain ⟨t, hlock, hio⟩ := h.locks_of_queue hi
  have hm : Moves s { s.upd i fun x => { x with data := d, valid := true, dirty := false } with
      idequeue := q, disk := disk } t i :=
    ⟨fun j hj => by simp [hj], fun u _ => rfl, fun u _ => rfl⟩
  have hnodup := h.nodup
  rw [hq, List.nodup_cons] at hnodup
  have hmem : ∀ j, j ≠ i → (j ∈ q ↔ j ∈ s.idequeue) := by
    intro j hj
    rw [hq, List.mem_cons, or_iff_right hj]
  have hdev := h.dev_of_refs (hlock.trans_le (s.locks_le_refs i t))
  have hlt : (s.bcache.buf i).blockno < FSSIZE := h.head i (by rw [hq]; rfl)
  refine h.moves hm (fun j hj hv => ?_) (.refl _) ?_ ?_ (h.toCounted.moves hm ?_ ?_ ?_)
    ⟨hnodup.2, fun j hj => ?_, hhead⟩ ?_ hmem ?_ ?_
  · refine hdisk _ fun hb => hj ?_
    exact h.key j i ((h.buf j).used (Or.inr hv)) hdev hb
  · simp
  · simp
  · exact fun j _ => ⟨rfl, rfl⟩
  · simp [refs]
  · simp [locks]
  · exact h.waits j (by rw [hq]; exact List.mem_cons_of_mem i hj)
  · simpa using ⟨fun _ => hdev, fun _ => rfl, fun _ _ => hd, fun _ => hlt⟩
  · intro u hu hlu
    exact absurd (h.locks_unique hlu hlock) hu
  · have hpend : ∀ w, Pending { s.upd i fun x =>
        { x with data := d, valid := true, dirty := false } with
          idequeue := q, disk := disk } i w :=
      fun w => Or.inr ⟨hnodup.1, by simp, by simp⟩
    constructor
    · have hat := (h.thread t).place
      simp only [upd_io]
      rcases hio with ⟨b, hb⟩ | hw
      · rw [hb] at hat ⊢
        exact ⟨by simpa using hat.1, by simpa using hat.2.1, hpend _⟩
      · rw [hw] at hat ⊢
        exact ⟨hat.1, hpend _⟩
    · intro j hj
      have := (h.thread t).held j hj
      by_cases hji : j = i
      · subst hji
        simpa using this.2
      · simpa [hji] using this

omit [DecidableEq T] in
/-- The buffer cache after `binit`. -/
lemma Ok.start (disk : ℕ → Data) : (Device.start disk : Device T).Ok pid where
  refcnt i := by simp [refs, Device.start, Bcache.binit, Bcache.zero]
  locked i := by simp [locks, Device.start, Bcache.binit, Bcache.zero]
  nodup := List.nodup_nil
  waits i hi := absurd hi (List.not_mem_nil)
  head i hi := absurd hi (by simp [Device.start])
  lru := List.reverse_perm _
  key i j hi := absurd hi (by simp [Device.start, Bcache.binit, Bcache.zero, ROOTDEV])
  buf i := by constructor <;> simp [Device.start, Bcache.binit, Bcache.zero]
  thread t := ⟨trivial, fun i hi => absurd hi (List.not_mem_nil)⟩

/-- One step keeps the invariant. -/
theorem Ok.effect {a : Option (Act T)} (h : s.Ok pid) (he : Effect pid s a s') : s'.Ok pid := by
  cases he with
  | bget ht hb => exact h.bget ht hb
  | acquiresleep ht hfree => exact h.acquiresleep ht hfree
  | iderw ht hv hs => exact h.iderw_read ht hv hs
  | @bread t b i hv ht =>
    refine h.bread (ht.imp_right And.left) hv fun hi => ?_
    obtain ⟨u, hlock, hu⟩ := h.locks_of_queue hi
    rcases ht with ht | ⟨ht, -⟩
    · have hut : t = u := h.locks_unique (by simp [locks, ht, Io.locks]) hlock
      rw [← hut, ht] at hu
      simp at hu
    · have hat := (h.thread t).place
      rw [ht] at hat
      rcases hat.2.2 with ⟨-, hval, -⟩ | ⟨hnq, -⟩
      · rw [hv] at hval
        exact absurd hval (by simp)
      · exact hnq hi
  | log_write d ht hi => exact h.log_write ht hi d
  | bwrite ht hi hs => exact h.bwrite ht hi _ hs
  | bwriteEnd ht hd => exact h.bwriteEnd ht hd
  | brelse ht hi => exact h.brelse ht hi
  | unref ht => exact h.unref ht
  | written hq hd hs =>
    exact h.ideintr hq (by rw [Function.update_self]) (fun b hb => Function.update_of_ne hb ..) hs
  | filled hq hd hs => exact h.ideintr hq rfl (fun _ _ => rfl) hs
  | crash => exact Ok.start s.disk

end

end Device

end Xv6Projects.Fs
