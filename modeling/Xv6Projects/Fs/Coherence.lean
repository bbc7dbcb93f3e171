import Xv6Projects.Fs.Cache

/-!
# The buffer cache shows the blocks of the disk

Buffers come and go, and blocks are read and written while other threads use other buffers.  None
of this can be seen: a thread finds in a block what was last put there, no matter by whom, how
often its buffer has been recycled since, and whether it is on the disk yet.
-/

namespace Xv6Projects.Fs

open Finset Library

variable {T : Type}

namespace Device

/-- The buffers of a device show these blocks. -/
structure Shows (s : Device T) (e : Blocks T) : Prop where
  disk : e.disk = s.disk
  view : ∀ i, (s.bcache.buf i).valid = true →
    e.view (s.bcache.buf i).blockno = (s.bcache.buf i).data
  rest : ∀ b, (∀ i, (s.bcache.buf i).valid = true → (s.bcache.buf i).blockno ≠ b) →
    e.view b = s.disk b
  owner : ∀ b t, e.owner b = some t ↔ ∃ i ∈ s.held t, (s.bcache.buf i).blockno = b

variable {pid : T → ℕ} {s s' : Device T} {e : Blocks T} {t : T} {i j : Fin NBUF} {b : ℕ}

/-- A step that changes no data and gives no buffer to a thread is not seen. -/
lemma Shows.frame (h : s.Shows e) (hdisk : s'.disk = s.disk) (hheld : s'.held = s.held)
    (hbuf : ∀ j, (s'.bcache.buf j).blockno = (s.bcache.buf j).blockno ∧
      (s'.bcache.buf j).valid = (s.bcache.buf j).valid ∧
      (s'.bcache.buf j).data = (s.bcache.buf j).data) : s'.Shows e where
  disk := h.disk.trans hdisk.symm
  view j := by
    rw [(hbuf j).1, (hbuf j).2.1, (hbuf j).2.2]
    exact h.view j
  rest c hc := by
    rw [hdisk]
    refine h.rest c fun j hj => ?_
    rw [← (hbuf j).1]
    exact hc j ((hbuf j).2.1.trans hj)
  owner c u := by
    rw [hheld]
    refine (h.owner c u).trans (exists_congr fun j => and_congr_right fun _ => ?_)
    rw [(hbuf j).1]

/-- The change of a buffer is one in fields that are not seen. -/
lemma Shows.upd (h : s.Shows e) {f : Buf → Buf} {p : T → Io} {q : List (Fin NBUF)}
    (hblk : (f (s.bcache.buf i)).blockno = (s.bcache.buf i).blockno)
    (hvalid : (f (s.bcache.buf i)).valid = (s.bcache.buf i).valid)
    (hdata : (f (s.bcache.buf i)).data = (s.bcache.buf i).data) :
    Shows { s.upd i f with io := p, idequeue := q } e := by
  refine h.frame rfl rfl fun j => ?_
  by_cases hj : j = i
  · subst hj
    simp [hblk, hvalid, hdata]
  · simp [hj]

section
variable [Fintype T] [DecidableEq T]

omit [DecidableEq T] in
/-- No valid buffer but this one has the block. -/
lemma Ok.blockno_ne (h : s.Ok pid) (hi : (s.bcache.buf i).dev = ROOTDEV)
    (hj : (s.bcache.buf j).valid = true) (hne : j ≠ i) :
    (s.bcache.buf j).blockno ≠ (s.bcache.buf i).blockno :=
  fun hb => hne (h.key j i ((h.buf j).used (Or.inr hj)) hi hb)

/-- Recycling a buffer is not seen: its block is on the disk as it is in the buffer. -/
lemma Shows.bget_miss (h : s.Ok pid) (hs : s.Shows e) (href : (s.bcache.buf i).refcnt = 0)
    (hdirty : (s.bcache.buf i).dirty = false) :
    Shows ((s.upd i fun x => { x with
      dev := ROOTDEV, blockno := b, valid := false, dirty := false, refcnt := 1 }).setIo t
        (.lock i b)) e where
  disk := hs.disk
  view j hj := by
    have hji : j ≠ i := by
      rintro rfl
      exact absurd hj (by simp)
    simp only [setIo_bcache, upd_bcache, ne_eq, hji, not_false_eq_true,
      Bcache.upd_buf_of_ne] at hj ⊢
    exact hs.view j hj
  rest c hc := by
    have hc' : ∀ j, j ≠ i → (s.bcache.buf j).valid = true → (s.bcache.buf j).blockno ≠ c := by
      intro j hji hj
      have := hc j
      simp only [setIo_bcache, upd_bcache, ne_eq, hji, not_false_eq_true,
        Bcache.upd_buf_of_ne] at this
      exact this hj
    by_cases hi : (s.bcache.buf i).valid = true ∧ (s.bcache.buf i).blockno = c
    · obtain ⟨hv, rfl⟩ := hi
      rw [hs.view i hv, (h.buf i).clean hv hdirty]
      rfl
    · refine hs.rest c fun j hj hjc => ?_
      by_cases hji : j = i
      · subst hji
        exact hi ⟨hj, hjc⟩
      · exact hc' j hji hj hjc
  owner c u := by
    refine (hs.owner c u).trans (exists_congr fun j => and_congr_right fun hj => ?_)
    have hji : j ≠ i := by
      rintro rfl
      have := h.refs_eq_zero href u
      have := (locks_pos_of_mem (s := s) hj).trans_le (s.locks_le_refs j u)
      omega
    simp [hji]

omit [DecidableEq T] in
/-- Filling a buffer from the disk is not seen. -/
lemma Shows.filled {q : List (Fin NBUF)} (h : s.Ok pid) (hs : s.Shows e)
    (hq : i ∈ s.idequeue) (hdirty : (s.bcache.buf i).dirty = false) :
    Shows { s.upd i fun x =>
      { x with data := s.disk (s.bcache.buf i).blockno, valid := true, dirty := false } with
      idequeue := q } e := by
  obtain ⟨t, hlock, hio⟩ := h.locks_of_queue hq
  have hdev := h.dev_of_refs (hlock.trans_le (s.locks_le_refs i t))
  -- the request of a buffer that is not dirty is one to read
  have hinv : (s.bcache.buf i).valid = false := by
    have hat := (h.thread t).place
    rcases hio with ⟨c, hc⟩ | hw
    · rw [hc] at hat
      rcases hat.2.2 with ⟨-, hv, -⟩ | ⟨hnq, -⟩
      · exact hv
      · exact absurd hq hnq
    · rw [hw] at hat
      rcases hat.2 with ⟨-, -, hd⟩ | ⟨hnq, -⟩
      · exact absurd (hdirty.symm.trans hd) (by simp)
      · exact absurd hq hnq
  constructor
  · exact hs.disk
  · intro j hj
    by_cases hji : j = i
    · subst hji
      simp only [upd_bcache, Bcache.upd_buf_self]
      refine hs.rest _ fun k hk => h.blockno_ne hdev hk ?_
      rintro rfl
      exact absurd (hinv.symm.trans hk) (by simp)
    · simp only [upd_bcache, ne_eq, hji, not_false_eq_true, Bcache.upd_buf_of_ne] at hj ⊢
      exact hs.view j hj
  · intro c hc
    refine hs.rest c fun j hj => ?_
    have hji : j ≠ i := by
      rintro rfl
      exact absurd (hinv.symm.trans hj) (by simp)
    have := hc j
    simp only [upd_bcache, ne_eq, hji, not_false_eq_true, Bcache.upd_buf_of_ne] at this
    exact this hj
  · intro c u
    refine (hs.owner c u).trans (exists_congr fun j => and_congr_right fun hj => ?_)
    by_cases hji : j = i
    · subst hji
      simp
    · simp [hji]

omit [DecidableEq T] in
/-- A thread puts new data into a buffer that it has. -/
lemma Shows.write {p : T → Io} {q : List (Fin NBUF)} (h : s.Ok pid) (hs : s.Shows e)
    (hi : i ∈ s.held t) (d : Data) :
    Shows { s.upd i fun x => { x with data := d, dirty := true } with io := p, idequeue := q }
      { e with view := Function.update e.view (s.bcache.buf i).blockno d } := by
  have hdev := h.dev_of_held hi
  have hvalid := ((h.thread t).held i hi).1
  constructor
  · exact hs.disk
  · intro j hj
    by_cases hji : j = i
    · subst hji
      simp
    · simp only [upd_bcache, ne_eq, hji, not_false_eq_true, Bcache.upd_buf_of_ne] at hj ⊢
      rw [Function.update_of_ne (h.blockno_ne hdev hj hji)]
      exact hs.view j hj
  · intro c hc
    have hci : c ≠ (s.bcache.buf i).blockno := by
      rintro rfl
      have := hc i
      simp only [upd_bcache, Bcache.upd_buf_self] at this
      exact this hvalid rfl
    refine (Function.update_of_ne hci ..).trans (hs.rest c fun j hj => ?_)
    by_cases hji : j = i
    · rw [hji]
      exact hci.symm
    · have := hc j
      simp only [upd_bcache, ne_eq, hji, not_false_eq_true, Bcache.upd_buf_of_ne] at this
      exact this hj
  · intro c u
    refine (hs.owner c u).trans (exists_congr fun j => and_congr_right fun _ => ?_)
    by_cases hji : j = i
    · subst hji
      simp
    · simp [hji]

omit [DecidableEq T] in
/-- The data of a buffer are written to its block on the disk. -/
lemma Shows.written {q : List (Fin NBUF)} (h : s.Ok pid) (hs : s.Shows e)
    (hdirty : (s.bcache.buf i).dirty = true) :
    Shows { s.upd i fun x => { x with data := (s.bcache.buf i).data, valid := true, dirty := false }
        with
        idequeue := q
        disk := Function.update s.disk (s.bcache.buf i).blockno (s.bcache.buf i).data }
      { e with
        disk := Function.update e.disk (s.bcache.buf i).blockno
          (e.view (s.bcache.buf i).blockno) } := by
  have hvalid := (h.buf i).valid hdirty
  have hbuf : ∀ j, ((s.bcache.upd i fun x =>
      { x with data := (s.bcache.buf i).data, valid := true, dirty := false }).buf j).blockno =
        (s.bcache.buf j).blockno ∧
      ((s.bcache.upd i fun x =>
      { x with data := (s.bcache.buf i).data, valid := true, dirty := false }).buf j).valid =
        (s.bcache.buf j).valid ∧
      ((s.bcache.upd i fun x =>
      { x with data := (s.bcache.buf i).data, valid := true, dirty := false }).buf j).data =
        (s.bcache.buf j).data := by
    intro j
    by_cases hji : j = i
    · subst hji
      simp [hvalid]
    · simp [hji]
  constructor
  · rw [hs.disk, hs.view i hvalid]
  · intro j hj
    rw [upd_bcache, (hbuf j).2.1] at hj
    rw [upd_bcache, (hbuf j).1, (hbuf j).2.2]
    exact hs.view j hj
  · intro c hc
    have hc' : ∀ j, (s.bcache.buf j).valid = true → (s.bcache.buf j).blockno ≠ c := by
      intro j hj
      rw [← (hbuf j).1]
      exact hc j ((hbuf j).2.1.trans hj)
    exact (hs.rest c hc').trans (Function.update_of_ne (hc' i hvalid).symm ..).symm
  · intro c u
    refine (hs.owner c u).trans (exists_congr fun j => and_congr_right fun _ => ?_)
    rw [upd_bcache, (hbuf j).1]

/-- Who has the blocks after `bread`. -/
lemma Shows.bread (h : s.Ok pid) (hs : s.Shows e) (hlock : 0 < s.locks i t) (hi : i ∉ s.held t) :
    e.owner (s.bcache.buf i).blockno = none ∧
      Shows ((s.setHeld t (i :: s.held t)).setIo t .run)
        { e with owner := Function.update e.owner (s.bcache.buf i).blockno (some t) } := by
  have hdev := h.dev_of_refs (hlock.trans_le (s.locks_le_refs i t))
  -- a holder of the block would have this buffer
  have hheld : ∀ u, ∀ j ∈ s.held u, (s.bcache.buf j).blockno ≠ (s.bcache.buf i).blockno := by
    intro u j hj hb
    obtain rfl := h.key j i (h.dev_of_held hj) hdev hb
    obtain rfl := h.locks_unique (locks_pos_of_mem hj) hlock
    exact hi hj
  constructor
  · rw [Option.eq_none_iff_forall_not_mem]
    intro u hu
    obtain ⟨j, hj, hb⟩ := (hs.owner _ u).mp hu
    exact hheld u j hj hb
  · refine ⟨hs.disk, hs.view, hs.rest, fun c u => ?_⟩
    by_cases hc : c = (s.bcache.buf i).blockno
    · subst hc
      simp only [Function.update_self, Option.some.injEq, setIo_held, setIo_bcache, setHeld_bcache]
      constructor
      · rintro rfl
        exact ⟨i, by simp, rfl⟩
      · rintro ⟨j, hj, hb⟩
        by_contra hne
        rw [setHeld_held_of_ne _ _ (Ne.symm hne)] at hj
        exact hheld u j hj hb
    · simp only [Function.update_of_ne hc]
      refine (hs.owner c u).trans ⟨?_, ?_⟩
      · rintro ⟨j, hj, hb⟩
        refine ⟨j, ?_, hb⟩
        by_cases hu : u = t
        · subst hu
          simp [hj]
        · rwa [setIo_held, setHeld_held_of_ne _ _ hu]
      · rintro ⟨j, hj, hb⟩
        refine ⟨j, ?_, hb⟩
        by_cases hu : u = t
        · subst hu
          simp only [setIo_held, setHeld_held_self, List.mem_cons] at hj
          refine hj.resolve_left ?_
          rintro rfl
          exact hc hb.symm
        · rwa [setIo_held, setHeld_held_of_ne _ _ hu] at hj

/-- Who has the blocks after `brelse`. -/
lemma Shows.brelse (h : s.Ok pid) (hs : s.Shows e) (hi : i ∈ s.held t) :
    Shows (((s.upd i fun x => { x with lock := ⟨false, 0⟩ }).setHeld t ((s.held t).erase i)).setIo t
        (.put i))
      { e with owner := Function.update e.owner (s.bcache.buf i).blockno none } := by
  have hdev := h.dev_of_held hi
  have hone : (s.held t).count i ≤ 1 := by
    have h₁ := h.locks_le i t
    have h₂ := Bool.toNat_le (s.bcache.buf i).lock.locked
    rw [locks] at h₁
    omega
  have hs' := hs.upd (i := i) (p := s.io) (q := s.idequeue)
    (f := fun x => { x with lock := ⟨false, 0⟩ }) rfl rfl rfl
  refine ⟨hs.disk, hs'.view, hs'.rest, fun c u => ?_⟩
  have hblk : ∀ j, ((s.bcache.upd i fun x => { x with lock := ⟨false, 0⟩ }).buf j).blockno =
      (s.bcache.buf j).blockno := by
    intro j
    by_cases hji : j = i
    · subst hji
      simp
    · simp [hji]
  simp only [setIo_held, setIo_bcache, setHeld_bcache, upd_bcache, hblk]
  have herase : i ∉ (s.held t).erase i := by
    intro hmem
    have := List.count_pos_iff.mpr hmem
    rw [List.count_erase_self] at this
    omega
  by_cases hc : c = (s.bcache.buf i).blockno
  · subst hc
    simp only [Function.update_self]
    refine iff_of_false (by simp) ?_
    rintro ⟨j, hj, hb⟩
    have hmem : j ∈ s.held u := by
      by_cases hu : u = t
      · subst hu
        rw [setHeld_held_self] at hj
        exact List.mem_of_mem_erase hj
      · rwa [setHeld_held_of_ne _ _ hu] at hj
    obtain rfl := h.key j i (h.dev_of_held hmem) hdev hb
    obtain rfl := h.locks_unique (locks_pos_of_mem hmem) (locks_pos_of_mem hi)
    rw [setHeld_held_self] at hj
    exact herase hj
  · rw [Function.update_of_ne hc, hs.owner c u]
    refine exists_congr fun j => and_congr_left fun hb => ?_
    by_cases hu : u = t
    · subst hu
      rw [setHeld_held_self]
      refine (List.mem_erase_of_ne ?_).symm
      rintro rfl
      exact hc hb.symm
    · rw [setHeld_held_of_ne _ _ hu]
      rfl

/-- The device keeps its invariant and shows these blocks. -/
def Sim (pid : T → ℕ) (s : Device T) (e : Blocks T) : Prop := s.Ok pid ∧ s.Shows e

/-- A step of the buffer cache is the call of it that other threads can see, or is not seen. -/
lemma Shows.effect {a : Option (Act T)} (hs : s.Shows e) (h : s.Ok pid)
    (he : Effect pid s a s') :
    match a with
    | none => s'.Shows e
    | some a => ∃ e', Blocks.Step e a e' ∧ s'.Shows e' := by
  cases he with
  | bget ht hb =>
    rcases bget_cases hb with ⟨-, -, rfl⟩ | ⟨-, href, hdirty, rfl⟩
    · exact hs.upd rfl rfl rfl
    · exact Shows.bget_miss h hs href hdirty
  | acquiresleep ht hfree => exact hs.upd rfl rfl rfl
  | iderw ht hv hi =>
    obtain ⟨rfl, -⟩ := iderw_cases hi
    exact hs.frame rfl rfl fun j => ⟨rfl, rfl, rfl⟩
  | @bread t b i hv ht =>
    have hat := (h.thread t).place
    have hio : (s.io t).locks i = 1 ∧ (s.bcache.buf i).blockno = b := by
      rcases ht with ht | ⟨ht, -⟩
      · rw [ht] at hat ⊢
        exact ⟨by simp [Io.locks], hat.1⟩
      · rw [ht] at hat ⊢
        exact ⟨by simp [Io.locks], hat.1⟩
    have hle := (h.locks_le i t).trans (Bool.toNat_le _)
    rw [locks, hio.1] at hle
    have hnm : i ∉ s.held t := by
      intro hi
      have := List.count_pos_iff.mpr hi
      omega
    obtain ⟨hfree, hshow⟩ := Shows.bread h hs (t := t) (i := i) (by rw [locks, hio.1]; omega) hnm
    have hstep := Blocks.Step.bread (t := t) hfree ((h.buf i).bound hv)
    rw [hs.view i hv, hio.2] at hstep
    rw [hio.2] at hshow
    exact ⟨_, hstep, hshow⟩
  | log_write d ht hi =>
    exact ⟨_, .log_write d ((hs.owner _ _).mpr ⟨_, hi, rfl⟩), Shows.write h hs hi d⟩
  | bwrite ht hi hw =>
    obtain ⟨rfl, -⟩ := iderw_cases hw
    exact ⟨_, .bwrite _ ((hs.owner _ _).mpr ⟨_, hi, rfl⟩), Shows.write h hs hi _⟩
  | bwriteEnd ht hd => exact hs.frame rfl rfl fun j => ⟨rfl, rfl, rfl⟩
  | brelse ht hi =>
    exact ⟨_, .brelse ((hs.owner _ _).mpr ⟨_, hi, rfl⟩), Shows.brelse h hs hi⟩
  | @unref t i ht =>
    obtain ⟨hbuf, -⟩ := unref_eq (h.mem_lru i)
    refine hs.frame rfl rfl fun j => ?_
    rw [setIo_bcache, hbuf]
    by_cases hj : j = i
    · subst hj
      simp
    · simp [hj]
  | written hq hd hw =>
    obtain ⟨rfl, -⟩ := idestart_cases hw
    exact ⟨_, .written _, Shows.written h hs hd⟩
  | filled hq hd hw =>
    obtain ⟨rfl, -⟩ := idestart_cases hw
    exact Shows.filled h hs (by rw [hq]; exact List.mem_cons_self) hd
  | crash =>
    refine ⟨_, .crash, hs.disk, fun i hi => ?_, fun b _ => ?_, fun b t => ?_⟩
    · exact absurd hi (by simp [Bcache.binit, Bcache.zero])
    · rw [hs.disk]
    · simp

/-- **The buffer cache is a store of blocks**: whatever its threads do, with its locks, its
recycling of buffers and its disk queue, they see the blocks as the last thread left them. -/
theorem simulates (pid : T → ℕ) : Simulates (Step pid) Blocks.Step (Sim pid) where
  silent {s s' e} := by
    rintro ⟨hok, hs⟩ ⟨l, hl⟩
    have he := Effect.of_next pid hl
    exact ⟨hok.effect he, hs.effect hok he⟩
  action {s s' e a} := by
    rintro ⟨hok, hs⟩ ⟨l, hl⟩
    have he := Effect.of_next pid hl
    obtain ⟨e', hstep, hs'⟩ := hs.effect hok he
    exact ⟨e', hstep, hok.effect he, hs'⟩

omit [DecidableEq T] in
/-- The buffer cache after `binit` shows the blocks of the disk. -/
lemma sim_start (pid : T → ℕ) (disk : ℕ → Data) : Sim pid (start disk) (Blocks.start disk) := by
  refine ⟨Ok.start disk, rfl, fun i hi => ?_, fun b _ => rfl, fun b t => ?_⟩
  · exact absurd hi (by simp [start, Bcache.binit, Bcache.zero])
  · simp [start, Blocks.start]

/-- In every run of the buffer cache, what `bread` returns and when it returns is as if there were
only the blocks of a disk, each of them with a lock. -/
theorem trace_shows (pid : T → ℕ) (disk : ℕ → Data) {acts : List (Act T)} {s : Device T}
    (h : Trace (Step pid) (start disk) acts s) :
    ∃ e, Trace (Observed Blocks.Step) (Blocks.start disk) acts e ∧ s.Shows e := by
  obtain ⟨e, hrun, -, hs⟩ := (simulates pid).trace h (sim_start pid disk)
  exact ⟨e, hrun, hs⟩

/-- A thread reads block 2 of an empty disk, changes it, and has it written. -/
theorem trace_shows_write : ∃ s : Device (Fin 1), ∃ e,
    Trace (Observed Blocks.Step) (Blocks.start fun _ _ => 0)
      [.bread 0 2 (fun _ => 0), .bwrite 0 2 (fun _ => 1), .written 2] e ∧
      s.Shows e ∧ e.disk 2 = fun _ => 1 := by
  have h : ∃ s : Device (Fin 1), Trace (Step fun _ => 1) (start fun _ _ => 0)
      [.bread 0 2 (fun _ => 0), .bwrite 0 2 (fun _ => 1), .written 2] s ∧
      s.disk 2 = fun _ => 1 :=
    ⟨_, .silent ⟨.bget 0 2, rfl⟩ <| .silent ⟨.acquiresleep 0, rfl⟩ <| .silent ⟨.iderw 0, rfl⟩ <|
      .silent ⟨.ideintr, rfl⟩ <| .action ⟨.bread 0, rfl⟩ <|
      .action ⟨.bwrite 0 ⟨0, Nat.zero_lt_succ 29⟩ fun _ => 1, rfl⟩ <|
      .action ⟨.ideintr, rfl⟩ <| .nil _, rfl⟩
  obtain ⟨s, hrun, hdisk⟩ := h
  obtain ⟨e, he, hs⟩ := trace_shows _ _ hrun
  exact ⟨s, e, he, hs, by rw [hs.disk, hdisk]⟩

/-- The invariant holds in every reachable state. -/
lemma ok_of_reachable {pid : T → ℕ} {disk : ℕ → Data} {s : Device T}
    (h : Reachable (· = start disk) (Step pid) s) : s.Ok pid := by
  refine Reachable.invariant (I := Ok pid) (fun s hs => ?_) (fun s a s' hs hl => ?_) h
  · rw [hs]
    exact Ok.start disk
  · obtain ⟨l, hl⟩ := hl
    exact hs.effect (Effect.of_next pid hl)

/-- **What the locks and the reference counts are for**: `refcnt` counts the threads that wait for
a buffer, have it, or are about to drop it; a block is in one buffer and one thread has its lock,
also while `bread` reads it; the thread passes the checks of `bwrite` and `brelse`; and until a
thread gets the buffer that it waits for, the buffer is not used for another block. -/
theorem references {pid : T → ℕ} {disk : ℕ → Data} {s : Device T}
    (h : Reachable (· = start disk) (Step pid) s) :
    (∀ i, (s.bcache.buf i).refcnt = ∑ t, s.refs i t) ∧
    (∀ t u i j, 0 < s.locks i t → 0 < s.locks j u →
      (s.bcache.buf i).blockno = (s.bcache.buf j).blockno → i = j ∧ t = u) ∧
    (∀ t, ∀ i ∈ s.held t, holdingsleep (pid t) (s.bcache.buf i) = true) ∧
    ∀ t i b, s.io t = .lock i b ∨ s.io t = .got i b ∨ s.io t = .read i b →
      (s.bcache.buf i).blockno = b ∧ 0 < (s.bcache.buf i).refcnt := by
  have hok := ok_of_reachable h
  refine ⟨fun i => (hok.refcnt i).symm, fun t u i j hi hj hb => ?_, fun t i hi => ?_,
    fun t i b ht => ?_⟩
  · obtain rfl := hok.key i j (hok.dev_of_locks hi) (hok.dev_of_locks hj) hb
    exact ⟨rfl, hok.locks_unique hi hj⟩
  · have hlocked := (locks_pos_of_mem hi).trans_le (hok.locks_le i t)
    rw [holdingsleep, ((hok.thread t).held i hi).2, beq_self_eq_true, Bool.and_true]
    by_contra hne
    rw [Bool.not_eq_true] at hne
    rw [hne] at hlocked
    exact absurd hlocked (by simp)
  · have hat := (hok.thread t).place
    have hpos : 0 < s.refs i t → 0 < (s.bcache.buf i).refcnt := hok.refcnt_pos
    rcases ht with ht | ht | ht
    · rw [ht] at hat
      exact ⟨hat, hpos (by simp [refs, ht, Io.refs])⟩
    · rw [ht] at hat
      exact ⟨hat.1, hpos (by simp [refs, ht, Io.refs])⟩
    · rw [ht] at hat
      exact ⟨hat.1, hpos (by simp [refs, ht, Io.refs])⟩

/-- One thread has block 2 and another one waits for it. -/
theorem references_wait : ∃ s : Device (Fin 2), ∃ i, s.held 0 = [i] ∧ s.io 1 = .lock i 2 ∧
    (s.bcache.buf i).refcnt = ∑ t, s.refs i t ∧
    holdingsleep 7 (s.bcache.buf i) = true ∧ (s.bcache.buf i).blockno = 2 := by
  have h : ∃ s : Device (Fin 2), Reachable (· = start fun _ _ => 0) (Step fun _ => 7) s ∧
      ∃ i, s.held 0 = [i] ∧ s.io 1 = .lock i 2 :=
    ⟨_, .next (.next (.next (.next (.next (.next (.start rfl) ⟨.bget 0 2, rfl⟩)
      ⟨.acquiresleep 0, rfl⟩) ⟨.iderw 0, rfl⟩) ⟨.ideintr, rfl⟩) ⟨.bread 0, rfl⟩) ⟨.bget 1 2, rfl⟩,
      _, rfl, rfl⟩
  obtain ⟨s, hs, i, hheld, hio⟩ := h
  obtain ⟨href, -, hhold, hwait⟩ := references hs
  exact ⟨s, i, hheld, hio, href i, hhold 0 i (by rw [hheld]; exact List.mem_cons_self),
    (hwait 1 i 2 (Or.inl hio)).1⟩

end

end Device

end Xv6Projects.Fs
