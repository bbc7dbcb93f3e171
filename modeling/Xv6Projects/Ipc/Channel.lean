import Xv6Projects.Ipc.Ends

/-!
# What a pipe is for

A channel is a queue of bytes.  A call that writes puts its bytes in order, all of them unless it
fails, and in one piece as long as there is room; a call that reads takes the bytes that are there,
and waits only when there are none and there may be more.  A pipe is a channel, also when its
counters wrap around.
-/

namespace Xv6Projects.Ipc

open Library

variable {T : Type}

/-- The bytes that have been put and not been taken, those that the call of a process has still to
put, and whether there can be calls that write. -/
structure Channel (T : Type) where
  bytes : List UInt8
  pending : T → Option (List UInt8)
  writers : Bool

namespace Channel

variable [DecidableEq T]

/-- The effect of a call. -/
inductive Step : Channel T → Act T → Channel T → Prop
  | write {s : Channel T} {t : T} (cs : List UInt8) : s.writers = true → s.pending t = none →
      Step s (.write t cs) { s with pending := Function.update s.pending t (some cs) }
  | put {s : Channel T} {t : T} {cs rest : List UInt8} : s.pending t = some (cs ++ rest) →
      rest ≠ [] → (s.bytes ++ cs).length = PIPESIZE →
      Step s (.put t cs)
        { s with bytes := s.bytes ++ cs, pending := Function.update s.pending t (some rest) }
  | wrote {s : Channel T} {t : T} {cs : List UInt8} : s.pending t = some cs →
      (s.bytes ++ cs).length ≤ PIPESIZE →
      Step s (.wrote t cs)
        { s with bytes := s.bytes ++ cs, pending := Function.update s.pending t none }
  | failed {s : Channel T} {t : T} {cs rest : List UInt8} : s.pending t = some (cs ++ rest) →
      rest ≠ [] → (s.bytes ++ cs).length = PIPESIZE →
      Step s (.failed t cs)
        { s with bytes := s.bytes ++ cs, pending := Function.update s.pending t none }
  | waits {s : Channel T} (t : T) : s.bytes = [] → s.writers = true → Step s (.waits t) s
  | got {s : Channel T} (t : T) (n : ℕ) : s.bytes ≠ [] ∨ s.writers = false →
      Step s (.got t n (s.bytes.take n)) { s with bytes := s.bytes.drop n }
  | interrupted {s : Channel T} (t : T) : s.bytes = [] → s.writers = true →
      Step s (.interrupted t) s
  | shut {s : Channel T} (w : Bool) : (w = true → ∀ t, s.pending t = none) →
      Step s (.shut w) { s with writers := s.writers && !w }

/-- A channel before it is used. -/
def start (T : Type) : Channel T := ⟨[], fun _ => none, true⟩

end Channel

/-! ### The bytes in a pipe -/

namespace Pipe

/-- The bytes that a pipe holds, by the numbers of bytes that have been read and written. -/
def Holds (p : Pipe) (bytes : List UInt8) : Prop :=
  ∃ r w : ℕ, p.nread = UInt32.ofNat r ∧ p.nwrite = UInt32.ofNat w ∧ r ≤ w ∧ w ≤ r + PIPESIZE ∧
    bytes = window PIPESIZE p.data r w

variable {p : Pipe} {bytes : List UInt8}

lemma PIPESIZE_lt : PIPESIZE < UInt32.size := by decide

lemma PIPESIZE_dvd : PIPESIZE ∣ UInt32.size := by decide

lemma Holds.length_le (h : p.Holds bytes) : bytes.length ≤ PIPESIZE := by
  obtain ⟨r, w, -, -, -, hle, rfl⟩ := h
  rw [length_window]
  omega

lemma Holds.full_iff (h : p.Holds bytes) : p.Full ↔ bytes.length = PIPESIZE := by
  obtain ⟨r, w, hr, hw, hrw, hle, rfl⟩ := h
  rw [Full, hr, hw, ofNat_eq_add hrw hle PIPESIZE_lt, length_window]
  omega

lemma Holds.empty_iff (h : p.Holds bytes) : p.nread = p.nwrite ↔ bytes = [] := by
  obtain ⟨r, w, hr, hw, hrw, hle, rfl⟩ := h
  have hlt := PIPESIZE_lt
  rw [hr, hw, eq_comm, ofNat_inj hrw (by omega), ← List.length_eq_zero_iff, length_window]
  omega

/-- A byte is put into a pipe that is not full. -/
lemma Holds.put (h : p.Holds bytes) (hfull : ¬p.Full) (c : UInt8) :
    Holds { p with
      data := Function.update p.data (p.nwrite.toNat % PIPESIZE) c
      nwrite := p.nwrite + 1 } (bytes ++ [c]) := by
  rw [h.full_iff] at hfull
  obtain ⟨r, w, hr, hw, hrw, hle, rfl⟩ := h
  rw [length_window] at hfull
  refine ⟨r, w + 1, hr, ?_, by omega, by omega, ?_⟩
  · rw [← ofNat_succ, ← hw]
  · rw [hw, toNat_ofNat_mod PIPESIZE_dvd, window_put hrw (by omega)]

/-- A byte is taken from a pipe. -/
lemma Holds.take {c : UInt8} (h : p.Holds (c :: bytes)) :
    p.data (p.nread.toNat % PIPESIZE) = c ∧ Holds { p with nread := p.nread + 1 } bytes := by
  obtain ⟨r, w, hr, hw, hrw, hle, hb⟩ := h
  have hlt : r < w := by
    have := congrArg List.length hb
    rw [length_window, List.length_cons] at this
    omega
  rw [window_cons hlt] at hb
  obtain ⟨hc, hbytes⟩ := List.cons.inj hb
  refine ⟨?_, r + 1, w, ?_, hw, hlt, by omega, hbytes⟩
  · rw [hr, toNat_ofNat_mod PIPESIZE_dvd, hc]
  · rw [← ofNat_succ, ← hr]

/-- The loop of `pipewrite` puts the bytes in order, up to where the pipe is full. -/
lemma Holds.fill (h : p.Holds bytes) (cs : List UInt8) : ∃ done,
    cs = done ++ (p.fill cs).2 ∧ (p.fill cs).1.Holds (bytes ++ done) ∧
      ((p.fill cs).2 ≠ [] → (bytes ++ done).length = PIPESIZE) := by
  induction cs generalizing p bytes with
  | nil => exact ⟨[], rfl, by rwa [List.append_nil], fun hne => absurd rfl hne⟩
  | cons c cs ih =>
    by_cases hfull : p.Full
    · rw [Pipe.fill, if_pos hfull]
      exact ⟨[], rfl, by rwa [List.append_nil], fun _ => by
        rw [List.append_nil, ← h.full_iff]
        exact hfull⟩
    · rw [Pipe.fill, if_neg hfull]
      obtain ⟨done, hcs, hholds, hlen⟩ := ih (h.put hfull c)
      rw [List.append_assoc, List.singleton_append] at hholds hlen
      exact ⟨c :: done, by rw [List.cons_append, ← hcs], hholds, hlen⟩

/-- The loop of `piperead` takes the first bytes. -/
lemma Holds.drain (h : p.Holds bytes) (n : ℕ) :
    (p.drain n).2 = bytes.take n ∧ (p.drain n).1.Holds (bytes.drop n) := by
  induction n generalizing p bytes with
  | zero => exact ⟨rfl, h⟩
  | succ n ih =>
    cases bytes with
    | nil =>
      rw [Pipe.drain, if_pos (h.empty_iff.mpr rfl)]
      exact ⟨rfl, h⟩
    | cons c bytes =>
      rw [Pipe.drain, if_neg (mt h.empty_iff.mp (by simp))]
      obtain ⟨hc, hholds⟩ := h.take
      obtain ⟨htake, hdrop⟩ := ih hholds
      exact ⟨congrArg₂ List.cons hc htake, hdrop⟩

end Pipe

/-! ### A pipe is a channel -/

/-- The bytes that a call has still to put. -/
def Place.left (p : Place) : Option (List UInt8) :=
  match p.call with
  | some (.write cs) => some cs
  | some (.read _) | none => none

lemma Place.Kin.left {p q : Place} (h : p.Kin q) : p.left = q.left := by
  rw [Place.left, h.call, Place.left]

namespace State

variable [Fintype T] [DecidableEq T]

/-- A pipe and the channel that its users see. -/
structure Sim (s : State T) (e : Channel T) : Prop where
  ends : Ends s
  holds : s.pipe.Holds e.bytes
  pending (t : T) : e.pending t = (s.place t).left
  writers : e.writers = s.pipe.writeopen

variable {s s' : State T} {e : Channel T} {t : T}

omit [DecidableEq T] in
/-- Nobody has bytes to put when the end for writers is closed. -/
lemma Ends.left_eq_none (h : Ends s) (hopen : s.pipe.writeopen = false ∨ s.ref true = 0) (t : T) :
    (s.place t).left = none := by
  cases hc : (s.place t).call with
  | none => rw [Place.left, hc]
  | some c =>
    cases c with
    | read n => rw [Place.left, hc]
    | write cs =>
      have hfds := h.call hc
      have hle := h.fds_le t true
      have hpos : 0 < s.ref true := hfds.trans_le hle
      have hwrite := (h.isOpen true).mpr (Or.inl hpos)
      rcases hopen with hopen | hopen
      · exact absurd (hwrite.symm.trans hopen) (by simp)
      · omega

omit [Fintype T] in
/-- What a process has still to put, after it has moved on. -/
lemma pending_setPlace {pending : T → Option (List UInt8)}
    (h : ∀ u, pending u = (s.place u).left) (hother : ∀ u, u ≠ t → (s'.place u).Kin (s.place u))
    {l : Option (List UInt8)} (hl : (s'.place t).left = l) (u : T) :
    Function.update pending t l u = (s'.place u).left := by
  by_cases hu : u = t
  · rw [hu, Function.update_self, hl]
  · rw [Function.update_of_ne hu, h u, (hother u hu).left]

omit [Fintype T] in
/-- The same for a process that has the same bytes to put as before. -/
lemma pending_same {pending : T → Option (List UInt8)}
    (h : ∀ u, pending u = (s.place u).left) (hother : ∀ u, u ≠ t → (s'.place u).Kin (s.place u))
    (ht : (s'.place t).left = (s.place t).left) (u : T) : pending u = (s'.place u).left := by
  by_cases hu : u = t
  · rw [hu, h t, ht]
  · rw [h u, (hother u hu).left]

/-- The bytes that the loop of `pipewrite` has put. -/
lemma take_of_append {cs done rest : List UInt8} (h : cs = done ++ rest) :
    cs.take (cs.length - rest.length) = done := by
  rw [h, List.length_append, Nat.add_sub_cancel, List.take_left]

/-- The channel takes part in what is seen of a step. -/
def Follows (e : Channel T) (s' : State T) : Option (Act T) → Prop
  | some a => ∃ e', Channel.Step e a e' ∧ Sim s' e'
  | none => Sim s' e

lemma Sim.effect {l : Label T} {a : Option (Act T)} (h : Sim s e) (hs : Effect s l a s') :
    Follows e s' a := by
  have hends := h.ends.effect hs
  have hpend := h.pending
  cases hs with
  | @call t c ht hfds =>
    have hother : ∀ u, u ≠ t → ((s.setPlace t (.ready c)).place u).Kin (s.place u) :=
      fun u hu => kin_setPlace s _ hu
    cases c with
    | read n =>
      exact ⟨hends, h.holds, pending_same hpend hother (by simp [ht, Place.left, Place.call]),
        h.writers⟩
    | write cs =>
      have hopen : s.pipe.writeopen = true :=
        (h.ends.isOpen true).mpr (Or.inl (hfds.trans_le (h.ends.fds_le t true)))
      refine ⟨_, .write cs (h.writers.trans hopen) ((hpend t).trans (by rw [ht]; rfl)),
        hends, h.holds, pending_setPlace hpend hother ?_, h.writers⟩
      rw [setPlace_place_self]
      rfl
  | @wrote t cs ht hlock _ hrest =>
    obtain ⟨done, hcs, hholds, -⟩ := h.holds.fill cs
    rw [take_of_append hcs]
    rw [hrest, List.append_nil] at hcs
    subst hcs
    refine ⟨_, .wrote ((hpend t).trans (by rw [ht]; rfl)) hholds.length_le, hends, hholds,
      pending_setPlace hpend (fun u hu => kin_wakeup _ false _ hu) ?_, ?_⟩
    · rw [setPlace_place_self]
      rfl
    · exact h.writers.trans (s.pipe.fill_isOpen cs true).symm
  | @failed t cs ht hlock _ hrest _ =>
    obtain ⟨done, hcs, hholds, hfull⟩ := h.holds.fill cs
    rw [take_of_append hcs]
    refine ⟨_, .failed ((hpend t).trans (by rw [ht, ← hcs]; rfl)) hrest (hfull hrest), hends,
      hholds, pending_setPlace hpend (fun u hu => kin_setPlace _ _ hu) ?_, ?_⟩
    · rw [setPlace_place_self]
      rfl
    · exact h.writers.trans (s.pipe.fill_isOpen cs true).symm
  | @put t cs ht hlock _ hrest _ =>
    obtain ⟨done, hcs, hholds, hfull⟩ := h.holds.fill cs
    rw [take_of_append hcs]
    refine ⟨_, .put ((hpend t).trans (by rw [ht, ← hcs]; rfl)) hrest (hfull hrest), hends,
      hholds, pending_setPlace hpend (fun u hu => kin_wakeup _ false _ hu) ?_, ?_⟩
    · rw [setPlace_place_self]
      rfl
    · exact h.writers.trans (s.pipe.fill_isOpen cs true).symm
  | @interrupted t n ht hlock hempty hopen =>
    refine ⟨e, .interrupted t (h.holds.empty_iff.mp hempty) (h.writers.trans hopen), hends,
      h.holds, pending_same hpend (fun u hu => kin_setPlace _ _ hu) ?_, h.writers⟩
    rw [setPlace_place_self, ht]
    rfl
  | @wait t n ht hlock _ hempty hopen =>
    refine ⟨e, .waits t (h.holds.empty_iff.mp hempty) (h.writers.trans hopen), hends, h.holds,
      pending_same hpend (fun u hu => kin_setPlace _ _ hu) ?_, h.writers⟩
    rw [setPlace_place_self, ht]
    rfl
  | @got t n ht hlock _ hready =>
    obtain ⟨htake, hdrop⟩ := h.holds.drain n
    rw [htake]
    refine ⟨_, .got t n ?_, hends, hdrop,
      pending_same hpend (fun u hu => kin_wakeup _ true _ hu) ?_, ?_⟩
    · rw [h.writers, ← Bool.not_eq_true]
      rw [h.holds.empty_iff] at hready
      exact not_and_or.mp hready
    · rw [setPlace_place_self, ht]
      rfl
    · exact h.writers.trans (s.pipe.drain_isOpen n true).symm
  | @sleep t c ht =>
    refine ⟨hends, h.holds, pending_same hpend (fun u hu => kin_setPlace _ _ hu) ?_, h.writers⟩
    rw [setPlace_place_self, ht]
    rfl
  | kill t =>
    refine ⟨hends, h.holds, pending_same hpend (fun u hu => kin_setPlace _ _ hu) ?_, h.writers⟩
    rw [setPlace_place_self]
    exact (Place.kin_rouse _).left
  | @dup t w ht hfds => exact ⟨hends, h.holds, hpend, h.writers⟩
  | @close t w ht hfds hr => exact ⟨hends, h.holds, hpend, h.writers⟩
  | @last t w ht hfds hr =>
    refine ⟨hends, h.holds, pending_same hpend (fun u hu => kin_setPlace _ _ hu) ?_, h.writers⟩
    rw [setPlace_place_self, ht]
    rfl
  | @pipeclose t w ht hlock _ =>
    refine ⟨_, .shut w ?_, hends, ?_, pending_same hpend (fun u hu => kin_wakeup _ w.not _ hu) ?_,
      ?_⟩
    · rintro rfl u
      exact (hpend u).trans (h.ends.left_eq_none (Or.inr (h.ends.closing ht)) u)
    · cases w <;> exact h.holds
    · rw [setPlace_place_self, ht]
      rfl
    · cases w
      · exact (Bool.and_true _).trans h.writers
      · exact Bool.and_false _
  | @fork t u _ hu hfds hne => exact ⟨hends, h.holds, hpend, h.writers⟩

lemma sim_start (data : ℕ → UInt8) (t : T) : Sim (start data t) (Channel.start T) :=
  ⟨.start data t, ⟨0, 0, rfl, rfl, le_rfl, Nat.zero_le _, rfl⟩, fun _ => rfl, rfl⟩

lemma simulates : Simulates Step Channel.Step (Sim (T := T)) where
  silent h := fun ⟨_, hl⟩ => h.effect (.of_next hl)
  action h := fun ⟨_, hl⟩ => h.effect (.of_next hl)

/-- **A pipe is a channel**: what the processes see in a run of the pipe, they see in a run of the
channel, which holds the bytes that the pipe holds. -/
theorem trace_channel (data : ℕ → UInt8) (t₀ : T) {acts : List (Act T)}
    (h : Trace Step (start data t₀) acts s) :
    ∃ e, Trace (Observed Channel.Step) (Channel.start T) acts e ∧ s.pipe.Holds e.bytes ∧
      (∀ t, e.pending t = (s.place t).left) ∧ e.writers = s.pipe.writeopen := by
  obtain ⟨e, hrun, hsim⟩ := simulates.trace h (sim_start data t₀)
  exact ⟨e, hrun, hsim.holds, hsim.pending, hsim.writers⟩

/-- A process waits for bytes, another one writes two, and the first one reads one of them. -/
theorem trace_channel_two : ∃ s : State (Fin 2), ∃ e, Trace (Observed Channel.Step)
    (Channel.start (Fin 2)) [.waits 1, .write 0 [1, 2], .wrote 0 [1, 2], .got 1 1 [1]] e ∧
      s.pipe.Holds e.bytes ∧ e.writers = true := by
  have h : ∃ s : State (Fin 2), Trace Step (start (fun _ => 7) 0)
      [.waits 1, .write 0 [1, 2], .wrote 0 [1, 2], .got 1 1 [1]] s ∧ s.pipe.writeopen = true :=
    ⟨_, .silent ⟨.fork 0 1, rfl⟩ <| .silent ⟨.call 1 (.read 1), rfl⟩ <|
      .action ⟨.piperead 1, rfl⟩ <| .silent ⟨.sleep 1, rfl⟩ <|
      .action ⟨.call 0 (.write [1, 2]), rfl⟩ <| .action ⟨.pipewrite 0, rfl⟩ <|
      .action ⟨.piperead 1, rfl⟩ <| .nil _, rfl⟩
  obtain ⟨s, hrun, hopen⟩ := h
  obtain ⟨e, he, hholds, -, hw⟩ := trace_channel _ _ hrun
  exact ⟨s, e, he, hholds, hw.trans hopen⟩

end State

/-! ### First in, first out -/

/-- The bytes that a call has put. -/
def Act.sent : Act T → List UInt8
  | .put _ cs | .wrote _ cs | .failed _ cs => cs
  | _ => []

/-- The bytes that a call has taken. -/
def Act.received : Act T → List UInt8
  | .got _ _ cs => cs
  | _ => []

/-- The bytes that the calls of a process have been given. -/
def Act.asked [DecidableEq T] (t : T) : Act T → List UInt8
  | .write u cs => if u = t then cs else []
  | _ => []

/-- The bytes that the calls of a process have put. -/
def Act.sentBy [DecidableEq T] (t : T) : Act T → List UInt8
  | .put u cs | .wrote u cs | .failed u cs => if u = t then cs else []
  | _ => []

namespace Channel

variable [DecidableEq T] {e e' : Channel T}

lemma Step.bytes {a : Act T} (h : Step e a e') : e.bytes ++ a.sent = a.received ++ e'.bytes := by
  cases h with
  | write cs _ _ => exact List.append_nil _
  | put _ _ _ => rfl
  | wrote _ _ => rfl
  | failed _ _ _ => rfl
  | got t n _ => exact (List.append_nil _).trans (List.take_append_drop n e.bytes).symm
  | waits t _ _ | interrupted t _ _ => exact List.append_nil _
  | shut w _ => exact List.append_nil _

/-- What has been put is what has been taken and what is still there. -/
lemma bytes_of_trace {acts : List (Act T)} (h : Trace (Observed Step) e acts e') :
    e.bytes ++ acts.flatMap Act.sent = acts.flatMap Act.received ++ e'.bytes := by
  induction h with
  | nil e => exact List.append_nil _
  | silent hstep => exact hstep.elim
  | @action e e₁ e' a acts hstep _ ih =>
    rw [List.flatMap_cons, List.flatMap_cons, ← List.append_assoc, Step.bytes hstep,
      List.append_assoc, ih, List.append_assoc]

lemma Step.pending {a : Act T} (h : Step e a e') {t : T} (hfailed : ∀ cs, a ≠ .failed t cs) :
    (e.pending t).getD [] ++ a.asked t = a.sentBy t ++ (e'.pending t).getD [] := by
  cases h with
  | @write u cs _ hnone =>
    by_cases hu : u = t
    · subst hu
      simp [Act.asked, Act.sentBy, hnone]
    · simp [Act.asked, Act.sentBy, hu, Function.update_of_ne (Ne.symm hu)]
  | @put u cs rest hsome _ _ =>
    by_cases hu : u = t
    · subst hu
      simp [Act.asked, Act.sentBy, hsome]
    · simp [Act.asked, Act.sentBy, hu, Function.update_of_ne (Ne.symm hu)]
  | @wrote u cs hsome _ =>
    by_cases hu : u = t
    · subst hu
      simp [Act.asked, Act.sentBy, hsome]
    · simp [Act.asked, Act.sentBy, hu, Function.update_of_ne (Ne.symm hu)]
  | @failed u cs rest _ _ _ =>
    have hu : u ≠ t := by
      rintro rfl
      exact hfailed cs rfl
    simp [Act.asked, Act.sentBy, hu, Function.update_of_ne (Ne.symm hu)]
  | got u n _ => exact List.append_nil _
  | waits u _ _ | interrupted u _ _ => exact List.append_nil _
  | shut w _ => exact List.append_nil _

/-- What a process has asked to put has been put, in order, except for what its call has left. -/
lemma pending_of_trace {acts : List (Act T)} (h : Trace (Observed Step) e acts e') {t : T}
    (hfailed : ∀ cs, .failed t cs ∉ acts) :
    (e.pending t).getD [] ++ acts.flatMap (Act.asked t) =
      acts.flatMap (Act.sentBy t) ++ (e'.pending t).getD [] := by
  induction h with
  | nil e => exact List.append_nil _
  | silent hstep => exact hstep.elim
  | @action e e₁ e' a acts hstep _ ih =>
    have ha : ∀ cs, a ≠ .failed t cs := fun cs he => hfailed cs (he ▸ List.mem_cons_self)
    have has : ∀ cs, .failed t cs ∉ acts := fun cs hm => hfailed cs (List.mem_cons_of_mem _ hm)
    rw [List.flatMap_cons, List.flatMap_cons, ← List.append_assoc, Step.pending hstep ha,
      List.append_assoc, ih has, List.append_assoc]

/-- Nobody has bytes to put any more. -/
def Ended (e : Channel T) : Prop := e.writers = false ∧ ∀ t, e.pending t = none

lemma Step.ended {a : Act T} (h : Step e a e') (he : e.Ended) : a.sent = [] ∧ e'.Ended := by
  obtain ⟨hw, hp⟩ := he
  cases h with
  | write cs hopen _ => exact absurd (hopen.symm.trans hw) (by simp)
  | put hsome _ _ => exact absurd (hsome.symm.trans (hp _)) (by simp)
  | wrote hsome _ => exact absurd (hsome.symm.trans (hp _)) (by simp)
  | failed hsome _ _ => exact absurd (hsome.symm.trans (hp _)) (by simp)
  | got t n _ => exact ⟨rfl, hw, hp⟩
  | waits t _ hopen | interrupted t _ hopen => exact absurd (hopen.symm.trans hw) (by simp)
  | shut w _ => exact ⟨rfl, by simp [hw], hp⟩

lemma sent_of_ended {acts : List (Act T)} (h : Trace (Observed Step) e acts e') (he : e.Ended) :
    acts.flatMap Act.sent = [] := by
  induction h with
  | nil e => rfl
  | silent hstep => exact hstep.elim
  | action hstep _ ih =>
    obtain ⟨ha, he₁⟩ := Step.ended hstep he
    rw [List.flatMap_cons, ha, ih he₁]
    rfl

/-- The end for writers is closed by `pipeclose`, and when nobody has bytes to put. -/
lemma ended_of_trace {acts : List (Act T)} (h : Trace (Observed Step) e acts e')
    (he : e.writers = true) (hw : e'.writers = false) : .shut true ∈ acts ∧ e'.Ended := by
  induction h with
  | nil e => exact absurd (he.symm.trans hw) (by simp)
  | silent hstep => exact hstep.elim
  | @action e e₁ e' a acts hstep hrun ih =>
    cases h₁ : e₁.writers with
    | true =>
      obtain ⟨hmem, hend⟩ := ih h₁ hw
      exact ⟨List.mem_cons_of_mem _ hmem, hend⟩
    | false =>
      have hstep' : Step e a e₁ := hstep
      have hshut : a = .shut true ∧ e₁.Ended := by
        cases hstep' with
        | shut w hp =>
          cases w with
          | true => exact ⟨rfl, h₁, hp rfl⟩
          | false => exact absurd h₁ (by simp [he])
        | _ => exact absurd (he.symm.trans h₁) (by simp)
      obtain ⟨rfl, hend⟩ := hshut
      refine ⟨List.mem_cons_self, ?_⟩
      clear ih h₁ hstep hstep'
      induction hrun with
      | nil => exact hend
      | silent hstep => exact hstep.elim
      | action hstep _ ih => exact ih hw (Step.ended hstep hend).2

lemma Step.got_inv {t : T} {n : ℕ} {cs : List UInt8} (h : Step e (.got t n cs) e') :
    cs = e.bytes.take n ∧ (e.bytes ≠ [] ∨ e.writers = false) := by
  cases h with
  | got t n hready => exact ⟨rfl, hready⟩

/-- A call that asks for bytes and gets none has come to the end: all that was put has been taken,
and nothing is put any more. -/
lemma end_of_file {as bs : List (Act T)} {t : T} {n : ℕ} (hn : 0 < n)
    (h : Trace (Observed Step) (start T) (as ++ .got t n [] :: bs) e') :
    .shut true ∈ as ∧ as.flatMap Act.sent = as.flatMap Act.received ∧ bs.flatMap Act.sent = [] := by
  obtain ⟨e₁, h₁, h₂⟩ := h.split
  have hbytes := bytes_of_trace h₁
  cases h₂ with
  | silent hstep => exact hstep.elim
  | @action _ e₂ _ _ _ hstep hrun =>
    obtain ⟨hcs, hready⟩ := Step.got_inv hstep
    have hnil : e₁.bytes = [] := by
      have hlen := congrArg List.length hcs
      rw [List.length_nil, List.length_take] at hlen
      exact List.length_eq_zero_iff.mp (by omega)
    obtain ⟨hmem, hend⟩ := ended_of_trace h₁ rfl (hready.resolve_left fun h => h hnil)
    rw [hnil, List.append_nil] at hbytes
    exact ⟨hmem, hbytes, sent_of_ended hrun (Step.ended hstep hend).2⟩

end Channel

namespace State

variable [Fintype T] [DecidableEq T]

/-- **First in, first out.**  The bytes that have been read, followed by those in the pipe, are the
bytes that have been written; those of one process are in the order of its calls, and none is
missing unless a call has failed; and a call that reads nothing has come to the end of all that
is ever written. -/
theorem fifo (data : ℕ → UInt8) (t₀ : T) {acts : List (Act T)} {s : State T}
    (h : Trace Step (start data t₀) acts s) :
    (∃ bytes, s.pipe.Holds bytes ∧ acts.flatMap Act.sent = acts.flatMap Act.received ++ bytes) ∧
    (∀ t, (∀ cs, .failed t cs ∉ acts) →
      acts.flatMap (Act.asked t) = acts.flatMap (Act.sentBy t) ++ (s.place t).left.getD []) ∧
    ∀ as bs t n, acts = as ++ .got t n [] :: bs → 0 < n →
      .shut true ∈ as ∧ as.flatMap Act.sent = as.flatMap Act.received ∧
        bs.flatMap Act.sent = [] := by
  obtain ⟨e, hrun, hholds, hpend, -⟩ := trace_channel data t₀ h
  refine ⟨⟨e.bytes, hholds, Channel.bytes_of_trace hrun⟩, fun t ht => ?_, ?_⟩
  · have := Channel.pending_of_trace hrun ht
    rw [hpend] at this
    exact this
  · rintro as bs t n rfl hn
    exact Channel.end_of_file hn hrun

/-- A process writes three bytes and closes its descriptors; another one reads two of them, the last
one, and the end. -/
theorem fifo_fork : ∃ s : State (Fin 2), ∃ bytes, s.pipe.Holds bytes ∧
    [1, 2, 3] = [1, 2] ++ [3] ++ ([] : List UInt8) ++ bytes := by
  have h : ∃ s : State (Fin 2), Trace Step (start (fun _ => 7) 0) [.write 0 [1, 2, 3],
      .wrote 0 [1, 2, 3], .got 1 2 [1, 2], .shut true, .got 1 2 [3], .got 1 1 []] s :=
    ⟨_, .silent ⟨.fork 0 1, rfl⟩ <| .silent ⟨.close 1 true, rfl⟩ <|
      .action ⟨.call 0 (.write [1, 2, 3]), rfl⟩ <| .action ⟨.pipewrite 0, rfl⟩ <|
      .silent ⟨.call 1 (.read 2), rfl⟩ <| .action ⟨.piperead 1, rfl⟩ <|
      .silent ⟨.close 0 true, rfl⟩ <| .action ⟨.pipeclose 0, rfl⟩ <|
      .silent ⟨.call 1 (.read 2), rfl⟩ <| .action ⟨.piperead 1, rfl⟩ <|
      .silent ⟨.call 1 (.read 1), rfl⟩ <| .action ⟨.piperead 1, rfl⟩ <| .nil _⟩
  obtain ⟨s, hs⟩ := h
  obtain ⟨⟨bytes, hbytes, hsent⟩, -⟩ := fifo _ _ hs
  exact ⟨s, bytes, hbytes, hsent⟩

end State

end Xv6Projects.Ipc
