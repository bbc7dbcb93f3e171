import Xv6Projects.Ipc.Channel

/-!
# Who sleeps on a pipe

Who sleeps in `piperead` has found the pipe empty, and who sleeps in `pipewrite` has found it full.
Neither sleeps on when that has changed, as long as `pipewrite` does not return -1 for a process
that has been killed after it has put bytes into the pipe: on that path, it wakes nobody.
-/

namespace Xv6Projects.Ipc

open Library

/-- Who sleeps, or is about to, has a reason. -/
def Place.Waits (p : Pipe) : Place → Prop
  | .drowsy (.read _) | .asleep (.read _) => p.nread = p.nwrite ∧ p.writeopen = true
  | .drowsy (.write _) | .asleep (.write _) => p.Full ∧ p.readopen = true
  | .user | .ready _ | .closing _ => True

namespace Pipe

lemma fill_of_full {p : Pipe} (h : p.Full) (cs : List UInt8) : p.fill cs = (p, cs) := by
  cases cs with
  | nil => rfl
  | cons c cs => rw [fill, if_pos h]

/-- When the loop of `pipewrite` leaves bytes, the pipe is full. -/
lemma full_of_fill {p : Pipe} {cs : List UInt8} (h : (p.fill cs).2 ≠ []) : (p.fill cs).1.Full := by
  induction cs generalizing p with
  | nil => exact absurd rfl h
  | cons c cs ih =>
    by_cases hfull : p.Full
    · rw [fill_of_full hfull]
      exact hfull
    · rw [fill, if_neg hfull] at h ⊢
      exact ih h

end Pipe

namespace State

variable {T : Type} {s s' : State T} {t : T}

/-- Everybody who sleeps has a reason. -/
def Patient (s : State T) : Prop := ∀ t, (s.place t).Waits s.pipe

/-- A process that has been killed does not put bytes into the pipe and then find it full. -/
def Prompt (s : State T) : Label T → Prop
  | .pipewrite t => ∀ cs, s.place t = .ready (.write cs) → s.killed t = true →
      s.pipe.Full ∨ (s.pipe.fill cs).2 = []
  | _ => True

/-- A pipe that has writers asleep stays as it is when another one comes. -/
lemma Patient.fill_eq (h : Patient s) {cs cs' : List UInt8}
    (ht : s.place t = .asleep (.write cs')) : (s.pipe.fill cs).1 = s.pipe := by
  have hw := h t
  rw [ht] at hw
  rw [Pipe.fill_of_full hw.1]

/-- The other processes, when a writer puts bytes and wakes the readers. -/
lemma Patient.wakeup_fill (h : Patient s) (hlock : ∀ u c, s.place u ≠ .drowsy c)
    (cs : List UInt8) {u : T} : ((s.place u).wake false).Waits (s.pipe.fill cs).1 := by
  have hu := h u
  cases hp : s.place u with
  | user => trivial
  | ready c => trivial
  | closing w => trivial
  | drowsy c => exact absurd hp (hlock u c)
  | asleep c =>
    cases c with
    | read n => trivial
    | write cs' =>
      rw [hp] at hu
      rw [h.fill_eq hp]
      exact hu

/-- The other processes, when a reader takes bytes and wakes the writers. -/
lemma Patient.wakeup_drain (h : Patient s) (hlock : ∀ u c, s.place u ≠ .drowsy c) {n : ℕ}
    (hready : ¬(s.pipe.nread = s.pipe.nwrite ∧ s.pipe.writeopen = true)) {u : T} :
    ((s.place u).wake true).Waits (s.pipe.drain n).1 := by
  have hu := h u
  cases hp : s.place u with
  | user => trivial
  | ready c => trivial
  | closing w => trivial
  | drowsy c => exact absurd hp (hlock u c)
  | asleep c =>
    cases c with
    | write cs => trivial
    | read n' =>
      rw [hp] at hu
      exact absurd hu hready

/-- The other processes, when an end is closed and those at the other end are woken. -/
lemma Patient.wakeup_shut (h : Patient s) (hlock : ∀ u c, s.place u ≠ .drowsy c) (w : Bool)
    {u : T} : ((s.place u).wake w.not).Waits (s.pipe.shut w) := by
  have hu := h u
  cases hp : s.place u with
  | user => trivial
  | ready c => trivial
  | closing w => trivial
  | drowsy c => exact absurd hp (hlock u c)
  | asleep c =>
    rw [hp] at hu
    cases c with
    | read n =>
      cases w with
      | true => trivial
      | false => exact hu
    | write cs =>
      cases w with
      | true => exact hu
      | false => trivial

variable [DecidableEq T]

/-- A process moves on, and the others wait as before. -/
lemma patient_setPlace {p : Place} (hother : ∀ u, u ≠ t → (s.place u).Waits s.pipe)
    (ht : p.Waits s.pipe) : Patient (s.setPlace t p) := by
  intro u
  by_cases hu : u = t
  · subst hu
    rw [setPlace_place_self]
    exact ht
  · rw [setPlace_place_of_ne _ _ hu]
    exact hother u hu

variable [Fintype T]

lemma Patient.effect {l : Label T} {a : Option (Act T)} (h : Patient s) (hends : Ends s)
    (hprompt : Prompt s l) (hs : Effect s l a s') : Patient s' := by
  cases hs with
  | call ht hfds => exact patient_setPlace (fun u _ => h u) trivial
  | wrote ht hlock _ hrest =>
    exact patient_setPlace (fun u _ => h.wakeup_fill (hends.not_drowsy hlock) _) trivial
  | @failed t cs ht hlock _ hrest hf =>
    refine patient_setPlace (fun u _ => ?_) trivial
    have hu := h u
    rcases hf with hopen | hkilled
    · -- the end for readers is closed, so that nobody is in `piperead`
      cases hp : s.place u with
      | user => trivial
      | ready c => trivial
      | closing w => trivial
      | drowsy c => exact absurd hp (hends.not_drowsy hlock u c)
      | asleep c =>
        cases c with
        | read n =>
          have hpos := (hends.call (by rw [hp]; rfl)).trans_le (hends.fds_le u false)
          have := (hends.isOpen false).mpr (Or.inl hpos)
          rw [← s.pipe.fill_isOpen cs] at this
          exact absurd (this.symm.trans hopen) (by simp)
        | write cs' =>
          rw [hp] at hu
          exact (h.fill_eq hp : (s.pipe.fill cs).1 = s.pipe).symm ▸ hu
    · obtain hfull | hnil := hprompt cs ht hkilled
      · rw [Pipe.fill_of_full hfull]
        exact hu
      · exact absurd hnil hrest
  | put ht hlock _ hrest hopen =>
    exact patient_setPlace (fun u _ => h.wakeup_fill (hends.not_drowsy hlock) _)
      ⟨Pipe.full_of_fill hrest, hopen⟩
  | interrupted ht hlock _ _ => exact patient_setPlace (fun u _ => h u) trivial
  | wait ht hlock _ hempty hopen => exact patient_setPlace (fun u _ => h u) ⟨hempty, hopen⟩
  | got ht hlock _ hready =>
    exact patient_setPlace (fun u _ => h.wakeup_drain (hends.not_drowsy hlock) hready) trivial
  | @sleep t c ht =>
    have hw := h t
    rw [ht] at hw
    exact patient_setPlace (fun u _ => h u) (by cases c <;> exact hw)
  | kill t =>
    have hw := h t
    refine patient_setPlace (fun u _ => h u) ?_
    cases hp : s.place t with
    | asleep c => trivial
    | user => trivial
    | ready c => trivial
    | closing w => trivial
    | drowsy c =>
      rw [hp] at hw
      exact hw
  | dup ht hfds => exact h
  | close ht hfds hr => exact h
  | last ht hfds hr => exact patient_setPlace (fun u _ => h u) trivial
  | pipeclose ht hlock _ =>
    exact patient_setPlace (fun u _ => h.wakeup_shut (hends.not_drowsy hlock) _) trivial
  | fork _ hu hfds hne => exact h

lemma patient_of_reachable {data : ℕ → UInt8}
    (h : Reachable (fun s => ∃ t, s = State.start data t) (Guarded Moves Prompt) s) :
    Ends s ∧ Patient s := by
  refine h.invariant (I := fun s => Ends s ∧ Patient s) ?_ ?_
  · rintro s ⟨t, rfl⟩
    exact ⟨.start data t, fun _ => trivial⟩
  · rintro s l s' ⟨hends, hs⟩ ⟨hl, hprompt⟩
    obtain ⟨a, ha⟩ := Effect.of_moves hl
    exact ⟨hends.effect ha, hs.effect hends hprompt ha⟩

/-- **No lost wakeup.**  Who sleeps in `piperead` sleeps on an empty pipe that can still be written,
and who sleeps in `pipewrite` on a full pipe that can still be read; so readers and writers are
never asleep together. -/
theorem asleep_in_pipe {data : ℕ → UInt8}
    (h : Reachable (fun s => ∃ t, s = State.start data t) (Guarded Moves Prompt) s) {c : Call}
    (ht : s.place t = .asleep c) :
    (if c.writable = true then s.pipe.Full else s.pipe.nread = s.pipe.nwrite) ∧
      (∃ u, 0 < s.fds u (!c.writable) ∨ s.place u = .closing (!c.writable)) ∧
      ∀ u c', s.place u = .asleep c' → c'.writable = c.writable := by
  obtain ⟨hends, hs⟩ := patient_of_reachable h
  have hother : ∀ w, s.pipe.isOpen w = true → ∃ u, 0 < s.fds u w ∨ s.place u = .closing w := by
    intro w hw
    obtain hpos | ⟨u, hu⟩ := (hends.isOpen w).mp hw
    · by_contra hno
      rw [not_exists] at hno
      rw [hends.ref, Finset.sum_eq_zero fun u _ => by have := hno u; omega] at hpos
      exact lt_irrefl 0 hpos
    · exact ⟨u, Or.inr hu⟩
  -- a pipe that is full is not empty
  have hfull : ¬(s.pipe.Full ∧ s.pipe.nread = s.pipe.nwrite) := by
    rintro ⟨hf, he⟩
    rw [Pipe.Full, ← he] at hf
    have : UInt32.ofNat PIPESIZE = 0 := by simpa using hf
    exact absurd this (by decide)
  have ht' := hs t
  rw [ht] at ht'
  cases c with
  | read n =>
    refine ⟨ht'.1, hother true ht'.2, fun u c' hu => ?_⟩
    have hu' := hs u
    rw [hu] at hu'
    cases c' with
    | read n' => rfl
    | write cs => exact absurd ⟨hu'.1, ht'.1⟩ hfull
  | write cs =>
    refine ⟨ht'.1, hother false ht'.2, fun u c' hu => ?_⟩
    have hu' := hs u
    rw [hu] at hu'
    cases c' with
    | write cs' => rfl
    | read n => exact absurd ⟨ht'.1, hu'.1⟩ hfull

/-- A process reads from an empty pipe that its parent can write. -/
theorem asleep_in_pipe_fork : ∃ s : State (Fin 2), s.place 1 = .asleep (.read 5) ∧
    s.pipe.nread = s.pipe.nwrite ∧ ∃ u, 0 < s.fds u true ∨ s.place u = .closing true := by
  have h : ∃ s : State (Fin 2), Reachable (fun s => ∃ t, s = State.start (fun _ => 0) t)
      (Guarded Moves Prompt) s ∧ s.place 1 = .asleep (.read 5) :=
    ⟨_, .next (.next (.next (.next (.start ⟨0, rfl⟩) (i := .fork 0 1) ⟨rfl, trivial⟩)
      (i := .call 1 (.read 5)) ⟨rfl, trivial⟩) (i := .piperead 1) ⟨rfl, trivial⟩)
      (i := .sleep 1) ⟨rfl, trivial⟩, rfl⟩
  obtain ⟨s, hs, ht⟩ := h
  obtain ⟨hempty, hopen, -⟩ := asleep_in_pipe hs ht
  exact ⟨s, ht, hempty, hopen⟩

/-- Without the condition, a wakeup is lost: a process that is killed while it writes fills the
pipe, and the reader sleeps on. -/
theorem lost_wakeup : ∃ s : State (Fin 2),
    Reachable (fun s => ∃ t, s = State.start (fun _ => 0) t) Moves s ∧
      s.place 1 = .asleep (.read 1) ∧ s.pipe.Full ∧ s.place 0 = .user := by
  have h : ∃ s : State (Fin 2), Reachable (fun s => ∃ t, s = State.start (fun _ => 0) t) Moves s ∧
      s.place 0 = .ready (.write (List.replicate 513 65)) ∧ s.place 1 = .asleep (.read 1) ∧
      s.lock = none ∧ s.freed = false ∧ s.killed 0 = true ∧
      s.pipe = ⟨fun _ => 0, 0, 0, true, true⟩ :=
    ⟨_, .next (.next (.next (.next (.next (.next (.start ⟨0, rfl⟩) (i := .fork 0 1) rfl)
      (i := .call 1 (.read 1)) rfl) (i := .piperead 1) rfl) (i := .sleep 1) rfl)
      (i := .call 0 (.write (List.replicate 513 65))) rfl) (i := .kill 0) rfl,
      rfl, rfl, rfl, rfl, rfl, rfl⟩
  obtain ⟨s, hs, hwriter, hreader, hlock, hfreed, hkilled, hp⟩ := h
  have hholds : s.pipe.Holds [] := by
    rw [hp]
    exact ⟨0, 0, rfl, rfl, le_rfl, Nat.zero_le _, rfl⟩
  -- there is room for 512 of the 513 bytes
  have hrest : (s.pipe.fill (List.replicate 513 65)).2 ≠ [] := by
    intro hnil
    obtain ⟨done, hcs, hbytes, -⟩ := hholds.fill (List.replicate 513 65)
    have hlen := congrArg List.length hcs
    have hle := hbytes.length_le
    rw [hnil, List.append_nil, List.length_replicate] at hlen
    rw [List.nil_append, ← hlen, PIPESIZE] at hle
    omega
  have hfail : s.Moves (.pipewrite 0)
      ({ s with pipe := (s.pipe.fill (List.replicate 513 65)).1 }.setPlace 0 .user) := by
    rw [Moves, next, hwriter]
    simp only [hlock, hfreed, hkilled, and_self, or_true, if_true, if_neg hrest, Option.map_some]
  refine ⟨_, hs.next hfail, ?_, Pipe.full_of_fill hrest, setPlace_place_self ..⟩
  rw [setPlace_place_of_ne _ _ (by decide)]
  exact hreader

end State

end Xv6Projects.Ipc
