import Xv6Projects.Ipc.Pipe
import Xv6Projects.Library.Count

/-!
# The two ends of a pipe

`ref` of a file is the number of descriptors of it, and an end of the pipe is open until
`pipeclose` has been called for its file.  As a process keeps its descriptors while it is in a call,
the page of the pipe is given back when, and only when, nobody can use it again.
-/

namespace Xv6Projects.Ipc

open Library

/-- The call that a process is in. -/
def Place.call : Place → Option Call
  | .ready c | .drowsy c | .asleep c => some c
  | .user | .closing _ => none

/-- Places that differ by a wakeup at most. -/
structure Place.Kin (p q : Place) : Prop where
  call : p.call = q.call
  closing : ∀ w, p = .closing w ↔ q = .closing w
  drowsy : ∀ c, p = .drowsy c ↔ q = .drowsy c

namespace Place

lemma Kin.refl (p : Place) : Kin p p := ⟨rfl, fun _ => Iff.rfl, fun _ => Iff.rfl⟩

lemma kin_rouse (p : Place) : Kin p.rouse p := by
  cases p with
  | asleep c => exact ⟨rfl, fun w => by simp [rouse], fun c => by simp [rouse]⟩
  | user => exact .refl _
  | ready c => exact .refl _
  | drowsy c => exact .refl _
  | closing w => exact .refl _

lemma kin_wake (w : Bool) (p : Place) : Kin (p.wake w) p := by
  cases p with
  | asleep c =>
    by_cases hc : c.writable = w
    · exact ⟨by simp [wake, hc, call], fun w => by simp [wake, hc], fun c => by simp [wake, hc]⟩
    · exact ⟨by simp [wake, hc], fun w => by simp [wake, hc], fun c => by simp [wake, hc]⟩
  | user => exact .refl _
  | ready c => exact .refl _
  | drowsy c => exact .refl _
  | closing w => exact .refl _

end Place

namespace Pipe

/-- The loop of `pipewrite` leaves the ends as they are. -/
lemma fill_isOpen (p : Pipe) (cs : List UInt8) (w : Bool) :
    (p.fill cs).1.isOpen w = p.isOpen w := by
  induction cs generalizing p with
  | nil => rfl
  | cons c cs ih =>
    rw [fill]
    split_ifs
    · rfl
    · rw [ih]
      cases w <;> rfl

/-- The loop of `piperead` leaves the ends as they are. -/
lemma drain_isOpen (p : Pipe) (n : ℕ) (w : Bool) : (p.drain n).1.isOpen w = p.isOpen w := by
  induction n generalizing p with
  | zero => rfl
  | succ n ih =>
    rw [drain]
    split_ifs
    · rfl
    · rw [ih]
      cases w <;> rfl

@[simp] lemma shut_isOpen_self (p : Pipe) (w : Bool) : (p.shut w).isOpen w = false := by
  cases w <;> rfl

lemma shut_isOpen_of_ne (p : Pipe) {w v : Bool} (h : v ≠ w) : (p.shut w).isOpen v = p.isOpen v := by
  cases w <;> cases v <;> first | rfl | exact absurd rfl h

end Pipe

namespace State

variable {T : Type} [DecidableEq T]

@[simp] lemma setPlace_place_self (s : State T) (t : T) (p : Place) :
    (s.setPlace t p).place t = p :=
  Function.update_self ..

lemma setPlace_place_of_ne (s : State T) {t u : T} (p : Place) (h : u ≠ t) :
    (s.setPlace t p).place u = s.place u :=
  Function.update_of_ne h ..

@[simp] lemma setFds_fds_self (s : State T) (t : T) (f : Bool → ℕ) : (s.setFds t f).fds t = f :=
  Function.update_self ..

lemma setFds_fds_of_ne (s : State T) {t u : T} (f : Bool → ℕ) (h : u ≠ t) :
    (s.setFds t f).fds u = s.fds u :=
  Function.update_of_ne h ..

end State

namespace State

variable {T : Type} [Fintype T]

/-- The references to a pipe. -/
structure Ends (s : State T) : Prop where
  ref (w : Bool) : s.ref w = ∑ t, s.fds t w
  call {t : T} {c : Call} : (s.place t).call = some c → 0 < s.fds t c.writable
  isOpen (w : Bool) : s.pipe.isOpen w = true ↔ 0 < s.ref w ∨ ∃ t, s.place t = .closing w
  closing {t : T} {w : Bool} : s.place t = .closing w → s.ref w = 0
  unique {t u : T} {w : Bool} : s.place t = .closing w → s.place u = .closing w → t = u
  freed : s.freed = true ↔ ∀ w, s.pipe.isOpen w = false
  lock (t : T) : s.lock = some t ↔ ∃ c, s.place t = .drowsy c

variable {s s' : State T} {t : T}

lemma Ends.fds_le (h : Ends s) (t : T) (w : Bool) : s.fds t w ≤ s.ref w := by
  rw [h.ref]
  exact le_sum_univ (fun t => s.fds t w) t

/-- Nobody is in `sleep` with the lock when the lock is free. -/
lemma Ends.not_drowsy (h : Ends s) (hlock : s.lock = none) (t : T) (c : Call) :
    s.place t ≠ .drowsy c := by
  intro ht
  have := (h.lock t).mpr ⟨c, ht⟩
  rw [hlock] at this
  exact absurd this (by simp)

variable [DecidableEq T]

/-- The lock is neither taken nor released. -/
lemma Ends.lock_same (h : Ends s) (hother : ∀ u, u ≠ t → (s'.place u).Kin (s.place u))
    (ht : ∀ c, s'.place t = .drowsy c ↔ s.place t = .drowsy c) (hlock : s'.lock = s.lock) (u : T) :
    s'.lock = some u ↔ ∃ c, s'.place u = .drowsy c := by
  rw [hlock, h.lock u]
  refine exists_congr fun c => ?_
  by_cases hu : u = t
  · rw [hu]
    exact (ht c).symm
  · exact ((hother u hu).drowsy c).symm

/-- The lock is kept in `sleep`. -/
lemma Ends.lock_take (h : Ends s) (hother : ∀ u, u ≠ t → (s'.place u).Kin (s.place u))
    (hfree : s.lock = none) {c : Call} (ht : s'.place t = .drowsy c) (hlock : s'.lock = some t)
    (u : T) : s'.lock = some u ↔ ∃ c, s'.place u = .drowsy c := by
  rw [hlock, Option.some_inj]
  refine ⟨fun he => ⟨c, he ▸ ht⟩, fun hu => ?_⟩
  obtain ⟨c', hc'⟩ := hu
  by_contra hne
  exact h.not_drowsy hfree u c' (((hother u (Ne.symm hne)).drowsy c').mp hc')

/-- The lock is released in `sleep`. -/
lemma Ends.lock_give (h : Ends s) (hother : ∀ u, u ≠ t → (s'.place u).Kin (s.place u)) {c : Call}
    (ht : s.place t = .drowsy c) (ht' : ∀ c, s'.place t ≠ .drowsy c) (hlock : s'.lock = none)
    (u : T) : s'.lock = some u ↔ ∃ c, s'.place u = .drowsy c := by
  rw [hlock]
  refine iff_of_false (by simp) fun hu => ?_
  obtain ⟨c', hc'⟩ := hu
  by_cases hut : u = t
  · exact ht' c' (hut ▸ hc')
  · have htl := (h.lock t).mpr ⟨c, ht⟩
    have hul := (h.lock u).mpr ⟨c', ((hother u hut).drowsy c').mp hc'⟩
    exact hut (Option.some_inj.mp (hul.symm.trans htl))

/-- A process moves on, and may wake others. -/
lemma Ends.move (h : Ends s) (hother : ∀ u, u ≠ t → (s'.place u).Kin (s.place u))
    (hclosing : ∀ w, s'.place t = .closing w ↔ s.place t = .closing w)
    (hcall : ∀ c, (s'.place t).call = some c → 0 < s.fds t c.writable) (hfds : s'.fds = s.fds)
    (href : s'.ref = s.ref) (hopen : ∀ w, s'.pipe.isOpen w = s.pipe.isOpen w)
    (hfreed : s'.freed = s.freed) (hlock : ∀ u, s'.lock = some u ↔ ∃ c, s'.place u = .drowsy c) :
    Ends s' := by
  have hc : ∀ u w, s'.place u = .closing w ↔ s.place u = .closing w := by
    intro u w
    by_cases hu : u = t
    · rw [hu]
      exact hclosing w
    · exact (hother u hu).closing w
  refine ⟨fun w => ?_, fun {u c} hu => ?_, fun w => ?_, fun {u w} hu => ?_, fun {u v w} hu hv => ?_,
    ?_, hlock⟩
  · rw [href, hfds]
    exact h.ref w
  · rw [hfds]
    by_cases hut : u = t
    · rw [hut] at hu ⊢
      exact hcall c hu
    · rw [(hother u hut).call] at hu
      exact h.call hu
  · simp only [hopen, href, hc]
    exact h.isOpen w
  · rw [href]
    exact h.closing ((hc u w).mp hu)
  · exact h.unique ((hc u w).mp hu) ((hc v w).mp hv)
  · simp only [hfreed, hopen]
    exact h.freed

/-- A process has a descriptor more or less, and there is one at least. -/
lemma Ends.count (h : Ends s) {n : ℕ} {w : Bool} (ht : s.place t = .user) (hpos : 0 < s.ref w)
    {r : ℕ} (hr : r + s.fds t w = s.ref w + n) (hrpos : 0 < r)
    (hs : s' = { s with ref := Function.update s.ref w r }.setFds t
      (Function.update (s.fds t) w n)) : Ends s' := by
  subst hs
  have href : ∀ v, v ≠ w → Function.update s.ref w r v = s.ref v :=
    fun v hv => Function.update_of_ne hv ..
  have hw : Function.update s.ref w r w = r := Function.update_self ..
  refine ⟨fun v => ?_, fun {u c} hu => ?_, fun v => ?_, fun {u v} hu => ?_, h.unique, h.freed,
    h.lock⟩
  · have hsum := sum_univ_add_of_eq_off
      (f := fun u => (Function.update s.fds t (Function.update (s.fds t) w n)) u v)
      (g := fun u => s.fds u v) t fun u hu => by rw [Function.update_of_ne hu]
    have hv := h.ref v
    simp only [Function.update_self] at hsum
    by_cases hvw : v = w
    · subst hvw
      simp only [setFds, Function.update_self] at hsum ⊢
      omega
    · simp only [setFds, Function.update_of_ne hvw] at hsum ⊢
      omega
  · have hut : u ≠ t := by
      rintro rfl
      have hu' : (s.place u).call = some c := hu
      rw [ht] at hu'
      exact absurd hu' (by simp [Place.call])
    rw [setFds_fds_of_ne _ _ hut]
    exact h.call hu
  · have := h.isOpen v
    by_cases hvw : v = w
    · subst hvw
      refine ⟨fun _ => Or.inl ?_, fun _ => this.mpr (Or.inl hpos)⟩
      exact hrpos.trans_eq hw.symm
    · exact this.trans (by rw [← href v hvw]; rfl)
  · have hu' : s.ref v = 0 := h.closing hu
    have hvw : v ≠ w := by
      rintro rfl
      omega
    exact (href v hvw).trans hu'

/-- The last descriptor of an end is given up. -/
lemma Ends.last (h : Ends s) {w : Bool} (ht : s.place t = .user) (hpos : 0 < s.fds t w)
    (hr : s.ref w - 1 = 0) :
    Ends (({ s with ref := Function.update s.ref w (s.ref w - 1) }.setFds t
      (Function.update (s.fds t) w (s.fds t w - 1))).setPlace t (.closing w)) := by
  have hle := h.fds_le t w
  have hother : ∀ u, u ≠ t → s.fds u w = 0 := by
    intro u hu
    have := add_le_sum_univ (fun u => s.fds u w) hu
    have := h.ref w
    omega
  have href : ∀ v, v ≠ w → Function.update s.ref w (s.ref w - 1) v = s.ref v :=
    fun v hv => Function.update_of_ne hv ..
  have hw : Function.update s.ref w (s.ref w - 1) w = 0 := (Function.update_self ..).trans hr
  have hplace : ∀ u v, Function.update s.place t (.closing w) u = .closing v ↔
      u = t ∧ v = w ∨ s.place u = .closing v := by
    intro u v
    by_cases hu : u = t
    · subst hu
      simp [ht, eq_comm]
    · simp [hu]
  -- nobody is in `pipeclose` of an end that has descriptors
  have hno : ∀ u, s.place u ≠ .closing w := by
    intro u hu
    have := h.closing hu
    omega
  refine ⟨fun v => ?_, fun {u c} hu => ?_, fun v => ?_, fun {u v} hu => ?_,
    fun {u u' v} hu hu' => ?_, h.freed, fun u => ?_⟩
  · have hsum := sum_univ_add_of_eq_off
      (f := fun u => (Function.update s.fds t (Function.update (s.fds t) w (s.fds t w - 1))) u v)
      (g := fun u => s.fds u v) t fun u hu => by rw [Function.update_of_ne hu]
    have hv := h.ref v
    simp only [Function.update_self] at hsum
    by_cases hvw : v = w
    · subst hvw
      simp only [setFds, setPlace, Function.update_self] at hsum ⊢
      omega
    · simp only [setFds, setPlace, Function.update_of_ne hvw] at hsum ⊢
      omega
  · have hut : u ≠ t := by
      rintro rfl
      rw [setPlace_place_self] at hu
      exact absurd hu (by simp [Place.call])
    rw [setPlace_place_of_ne _ _ hut] at hu
    exact (h.call hu).trans_eq (congrFun (setFds_fds_of_ne _ _ hut) _).symm
  · refine (h.isOpen v).trans ?_
    by_cases hvw : v = w
    · subst hvw
      exact ⟨fun _ => Or.inr ⟨t, (hplace t v).mpr (Or.inl ⟨rfl, rfl⟩)⟩,
        fun _ => Or.inl (by omega)⟩
    · refine or_congr (iff_of_eq (congrArg _ (href v hvw).symm)) (exists_congr fun u => ?_)
      exact ⟨fun hu => (hplace u v).mpr (Or.inr hu),
        fun hu => ((hplace u v).mp hu).resolve_left fun hc => hvw hc.2⟩
  · obtain ⟨-, rfl⟩ | hu := (hplace u v).mp hu
    · exact hw
    · have hvw : v ≠ w := fun he => hno u (he ▸ hu)
      exact (href v hvw).trans (h.closing hu)
  · obtain ⟨rfl, rfl⟩ | hp := (hplace u v).mp hu
    · obtain ⟨rfl, -⟩ | hp' := (hplace u' v).mp hu'
      · rfl
      · exact absurd hp' (hno u')
    · obtain ⟨rfl, rfl⟩ | hp' := (hplace u' v).mp hu'
      · exact absurd hp (hno u)
      · exact h.unique hp hp'
  · refine (h.lock u).trans (exists_congr fun c => ?_)
    by_cases hu : u = t
    · subst hu
      simp [ht]
    · rw [setPlace_place_of_ne _ _ hu]
      rfl

/-- An end is closed. -/
lemma Ends.pipeclose (h : Ends s) {w : Bool} (ht : s.place t = .closing w)
    (hlock : s.lock = none) :
    Ends (({ s with
      pipe := s.pipe.shut w
      freed := !(s.pipe.shut w).readopen && !(s.pipe.shut w).writeopen }.wakeup w.not).setPlace t
        .user) := by
  have hplace : ∀ u v, Function.update (fun u => (s.place u).wake w.not) t .user u = .closing v ↔
      u ≠ t ∧ s.place u = .closing v := by
    intro u v
    by_cases hu : u = t
    · subst hu
      simp
    · simp [hu, (Place.kin_wake w.not (s.place u)).closing v]
  refine ⟨h.ref, fun {u c} hu => ?_, fun v => ?_, fun {u v} hu => ?_, fun {u u' v} hu hu' => ?_, ?_,
    fun u => ?_⟩
  · have hut : u ≠ t := by
      rintro rfl
      rw [setPlace_place_self] at hu
      exact absurd hu (by simp [Place.call])
    rw [setPlace_place_of_ne _ _ hut] at hu
    exact h.call ((Place.kin_wake w.not (s.place u)).call.symm.trans hu)
  · have hv := h.isOpen v
    by_cases hvw : v = w
    · subst hvw
      refine iff_of_false (by simp [setPlace, wakeup]) ?_
      rintro (hpos | ⟨u, hu⟩)
      · exact (Nat.pos_iff_ne_zero.mp hpos) (h.closing ht)
      · obtain ⟨hut, hu⟩ := (hplace u v).mp hu
        exact hut (h.unique hu ht)
    · rw [← Pipe.shut_isOpen_of_ne s.pipe hvw] at hv
      refine hv.trans (or_congr Iff.rfl (exists_congr fun u => ?_))
      refine ⟨fun hu => (hplace u v).mpr ⟨?_, hu⟩, fun hu => ((hplace u v).mp hu).2⟩
      rintro rfl
      rw [ht] at hu
      exact hvw (Place.closing.inj hu).symm
  · exact h.closing ((hplace u v).mp hu).2
  · exact h.unique ((hplace u v).mp hu).2 ((hplace u' v).mp hu').2
  · change (!(s.pipe.shut w).readopen && !(s.pipe.shut w).writeopen) = true ↔
      ∀ v, (s.pipe.shut w).isOpen v = false
    rw [Bool.and_eq_true, Bool.forall_bool, Bool.not_eq_true', Bool.not_eq_true']
    rfl
  · refine iff_of_false (by simp [setPlace, wakeup, hlock]) ?_
    rintro ⟨c, hc⟩
    by_cases hu : u = t
    · subst hu
      rw [setPlace_place_self] at hc
      exact absurd hc (by simp)
    · rw [setPlace_place_of_ne _ _ hu] at hc
      exact h.not_drowsy hlock u c (((Place.kin_wake w.not (s.place u)).drowsy c).mp hc)

/-- A process is created. -/
lemma Ends.fork (h : Ends s) {u : T} (hu : s.place u = .user) (hfds : s.fds u = fun _ => 0)
    (hne : t ≠ u) :
    Ends ({ s with
      ref := fun w => s.ref w + s.fds t w
      killed := Function.update s.killed u false }.setFds u (s.fds t)) := by
  have hzero : ∀ w, s.ref w = 0 → s.fds t w = 0 := by
    intro w hw
    have := h.fds_le t w
    omega
  refine ⟨fun w => ?_, fun {v c} hv => ?_, fun w => ?_, fun {v w} hv => ?_, h.unique, h.freed,
    h.lock⟩
  · have hsum := sum_univ_add_of_eq_off (f := fun v => (Function.update s.fds u (s.fds t)) v w)
      (g := fun v => s.fds v w) u fun v hv => by rw [Function.update_of_ne hv]
    have hw := h.ref w
    have hu0 := congrFun hfds w
    simp only [Function.update_self, setFds] at hsum ⊢
    omega
  · have hvu : v ≠ u := by
      rintro rfl
      have hv' : (s.place v).call = some c := hv
      rw [hu] at hv'
      exact absurd hv' (by simp [Place.call])
    exact (h.call hv).trans_eq (congrFun (setFds_fds_of_ne _ _ hvu) _).symm
  · refine (h.isOpen w).trans (or_congr ?_ Iff.rfl)
    have := hzero w
    change 0 < s.ref w ↔ 0 < s.ref w + s.fds t w
    omega
  · have := hzero w (h.closing hv)
    have hw : s.ref w = 0 := h.closing hv
    change s.ref w + s.fds t w = 0
    omega

lemma Ends.start (data : ℕ → UInt8) (t : T) : Ends (State.start data t) := by
  refine ⟨fun w => ?_, fun {u c} hu => absurd hu (by simp [State.start, Place.call]), fun w => ?_,
    fun {u w} hu => absurd hu (by simp [State.start]),
    fun {u v w} hu => absurd hu (by simp [State.start]), ?_, fun u => ?_⟩
  · have hsum := sum_univ_add_of_eq_off
      (f := fun u => (Function.update (fun _ _ => 0) t (fun _ => 1) : T → Bool → ℕ) u w)
      (g := fun _ => 0) t fun u hu => by rw [Function.update_of_ne hu]
    simp only [State.start, Function.update_self, Finset.sum_const_zero] at hsum ⊢
    omega
  · exact iff_of_true (by cases w <;> rfl) (Or.inl Nat.one_pos)
  · refine iff_of_false (by simp [State.start]) fun hw => ?_
    exact absurd (hw true) (by simp [State.start, Pipe.isOpen])
  · exact iff_of_false (by simp [State.start]) (by simp [State.start])

omit [Fintype T] in
/-- Another process than the one that moves on stays where it is. -/
lemma kin_setPlace (s : State T) (p : Place) {u : T} (h : u ≠ t) :
    ((s.setPlace t p).place u).Kin (s.place u) := by
  rw [setPlace_place_of_ne s p h]
  exact .refl _

omit [Fintype T] in
/-- Another process than the one that moves on is woken at most. -/
lemma kin_wakeup (s : State T) (w : Bool) (p : Place) {u : T} (h : u ≠ t) :
    (((s.wakeup w).setPlace t p).place u).Kin (s.place u) := by
  rw [setPlace_place_of_ne _ p h]
  exact Place.kin_wake w _

lemma Ends.effect {l : Label T} {a : Option (Act T)} (h : Ends s) (hs : Effect s l a s') :
    Ends s' := by
  cases hs with
  | @call t c ht hfds =>
    have hother : ∀ u, u ≠ t → ((s.setPlace t (.ready c)).place u).Kin (s.place u) :=
      fun u hu => kin_setPlace s _ hu
    refine h.move hother (fun w => by simp [ht]) (fun c' hc' => ?_) rfl rfl (fun w => rfl) rfl
      (h.lock_same hother (fun c' => by simp [ht]) rfl)
    rw [setPlace_place_self] at hc'
    exact Option.some_inj.mp hc' ▸ hfds
  | @wrote t cs ht hlock _ _ =>
    refine h.move (fun u hu => kin_wakeup _ false _ hu) (fun w => by simp [ht]) (fun c hc => ?_)
      rfl rfl (fun w => s.pipe.fill_isOpen cs w) rfl
      (h.lock_same (fun u hu => kin_wakeup _ false _ hu) (fun c => by simp [ht]) rfl)
    rw [setPlace_place_self] at hc
    exact absurd hc (by simp [Place.call])
  | @failed t cs ht hlock _ _ _ =>
    refine h.move (fun u hu => kin_setPlace _ _ hu) (fun w => by simp [ht]) (fun c hc => ?_)
      rfl rfl (fun w => s.pipe.fill_isOpen cs w) rfl
      (h.lock_same (fun u hu => kin_setPlace _ _ hu) (fun c => by simp [ht]) rfl)
    rw [setPlace_place_self] at hc
    exact absurd hc (by simp [Place.call])
  | @put t cs ht hlock _ _ _ =>
    refine h.move (fun u hu => kin_wakeup _ false _ hu) (fun w => by simp [ht]) (fun c hc => ?_)
      rfl rfl (fun w => s.pipe.fill_isOpen cs w) rfl
      (h.lock_take (fun u hu => kin_wakeup _ false _ hu) hlock (setPlace_place_self ..) rfl)
    rw [setPlace_place_self] at hc
    exact Option.some_inj.mp hc ▸ h.call (c := .write cs) (by rw [ht]; rfl)
  | @interrupted t n ht hlock _ _ =>
    refine h.move (fun u hu => kin_setPlace _ _ hu) (fun w => by simp [ht]) (fun c hc => ?_)
      rfl rfl (fun w => rfl) rfl
      (h.lock_same (fun u hu => kin_setPlace _ _ hu) (fun c => by simp [ht]) rfl)
    rw [setPlace_place_self] at hc
    exact absurd hc (by simp [Place.call])
  | @wait t n ht hlock _ _ _ =>
    refine h.move (fun u hu => kin_setPlace _ _ hu) (fun w => by simp [ht]) (fun c hc => ?_)
      rfl rfl (fun w => rfl) rfl
      (h.lock_take (fun u hu => kin_setPlace _ _ hu) hlock (setPlace_place_self ..) rfl)
    rw [setPlace_place_self] at hc
    exact Option.some_inj.mp hc ▸ h.call (c := .read n) (by rw [ht]; rfl)
  | @got t n ht hlock _ _ =>
    refine h.move (fun u hu => kin_wakeup _ true _ hu) (fun w => by simp [ht]) (fun c hc => ?_)
      rfl rfl (fun w => s.pipe.drain_isOpen n w) rfl
      (h.lock_same (fun u hu => kin_wakeup _ true _ hu) (fun c => by simp [ht]) rfl)
    rw [setPlace_place_self] at hc
    exact absurd hc (by simp [Place.call])
  | @sleep t c ht =>
    refine h.move (fun u hu => kin_setPlace _ _ hu) (fun w => by simp [ht]) (fun c' hc' => ?_)
      rfl rfl (fun w => rfl) rfl
      (h.lock_give (fun u hu => kin_setPlace _ _ hu) ht (fun c' => by simp) rfl)
    rw [setPlace_place_self] at hc'
    exact Option.some_inj.mp hc' ▸ h.call (c := c) (by rw [ht]; rfl)
  | kill t =>
    have hkin := Place.kin_rouse (s.place t)
    refine h.move (fun u hu => kin_setPlace _ _ hu) (fun w => ?_) (fun c hc => ?_)
      rfl rfl (fun w => rfl) rfl
      (h.lock_same (fun u hu => kin_setPlace _ _ hu) (fun c => ?_) rfl)
    · rw [setPlace_place_self]
      exact hkin.closing w
    · rw [setPlace_place_self, hkin.call] at hc
      exact h.call hc
    · rw [setPlace_place_self]
      exact hkin.drowsy c
  | @dup t w ht hfds =>
    have := h.fds_le t w
    exact h.count ht (hfds.trans_le this) (by omega) (Nat.succ_pos _) rfl
  | @close t w ht hfds hr =>
    have := h.fds_le t w
    exact h.count ht (hfds.trans_le this) (by omega) (Nat.pos_of_ne_zero hr) rfl
  | @last t w ht hfds hr => exact h.last ht hfds hr
  | @pipeclose t w ht hlock _ => exact h.pipeclose ht hlock
  | @fork t u _ hu hfds hne => exact h.fork hu hfds hne

lemma ends_of_reachable {data : ℕ → UInt8}
    (h : Reachable (fun s => ∃ t, s = State.start data t) Moves s) : Ends s := by
  refine h.invariant ?_ ?_
  · rintro s ⟨t, rfl⟩
    exact .start data t
  · intro s l s' hs hl
    obtain ⟨a, ha⟩ := Effect.of_moves hl
    exact hs.effect ha

omit [DecidableEq T] in
lemma Ends.freed_iff (h : Ends s) :
    s.freed = true ↔ ∀ t, s.place t = .user ∧ ∀ w, s.fds t w = 0 := by
  rw [h.freed]
  constructor
  · intro hopen t
    have hclosed : ∀ w, s.ref w = 0 ∧ ∀ t, s.place t ≠ .closing w := by
      intro w
      have := mt (h.isOpen w).mpr (by simp [hopen w])
      rw [not_or, not_exists] at this
      exact ⟨by omega, this.2⟩
    have hfds : ∀ w, s.fds t w = 0 := by
      intro w
      have := h.fds_le t w
      have := (hclosed w).1
      omega
    refine ⟨?_, hfds⟩
    have hcall : ∀ c, (s.place t).call ≠ some c := by
      intro c hc
      have := h.call hc
      rw [hfds] at this
      exact absurd this (lt_irrefl 0)
    cases hp : s.place t with
    | user => rfl
    | ready c => exact absurd (by rw [hp]; rfl) (hcall c)
    | drowsy c => exact absurd (by rw [hp]; rfl) (hcall c)
    | asleep c => exact absurd (by rw [hp]; rfl) (hcall c)
    | closing w => exact absurd hp ((hclosed w).2 t)
  · intro hall w
    refine Bool.eq_false_iff.mpr fun hw => ?_
    obtain hpos | ⟨t, ht⟩ := (h.isOpen w).mp hw
    · have hsum := h.ref w
      rw [Finset.sum_eq_zero fun t _ => (hall t).2 w] at hsum
      omega
    · rw [(hall t).1] at ht
      exact absurd ht (by simp)

/-- The page of a pipe is given back when no process has a descriptor of it any more, and then
nobody is in a call of it: a pipe is neither lost nor used again. -/
theorem freed_when_unused {data : ℕ → UInt8} {s : State T}
    (h : Reachable (fun s => ∃ t, s = State.start data t) Moves s) :
    s.freed = true ↔ ∀ t, s.place t = .user ∧ ∀ w, s.fds t w = 0 :=
  (ends_of_reachable h).freed_iff

/-- Two processes close their descriptors of a pipe. -/
theorem freed_when_unused_fork : ∃ s : State (Fin 2), s.freed = true ∧
    ∀ t, s.place t = .user ∧ ∀ w, s.fds t w = 0 := by
  have h : ∃ s, run (fun (s : State (Fin 2)) l => (s.next l).map Prod.snd)
      (State.start (fun _ => 0) 0) [.fork 0 1, .close 0 false, .close 0 true, .close 1 true,
        .pipeclose 1, .close 1 false, .pipeclose 1] = some s ∧ s.freed = true := ⟨_, rfl, rfl⟩
  obtain ⟨s, hrun, hfreed⟩ := h
  have h₀ : Reachable (fun s => ∃ t, s = State.start (fun _ => 0) t) Moves
      (State.start (fun _ => 0) (0 : Fin 2)) := .start ⟨0, rfl⟩
  exact ⟨s, hfreed, (freed_when_unused (h₀.run (fun _ _ _ hl => hl) hrun)).mp hfreed⟩

end State

end Xv6Projects.Ipc
