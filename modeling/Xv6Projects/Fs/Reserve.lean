import Xv6Projects.Fs.Log

/-!
# Log space and waiting for it

`begin_op` lets an operation in when the log has room for it and for the operations inside, and
puts the caller to sleep otherwise.  The counter `outstanding` and the flag `committing` are right
in every run; from this follow two things that the file system relies on: nobody sleeps while there
is room, and there is room for whoever is inside.
-/

namespace Xv6Projects.Fs

open Finset Library

variable {T : Type}

/-- The thread is in an operation. -/
def Place.inside : Place → Bool
  | .op => true
  | _ => false

/-- The thread commits, or recovers the disk. -/
def Place.commits : Place → Bool
  | .writeLog .. | .writeHead _ | .install .. | .clear _ | .committed | .readHead _ => true
  | _ => false

lemma Place.inside_of_commits {p : Place} (h : p.commits = true) : p.inside = false := by
  cases p with
  | op => exact absurd h (by simp [Place.commits])
  | _ => rfl

namespace Log

/-- What holds where a thread stands. -/
def Here (c : Log T) : Place → Prop
  | .out | .op => True
  | .begin => c.up = true
  | .asleep => c.up = true ∧ ¬c.Fits
  | .writeLog tail _ => c.up = true ∧ tail < c.lh.length
  | .writeHead _ => c.up = true ∧ c.lh ≠ []
  | .install tail _ => tail < c.lh.length
  | .clear _ => c.lh = []
  | .committed => c.up = true ∧ c.lh = []
  | .readHead _ => c.up = false ∧ c.lh = []

/-- The counter and the flag of the log say where the threads stand. -/
structure Control [Fintype T] (c : Log T) : Prop where
  outstanding : ∑ t, (c.place t).inside.toNat = c.outstanding
  commits : ∑ t, (c.place t).commits.toNat = (c.committing || !c.up).toNat
  quiet : c.committing = true ∨ c.up = false → c.outstanding = 0
  down : c.up = false → c.committing = false
  empty : c.up = true → c.committing = false → c.outstanding = 0 → c.lh = []
  here : ∀ t, c.Here (c.place t)

variable {c c₁ c' : Log T} {t u : T}

lemma wakeup_place_ne (c : Log T) (t : T) : c.wakeup.place t ≠ .asleep := by
  simp only [wakeup]
  split
  · simp
  · assumption

/-- `wakeup` changes only where the threads that sleep stand. -/
lemma wakeup_place (c : Log T) (t : T) :
    c.place t = .asleep ∧ c.wakeup.place t = .begin ∨ c.wakeup.place t = c.place t := by
  simp only [wakeup]
  split
  · rename_i h
    exact Or.inl ⟨h, rfl⟩
  · exact Or.inr rfl

/-- A thread that does not commit stands as before. -/
lemma Here.frame {p : Place} (h : c.Here p) (hp : p.commits = false) (hup : c₁.up = c.up)
    (hfit : p = .asleep → ¬c₁.Fits) : c₁.Here p := by
  cases p with
  | out | op => trivial
  | begin => exact hup.trans h
  | asleep => exact ⟨hup.trans h.1, hfit rfl⟩
  | writeLog | writeHead | install | clear | committed | readHead =>
    exact absurd hp (by simp [Place.commits])

section
variable [DecidableEq T]

@[simp] lemma setPlace_self (c : Log T) (t : T) (p : Place) : (c.setPlace t p).place t = p :=
  Function.update_self ..

lemma setPlace_of_ne (c : Log T) (p : Place) (h : u ≠ t) :
    (c.setPlace t p).place u = c.place u :=
  Function.update_of_ne h ..

variable [Fintype T]

/-- One thread moves: what is counted changes by what it counts for. -/
lemma sum_setPlace (f : T → Place → ℕ) (c : Log T) (t : T) (p : Place) :
    ∑ u, f u ((c.setPlace t p).place u) + f t (c.place t) = ∑ u, f u (c.place u) + f t p := by
  have h := sum_univ_add_of_eq_off (f := fun u => f u ((c.setPlace t p).place u))
    (g := fun u => f u (c.place u)) t fun u hu => by rw [setPlace_of_ne c p hu]
  simpa only [setPlace_self] using h

/-- Only one thread commits. -/
lemma Control.alone (h : Control c) (ht : (c.place t).commits = true)
    (hu : (c.place u).commits = true) : t = u := by
  by_contra hne
  have hsum := add_le_sum_univ (fun v => (c.place v).commits.toNat) hne
  have := Bool.toNat_le (c.committing || !c.up)
  rw [h.commits, ht, hu, Bool.toNat_true] at hsum
  omega

omit [DecidableEq T] in
/-- A thread is committing, and nobody is inside. -/
lemma Control.of_commits (h : Control c) (ht : (c.place t).commits = true) :
    c.committing = true ∨ c.up = false := by
  have hle := le_sum_univ (fun v => (c.place v).commits.toNat) t
  rw [h.commits, ht] at hle
  cases hc : c.committing with
  | true => exact Or.inl rfl
  | false =>
    cases hup : c.up with
    | false => exact Or.inr rfl
    | true =>
      rw [hc, hup] at hle
      exact absurd hle (by simp)

omit [DecidableEq T] in
/-- A thread is inside: the file system is up, and nobody commits. -/
lemma Control.of_op (h : Control c) (ht : c.place t = .op) :
    c.up = true ∧ c.committing = false ∧ 0 < c.outstanding ∧
      ∀ u, (c.place u).commits = false := by
  have hle := le_sum_univ (fun v => (c.place v).inside.toNat) t
  rw [h.outstanding, ht] at hle
  have hpos : 0 < c.outstanding := hle
  have hq : ¬(c.committing = true ∨ c.up = false) := fun hq => hpos.ne' (h.quiet hq)
  rw [not_or, Bool.not_eq_true, Bool.not_eq_false] at hq
  refine ⟨hq.2, hq.1, hpos, fun u => ?_⟩
  by_contra hu
  rcases h.of_commits (by simpa using hu) with hc | hup
  · exact absurd (hc.symm.trans hq.1) (by simp)
  · exact absurd (hup.symm.trans hq.2) (by simp)

/-- At boot one thread recovers the disk. -/
lemma Control.boot (t : T) : Control (Log.boot t) := by
  refine ⟨?_, ?_, fun _ => rfl, fun _ => rfl, fun _ _ _ => rfl, fun u => ?_⟩
  · have h := sum_setPlace (fun _ p => p.inside.toNat) ⟨0, false, [], false, fun _ => .out⟩ t
      (.readHead none)
    change ∑ u, ((Log.boot t).place u).inside.toNat + 0 = ∑ _u : T, 0 + 0 at h
    rwa [sum_const_zero] at h
  · have h := sum_setPlace (fun _ p => p.commits.toNat) ⟨0, false, [], false, fun _ => .out⟩ t
      (.readHead none)
    change ∑ u, ((Log.boot t).place u).commits.toNat + 0 = ∑ _u : T, 0 + 1 at h
    rwa [sum_const_zero] at h
  · by_cases hu : u = t
    · rw [hu, Log.boot, setPlace_self]
      exact ⟨rfl, rfl⟩
    · rw [Log.boot, setPlace_of_ne _ _ hu]
      trivial

/-! ### One step -/

/-- One thread moves, and the counter and the flag with it. -/
lemma Control.move {k : Log T} (h : Control c) (hplace : k.place = c.place) {p : Place}
    (hout : k.outstanding + (c.place t).inside.toNat = c.outstanding + p.inside.toNat)
    (hcom : (k.committing || !k.up).toNat + (c.place t).commits.toNat =
      (c.committing || !c.up).toNat + p.commits.toNat)
    (hquiet : k.committing = true ∨ k.up = false → k.outstanding = 0)
    (hdown : k.up = false → k.committing = false)
    (hempty : k.up = true → k.committing = false → k.outstanding = 0 → k.lh = [])
    (hhere : ∀ u, u ≠ t → k.Here (c.place u)) (hp : k.Here p) : Control (k.setPlace t p) := by
  have ho := sum_setPlace (fun _ p => p.inside.toNat) k t p
  have hc := sum_setPlace (fun _ p => p.commits.toNat) k t p
  rw [hplace] at ho hc
  have ho' := h.outstanding
  have hc' := h.commits
  refine ⟨?_, ?_, hquiet, hdown, hempty, fun u => ?_⟩
  · change _ = k.outstanding
    omega
  · change _ = (k.committing || !k.up).toNat
    omega
  · by_cases hu : u = t
    · rw [hu, setPlace_self]
      cases p <;> exact hp
    · rw [setPlace_of_ne k p hu, hplace]
      have hhu := hhere u hu
      cases hq : c.place u <;> rw [hq] at hhu <;> exact hhu

omit [DecidableEq T] in
/-- `wakeup` keeps the counter and the flag. -/
lemma Control.wakeup (h : Control c) : Control c.wakeup := by
  have hsum : ∀ f : Place → ℕ, f .asleep = f .begin →
      ∑ t, f (c.wakeup.place t) = ∑ t, f (c.place t) := by
    intro f hf
    refine sum_congr rfl fun t _ => ?_
    rcases c.wakeup_place t with ⟨ha, hb⟩ | he
    · rw [ha, hb, hf]
    · rw [he]
  refine ⟨?_, ?_, h.quiet, h.down, h.empty, fun t => ?_⟩
  · exact (hsum (fun p => p.inside.toNat) rfl).trans h.outstanding
  · exact (hsum (fun p => p.commits.toNat) rfl).trans h.commits
  · have hh := h.here t
    rcases c.wakeup_place t with ⟨ha, hb⟩ | he
    · rw [ha] at hh
      rw [hb]
      exact hh.1
    · rw [he]
      cases hp : c.place t <;> rw [hp] at hh <;> exact hh

/-- A thread that commits goes on, and keeps the header. -/
lemma Control.go (h : Control c) {p : Place} (ht : (c.place t).commits = true)
    (hp : p.commits = true) (hpin : p.inside = false) (hhere : c.Here p) :
    Control (c.setPlace t p) := by
  have hin := Place.inside_of_commits ht
  refine h.move rfl ?_ ?_ h.quiet h.down h.empty (fun u _ => h.here u) hhere
  · rw [hin, hpin]
  · rw [ht, hp]

/-- A thread that commits changes the header in memory. -/
lemma Control.header (h : Control c) {p : Place} (ht : (c.place t).commits = true)
    (l : List ℕ) (hp : p.commits = true) (hpin : p.inside = false)
    (hhere : Here { c with lh := l } p) : Control ({ c with lh := l }.setPlace t p) := by
  have hin := Place.inside_of_commits ht
  have hcom := h.of_commits ht
  refine h.move (k := { c with lh := l }) rfl ?_ ?_ h.quiet h.down ?_ (fun u hu => ?_) hhere
  · rw [hin, hpin]
  · rw [ht, hp]
  · intro hup hc
    rcases hcom with hc' | hup'
    · exact absurd (hc'.symm.trans hc) (by simp)
    · exact absurd (hup'.symm.trans hup) (by simp)
  · have hu' : (c.place u).commits = false := by
      by_contra hne
      exact hu (h.alone (by simpa using hne) ht)
    refine (h.here u).frame hu' rfl fun hp => ?_
    have hup := h.here u
    rw [hp] at hup
    rcases hcom with hc' | hup'
    · exact fun hfit => absurd (hc'.symm.trans hfit.1) (by simp)
    · exact absurd (hup'.symm.trans hup.1) (by simp)

/-- The loop of `install_trans` goes on, or the header in memory is cleared. -/
lemma Control.installFrom (h : Control c) (ht : (c.place t).commits = true) (l : List ℕ)
    (tail : ℕ) : Control ({ c with lh := l }.installFrom t tail) := by
  rw [Log.installFrom]
  split_ifs with hlt
  · exact h.header ht l rfl rfl hlt
  · exact h.header ht [] rfl rfl rfl

/-- A thread inside ends its operation, and commits if it is the last one. -/
lemma Control.last (h : Control c) (ht : c.place t = .op) (hout : c.outstanding - 1 = 0)
    {p : Place} (hp : p.commits = true) (hpin : p.inside = false)
    (hhere : Here { c with outstanding := 0, committing := true } p) :
    Control ({ c with outstanding := 0, committing := true }.setPlace t p) := by
  obtain ⟨hup, hcom, hpos, hnone⟩ := h.of_op ht
  refine h.move (k := { c with outstanding := 0, committing := true }) rfl ?_ ?_ (fun _ => rfl)
    (fun hd => absurd (hup.symm.trans hd) (by simp)) (fun _ hc => absurd hc (by simp))
    (fun u _ => (h.here u).frame (hnone u) rfl fun _ hfit => absurd hfit.1 (by simp)) hhere
  · rw [ht, hpin]
    simp only [Place.inside, Bool.toNat_true, Bool.toNat_false]
    omega
  · rw [ht, hp, hcom, hup]
    rfl

/-- One step keeps the counter and the flag right. -/
theorem Control.effect {start size : ℕ} {a : Option (Act T)} {ev : Option (TxnEvent T ℕ Data)}
    (h : Control c) (he : Effect start size c a ev c') : Control c' := by
  cases he with
  | @call t ht hup =>
    exact h.move rfl (by rw [ht]; rfl) (by rw [ht]; rfl) h.quiet h.down h.empty
      (fun u _ => h.here u) hup
  | @enter t ht hfit =>
    have hup : c.up = true := by
      have := h.here t
      rwa [ht] at this
    refine h.move (k := { c with outstanding := c.outstanding + 1 }) rfl ?_ ?_ (fun hq => ?_)
      h.down (fun _ _ hz => absurd hz (by simp)) (fun u _ => ?_) trivial
    · rw [ht]
      rfl
    · rw [ht]
      rfl
    · rcases hq with hq | hq
      · exact absurd (hfit.1.symm.trans hq) (by simp)
      · exact absurd (hup.symm.trans hq) (by simp)
    · have hnone : (c.place u).commits = false := by
        by_contra hne
        rcases h.of_commits (by simpa using hne) with hq | hq
        · exact absurd (hfit.1.symm.trans hq) (by simp)
        · exact absurd (hup.symm.trans hq) (by simp)
      refine (h.here u).frame hnone rfl fun hu => ?_
      have := h.here u
      rw [hu] at this
      exact absurd hfit this.2
  | @wait t ht hfit =>
    have hup : c.up = true := by
      have := h.here t
      rwa [ht] at this
    exact h.move rfl (by rw [ht]; rfl) (by rw [ht]; rfl) h.quiet h.down h.empty
      (fun u _ => h.here u) ⟨hup, hfit⟩
  | @log_write t b d ht hhome hlen hsize =>
    obtain ⟨hup, hcom, hpos, hnone⟩ := h.of_op ht
    have hle : c.lh.length ≤ (absorb c.lh b).length := by
      rw [absorb]
      split_ifs <;> simp
    refine ⟨h.outstanding, h.commits, h.quiet, h.down, fun _ _ hz => absurd hz hpos.ne',
      fun u => (h.here u).frame (hnone u) rfl fun hu => ?_⟩
    have := h.here u
    rw [hu] at this
    intro hfit
    exact this.2 ⟨hfit.1, le_trans (by simpa using hle) hfit.2⟩
  | @leave t ht hcom hout =>
    obtain ⟨hup, -, hpos, hnone⟩ := h.of_op ht
    have hplace : c.wakeup.place t = .op := by
      rcases c.wakeup_place t with ⟨ha, -⟩ | he
      · rw [ht] at ha
        exact absurd ha (by simp)
      · rw [he, ht]
    refine h.wakeup.move (k := { c.wakeup with outstanding := c.outstanding - 1 }) rfl ?_ ?_
      (fun hq => ?_) h.down (fun _ _ hz => absurd hz hout) (fun u _ => ?_) trivial
    · rw [hplace]
      simp only [Place.inside, Bool.toNat_true, Bool.toNat_false]
      change c.outstanding - 1 + 1 = c.outstanding + 0
      omega
    · rw [hplace]
      rfl
    · rcases hq with hq | hq
      · exact absurd (hcom.symm.trans hq) (by simp)
      · exact absurd (hup.symm.trans hq) (by simp)
    · have hnone' := ((h.wakeup).of_op hplace).2.2.2 u
      exact (h.wakeup.here u).frame hnone' rfl fun hu => absurd hu (c.wakeup_place_ne u)
  | @commit t ht hcom hout hlh =>
    exact h.last ht hout rfl rfl ⟨(h.of_op ht).1, List.length_pos_iff.mpr hlh⟩
  | @commitNone t ht hcom hout hlh => exact h.last ht hout rfl rfl ⟨(h.of_op ht).1, hlh⟩
  | @committed t ht =>
    have hh := h.here t
    rw [ht] at hh
    obtain ⟨hup, hlh⟩ := hh
    have hcomm := h.of_commits (t := t) (by rw [ht]; rfl)
    have hplace : c.wakeup.place t = .committed := by
      rcases c.wakeup_place t with ⟨ha, -⟩ | he
      · rw [ht] at ha
        exact absurd ha (by simp)
      · rw [he, ht]
    have hcom : c.committing = true := hcomm.resolve_right (by rw [hup]; simp)
    refine h.wakeup.move (k := { c.wakeup with committing := false }) rfl ?_ ?_
      (fun _ => h.quiet hcomm) (fun _ => rfl) (fun _ _ _ => hlh) (fun u hu => ?_) trivial
    · rw [hplace]
      rfl
    · rw [hplace]
      change (false || !c.up).toNat + _ = (c.committing || !c.up).toNat + _
      rw [hup, hcom]
      rfl
    · have hnone : (c.wakeup.place u).commits = false := by
        by_contra hne
        exact hu (h.wakeup.alone (by simpa using hne) (by rw [hplace]; rfl))
      exact (h.wakeup.here u).frame hnone rfl fun hu => absurd hu (c.wakeup_place_ne u)
  | bread | brelse => exact h
  | @writeLog t tail p p' d ht hp =>
    have hh := h.here t
    rw [ht] at hh
    exact h.go (by rw [ht]; rfl) rfl rfl hh
  | @writeLogLast t tail ht =>
    have hh := h.here t
    rw [ht] at hh
    rw [writeLogFrom]
    split_ifs with hlt
    · exact h.go (by rw [ht]; rfl) rfl rfl ⟨hh.1, hlt⟩
    · have hpos := (Nat.zero_le tail).trans_lt hh.2
      exact h.go (by rw [ht]; rfl) rfl rfl ⟨hh.1, List.length_pos_iff.mp hpos⟩
  | @writeHead t p p' d ht hp =>
    have hh := h.here t
    rw [ht] at hh
    exact h.go (by rw [ht]; rfl) rfl rfl hh
  | @writeHeadLast t ht => exact h.installFrom (by rw [ht]; rfl) c.lh 0
  | @install t tail p p' d ht hp =>
    have hh := h.here t
    rw [ht] at hh
    exact h.go (by rw [ht]; rfl) rfl rfl hh
  | @installLast t tail ht => exact h.installFrom (by rw [ht]; rfl) c.lh (tail + 1)
  | @clear t p p' d ht hp =>
    have hh := h.here t
    rw [ht] at hh
    exact h.go (by rw [ht]; rfl) rfl rfl hh
  | @clearLast t ht hup =>
    have hh := h.here t
    rw [ht] at hh
    exact h.go (by rw [ht]; rfl) rfl rfl ⟨hup, hh⟩
  | @clearUp t ht hup =>
    have hh := h.here t
    rw [ht] at hh
    have hcom := h.down hup
    have hzero := h.quiet (Or.inr hup)
    refine h.move (k := { c with up := true }) rfl (by rw [ht]; rfl) ?_ (fun _ => hzero)
      (fun hd => absurd hd (by simp)) (fun _ _ _ => hh) (fun u hu => ?_) trivial
    · rw [ht, hcom, hup]
      rfl
    · have hnone : (c.place u).commits = false := by
        by_contra hne
        exact hu (h.alone (by simpa using hne) (by rw [ht]; rfl))
      have hhu := h.here u
      -- nobody is in `begin_op` before the file system is up
      cases hq : c.place u <;> rw [hq] at hhu hnone
      · trivial
      · exact absurd (hhu.symm.trans hup) (by simp)
      · exact absurd (hhu.1.symm.trans hup) (by simp)
      · trivial
      all_goals exact absurd hnone (by simp [Place.commits])
  | @readHead t d ht =>
    have hh := h.here t
    rw [ht] at hh
    exact h.go (by rw [ht]; rfl) rfl rfl hh
  | @readHeadLast t d ht => exact h.installFrom (by rw [ht]; rfl) (getHead d) 0
  | crash t => exact Control.boot t

/-! ### Runs -/

/-- The steps of the log, whenever the buffer cache lets a call return. -/
def Moves (start size : ℕ) (c : Log T) (l : Label T) (c' : Log T) : Prop :=
  ∃ a, c.next start size l = some (a, c')

/-- The counter and the flag are right in every run. -/
lemma control_of_reachable {start size : ℕ}
    (h : Reachable (fun c => ∃ t, c = Log.boot t) (Moves start size) c) : Control c := by
  refine Reachable.invariant (I := Control) (fun c hc => ?_) (fun c l c' hc hl => ?_) h
  · obtain ⟨t, rfl⟩ := hc
    exact Control.boot t
  · obtain ⟨a, hl⟩ := hl
    exact hc.effect (Effect.of_next hl)

omit [DecidableEq T] in
/-- There is a thread inside when the counter is not zero. -/
lemma Control.exists_inside (h : Control c) (hpos : 0 < c.outstanding) :
    ∃ u, (c.place u).inside = true := by
  by_contra hnone
  rw [not_exists] at hnone
  have hzero : ∑ u, (c.place u).inside.toNat = 0 := by
    refine sum_eq_zero fun u _ => ?_
    rw [(Bool.not_eq_true _).mp (hnone u), Bool.toNat_false]
  rw [h.outstanding] at hzero
  omega

omit [DecidableEq T] in
/-- There is a thread that commits when the flag is set. -/
lemma Control.exists_commits (h : Control c) (hcom : c.committing = true) :
    ∃ u, (c.place u).commits = true := by
  by_contra hnone
  rw [not_exists] at hnone
  have hzero : ∑ u, (c.place u).commits.toNat = 0 := by
    refine sum_eq_zero fun u _ => ?_
    rw [(Bool.not_eq_true _).mp (hnone u), Bool.toNat_false]
  rw [h.commits, hcom] at hzero
  exact absurd hzero (by simp)

/-- **No wakeup is lost in `begin_op`**: a thread that sleeps there would be put to sleep again, and
there is a thread that is inside or commits, which wakes it up when it is done. -/
theorem asleep_in_begin_op {start size : ℕ}
    (h : Reachable (fun c => ∃ t, c = Log.boot t) (Moves start size) c)
    (ht : c.place t = .asleep) :
    ¬c.Fits ∧ ∃ u, (c.place u).inside = true ∨ (c.place u).commits = true := by
  have hc := control_of_reachable h
  have hh := hc.here t
  rw [ht] at hh
  obtain ⟨hup, hfit⟩ := hh
  refine ⟨hfit, ?_⟩
  cases hcom : c.committing with
  | true =>
    obtain ⟨u, hu⟩ := hc.exists_commits hcom
    exact ⟨u, Or.inr hu⟩
  | false =>
    have hpos : 0 < c.outstanding := by
      by_contra hz
      have hz : c.outstanding = 0 := by omega
      have hlh := hc.empty hup hcom hz
      exact hfit ⟨hcom, by rw [hlh, hz]; decide⟩
    obtain ⟨u, hu⟩ := hc.exists_inside hpos
    exact ⟨u, Or.inl hu⟩

/-- A thread sleeps in `begin_op` while three others are inside. -/
theorem asleep_in_begin_op_four : ∃ c : Log (Fin 4), c.place 3 = .asleep ∧ ¬c.Fits ∧
    ∃ u, (c.place u).inside = true ∨ (c.place u).commits = true := by
  have h : ∃ c, run (fun c l => (c.next 2 30 l).map Prod.snd) (Log.boot (0 : Fin 4))
      (List.replicate 6 (.io 0 fun _ => 0) ++ [.call 0, .begin_op 0, .call 1, .begin_op 1, .call 2,
        .begin_op 2, .call 3, .begin_op 3]) = some c ∧ c.place 3 = .asleep := ⟨_, rfl, rfl⟩
  obtain ⟨c, hrun, ht⟩ := h
  have hreach : Reachable (fun c => ∃ t, c = Log.boot t) (Moves 2 30) c := by
    refine .run ?_ (.start ⟨0, rfl⟩) hrun
    intro c l c' hl
    obtain ⟨r, hr, rfl⟩ := Option.map_eq_some_iff.mp hl
    exact ⟨r.1, hr⟩
  exact ⟨c, ht, asleep_in_begin_op hreach ht⟩

/-! ### Room in the log -/

/-- The blocks that each thread has written in its operation, after an event. -/
def wrote (w : T → Finset ℕ) : Option (TxnEvent T ℕ Data) → T → Finset ℕ
  | some (.enter t) => Function.update w t ∅
  | some (.write t b _) => Function.update w t (insert b (w t))
  | _ => w

/-- The step is no `log_write`, or the operation has written at most `k` different blocks with
it. -/
def Small (k : ℕ) (s : Log T × (T → Finset ℕ)) : Label T → Prop
  | .log_write t b _ => (insert b (s.2 t)).card ≤ k
  | _ => True

instance (k : ℕ) (s : Log T × (T → Finset ℕ)) (l : Label T) : Decidable (Small k s l) := by
  cases l <;> first | exact Nat.decLe _ _ | exact instDecidableTrue

/-- One step of the log, with what the operations have written. -/
def nextWrote (start size : ℕ) (s : Log T × (T → Finset ℕ)) (l : Label T) :
    Option (Log T × (T → Finset ℕ)) :=
  (s.1.next start size l).map fun r => (r.2, wrote s.2 (s.1.event l))

/-- What a thread may still write. -/
def left (w : T → Finset ℕ) (t : T) (p : Place) : ℕ :=
  p.inside.toNat * (MAXOPBLOCKS - 1 - (w t).card)

/-- With operations of at most `MAXOPBLOCKS - 1` different blocks, the blocks in the log and those
that the operations inside may still write are at most 28. -/
structure Room (c : Log T) (w : T → Finset ℕ) : Prop where
  small : ∀ t, c.place t = .op → (w t).card < MAXOPBLOCKS ∧ ∀ b ∈ w t, b ∈ c.lh
  room : 0 < c.outstanding → c.lh.length + ∑ t, left w t (c.place t) ≤ LOGSIZE - 2

variable {w : T → Finset ℕ}

omit [Fintype T] [DecidableEq T] in
lemma left_of_ne {p : Place} (hp : p ≠ .op) : left w t p = 0 := by
  cases p <;> first | exact Nat.zero_mul _ | exact absurd rfl hp

omit [Fintype T] [DecidableEq T] in
lemma left_op : left w t .op = MAXOPBLOCKS - 1 - (w t).card := Nat.one_mul _

/-- A thread moves that is not in an operation before and after. -/
lemma Room.move (h : Room c w) {p : Place} (ht : c.place t ≠ .op) (hp : p ≠ .op) :
    Room (c.setPlace t p) w := by
  refine ⟨fun u hu => h.small u ?_, fun hpos => ?_⟩
  · by_cases hut : u = t
    · subst hut
      rw [setPlace_self] at hu
      exact absurd hu hp
    · rwa [setPlace_of_ne c p hut] at hu
  · have hsum := sum_setPlace (left w) c t p
    rw [left_of_ne ht, left_of_ne hp] at hsum
    have := h.room hpos
    change c.lh.length + _ ≤ _
    omega

omit [DecidableEq T] in
/-- Nobody is inside. -/
lemma Room.of_quiet (h : Control c) (hz : c.outstanding = 0) : Room c w := by
  refine ⟨fun t ht => ?_, fun hpos => absurd hz hpos.ne'⟩
  obtain ⟨-, -, hpos, -⟩ := h.of_op ht
  exact absurd hz hpos.ne'

/-- An operation begins. -/
lemma Room.enter (h : Control c) (hr : Room c w) (ht : c.place t = .begin) (hfit : c.Fits) :
    Room ({ c with outstanding := c.outstanding + 1 }.setPlace t .op)
      (Function.update w t ∅) := by
  have hup : c.up = true := by
    have := h.here t
    rwa [ht] at this
  refine ⟨fun u hu => ?_, fun _ => ?_⟩
  · by_cases hut : u = t
    · subst hut
      rw [Function.update_self]
      exact ⟨by decide, fun b hb => absurd hb (notMem_empty b)⟩
    · rw [setPlace_of_ne _ _ hut] at hu
      rw [Function.update_of_ne hut]
      exact hr.small u hu
  · have hsum := sum_setPlace (left (Function.update w t ∅)) c t .op
    have hnew : left (Function.update w t ∅) t .op = MAXOPBLOCKS - 1 := by
      rw [left_op, Function.update_self]
      rfl
    rw [ht, left_of_ne (by simp), hnew] at hsum
    -- each operation that is inside may write nine blocks
    have hle : ∑ u, left (Function.update w t ∅) u (c.place u) ≤
        (MAXOPBLOCKS - 1) * c.outstanding := by
      rw [← h.outstanding, mul_sum]
      refine sum_le_sum fun u _ => ?_
      rw [left, Nat.mul_comm]
      exact Nat.mul_le_mul_right _ (Nat.sub_le _ _)
    have hfit := hfit.2
    have hempty : c.outstanding = 0 → c.lh.length = 0 := by
      intro hz
      rw [h.empty hup ‹c.Fits›.1 hz]
      rfl
    change c.lh.length + ∑ u, left (Function.update w t ∅) u ((c.setPlace t .op).place u) ≤ _
    simp only [MAXOPBLOCKS, LOGSIZE] at *
    by_cases hz : c.outstanding = 0
    · have := hempty hz
      omega
    · omega

/-- An operation writes a block. -/
lemma Room.log_write {b : ℕ} (hr : Room c w) (hc : Control c) (ht : c.place t = .op)
    (hsmall : (insert b (w t)).card < MAXOPBLOCKS) :
    Room { c with lh := absorb c.lh b } (Function.update w t (insert b (w t))) := by
  have hmem : ∀ x ∈ c.lh, x ∈ absorb c.lh b := by
    intro x hx
    rw [absorb]
    split_ifs
    · exact hx
    · exact List.mem_append_left _ hx
  refine ⟨fun u hu => ?_, fun _ => ?_⟩
  · by_cases hut : u = t
    · subst hut
      rw [Function.update_self]
      refine ⟨hsmall, fun x hx => ?_⟩
      rcases Finset.mem_insert.mp hx with rfl | hx
      · change x ∈ absorb c.lh x
        rw [absorb]
        split_ifs with hin
        · exact hin
        · exact List.mem_append_right _ (List.mem_singleton.mpr rfl)
      · exact hmem x ((hr.small u hu).2 x hx)
    · rw [Function.update_of_ne hut]
      exact ⟨(hr.small u hu).1, fun x hx => hmem x ((hr.small u hu).2 x hx)⟩
  · have hroom := hr.room (hc.of_op ht).2.2.1
    have hsum := sum_univ_add_of_eq_off (f := fun u => left (Function.update w t (insert b (w t))) u
      (c.place u)) (g := fun u => left w u (c.place u)) t fun u hu => by
        rw [left, left, Function.update_of_ne hu]
    simp only [ht] at hsum
    rw [left_op, left_op, Function.update_self] at hsum
    change (absorb c.lh b).length +
      ∑ u, left (Function.update w t (insert b (w t))) u (c.place u) ≤ _
    rw [absorb]
    split_ifs with hin
    · have := card_le_card (subset_insert b (w t))
      omega
    · -- a block that is new in the log is new in the operation
      have hnew : b ∉ w t := fun hb => hin ((hr.small t ht).2 b hb)
      rw [card_insert_of_notMem hnew] at hsmall hsum
      rw [List.length_append, List.length_singleton]
      omega

/-- One step of operations that are small leaves room. -/
lemma Room.effect {start size : ℕ} {a : Option (Act T)} {ev : Option (TxnEvent T ℕ Data)}
    (hr : Room c w) (h : Control c) (he : Effect start size c a ev c')
    (hsmall : ∀ t b d, ev = some (.write t b d) → (insert b (w t)).card < MAXOPBLOCKS) :
    Room c' (wrote w ev) := by
  have hc' := h.effect he
  have hquiet : ∀ t, (c.place t).commits = true → c.outstanding = 0 :=
    fun t ht => h.quiet (h.of_commits ht)
  cases he with
  | call ht hup => exact hr.move (by rw [ht]; simp) (by simp)
  | enter ht hfit => exact Room.enter h hr ht hfit
  | wait ht hfit => exact hr.move (by rw [ht]; simp) (by simp)
  | log_write d ht hhome hlen hsize => exact hr.log_write h ht (hsmall _ _ d rfl)
  | @leave t ht hcom hout =>
    have hplace : ∀ u, c.wakeup.place u = .op ↔ c.place u = .op := by
      intro u
      rcases c.wakeup_place u with ⟨ha, hb⟩ | he
      · rw [ha, hb]
        simp
      · rw [he]
    refine ⟨fun u hu => hr.small u ?_, fun _ => ?_⟩
    · by_cases hut : u = t
      · rw [hut, ht]
      · rw [setPlace_of_ne _ _ hut] at hu
        exact (hplace u).mp hu
    · have hroom := hr.room (h.of_op ht).2.2.1
      have hle : ∑ u, left w u (({ c with outstanding := c.outstanding - 1 }.wakeup.setPlace t
          .out).place u) ≤ ∑ u, left w u (c.place u) := by
        refine sum_le_sum fun u _ => ?_
        by_cases hu : ({ c with outstanding := c.outstanding - 1 }.wakeup.setPlace t .out).place u =
            .op
        · have hut : u ≠ t := by
            rintro rfl
            rw [setPlace_self] at hu
            exact absurd hu (by simp)
          rw [hu]
          rw [setPlace_of_ne _ _ hut] at hu
          rw [(hplace u).mp hu]
        · rw [left_of_ne hu]
          exact Nat.zero_le _
      exact (Nat.add_le_add_left hle _).trans hroom
  | commit | commitNone => exact Room.of_quiet hc' rfl
  | bread | brelse => exact hr
  | crash t => exact Room.of_quiet hc' rfl
  | committed ht => exact Room.of_quiet hc' (hquiet _ (by rw [ht]; rfl))
  | writeLog ht hp => exact Room.of_quiet hc' (hquiet _ (by rw [ht]; rfl))
  | @writeLogLast t tail ht =>
    refine Room.of_quiet hc' ?_
    rw [writeLogFrom]
    split_ifs <;> exact hquiet t (by rw [ht]; rfl)
  | @writeHead t p p' d ht hp =>
    have hz : c.outstanding = 0 := hquiet t (by rw [ht]; rfl)
    cases p <;> exact Room.of_quiet hc' hz
  | @writeHeadLast t ht =>
    refine Room.of_quiet hc' ?_
    rw [installFrom]
    split_ifs <;> exact hquiet t (by rw [ht]; rfl)
  | install ht hp => exact Room.of_quiet hc' (hquiet _ (by rw [ht]; rfl))
  | @installLast t tail ht =>
    refine Room.of_quiet hc' ?_
    rw [installFrom]
    split_ifs <;> exact hquiet t (by rw [ht]; rfl)
  | clear ht hp => exact Room.of_quiet hc' (hquiet _ (by rw [ht]; rfl))
  | clearLast ht hup => exact Room.of_quiet hc' (hquiet _ (by rw [ht]; rfl))
  | clearUp ht hup => exact Room.of_quiet hc' (hquiet _ (by rw [ht]; rfl))
  | readHead d ht => exact Room.of_quiet hc' (hquiet _ (by rw [ht]; rfl))
  | @readHeadLast t d ht =>
    refine Room.of_quiet hc' ?_
    rw [installFrom]
    split_ifs <;> exact hquiet t (by rw [ht]; rfl)

omit [Fintype T] [DecidableEq T] in
lemma eq_log_write_of_event {l : Label T} {b : ℕ} {d : Data}
    (h : c.event l = some (.write t b d)) : l = .log_write t b d := by
  cases l with
  | log_write u x y =>
    obtain ⟨rfl, rfl, rfl⟩ := TxnEvent.write.inj (Option.some.inj h)
    rfl
  | begin_op u =>
    simp only [event] at h
    split_ifs at h
    exact absurd h (by simp)
  | io u x =>
    simp only [event] at h
    split at h <;> exact absurd h (by simp)
  | call | end_op | committed | bread | brelse | crash => exact absurd h (by simp [event])

/-- What is known after a run of operations that are small. -/
lemma room_of_reachable {start size : ℕ} {s : Log T × (T → Finset ℕ)}
    (h : Reachable (fun s => ∃ t, s.1 = Log.boot t)
      (Guarded (fun s l s' => nextWrote start size s l = some s') (Small (MAXOPBLOCKS - 1))) s) :
    Control s.1 ∧ Room s.1 s.2 := by
  refine Reachable.invariant (I := fun s => Control s.1 ∧ Room s.1 s.2) (fun s hs => ?_)
    (fun s l s' hs hl => ?_) h
  · obtain ⟨t, ht⟩ := hs
    rw [ht]
    exact ⟨Control.boot t, Room.of_quiet (Control.boot t) rfl⟩
  · obtain ⟨hl, hsmall⟩ := hl
    obtain ⟨r, hr, rfl⟩ := Option.map_eq_some_iff.mp hl
    have he : Effect _ _ _ _ _ r.2 := Effect.of_next hr
    refine ⟨hs.1.effect he, hs.2.effect hs.1 he fun t b d hev => ?_⟩
    obtain rfl := eq_log_write_of_event hev
    exact Nat.lt_of_le_of_lt hsmall (by decide)

/-- **Room for whoever is inside**: in a run of operations that each write at most nine different
blocks, `log_write` never finds the log too small. -/
theorem log_write_has_room {start size : ℕ} (hsize : LOGSIZE ≤ size) {s : Log T × (T → Finset ℕ)}
    (h : Reachable (fun s => ∃ t, s.1 = Log.boot t)
      (Guarded (fun s l s' => nextWrote start size s l = some s') (Small (MAXOPBLOCKS - 1))) s)
    {t : T} {b : ℕ} (ht : s.1.place t = .op) (hb : Home start size b) (d : Data) :
    (s.1.next start size (.log_write t b d)).isSome = true := by
  obtain ⟨hc, hr⟩ := room_of_reachable h
  have hpos := (hc.of_op ht).2.2.1
  have hroom := hr.room hpos
  have hlen : ¬(LOGSIZE ≤ s.1.lh.length ∨ size - 1 ≤ s.1.lh.length) := by
    simp only [LOGSIZE, MAXOPBLOCKS] at *
    omega
  simp only [next, ht]
  rw [if_pos hb, if_neg hlen, if_neg (by omega)]
  rfl

end

/-- The disk is recovered, three operations begin, and they write ten, ten and nine blocks. -/
def threeOps : List (Label (Fin 3)) :=
  List.replicate 6 (.io 0 fun _ => 0) ++
    [.call 0, .begin_op 0, .call 1, .begin_op 1, .call 2, .begin_op 2] ++
    (List.range 10).map (fun i => .log_write 0 (100 + i) fun _ => 0) ++
    (List.range 10).map (fun i => .log_write 1 (110 + i) fun _ => 0) ++
    (List.range 9).map (fun i => .log_write 2 (120 + i) fun _ => 0)

lemma reachable_of_run {start size k : ℕ} {labels : List (Label (Fin 3))}
    {s : Log (Fin 3) × (Fin 3 → Finset ℕ)}
    (h : run (guardedNext (nextWrote start size) (Small k)) (Log.boot 0, fun _ => ∅) labels =
      some s) :
    Reachable (fun s => ∃ t, s.1 = Log.boot t)
      (Guarded (fun s l s' => nextWrote start size s l = some s') (Small k)) s := by
  refine Reachable.run (fun s l s' hl => ?_) (.start ?_) h
  · exact guardedNext_eq_some.mp hl
  · exact ⟨0, rfl⟩

/-- Three operations are inside, and the first one has written nine blocks. -/
theorem log_write_has_room_nine : ∃ s : Log (Fin 3) × (Fin 3 → Finset ℕ), s.1.place 2 = .op ∧
    s.1.lh.length = 9 ∧ (s.1.next 2 30 (.log_write 2 120 fun _ => 0)).isSome = true := by
  have h : ∃ s, run (guardedNext (nextWrote 2 30) (Small (MAXOPBLOCKS - 1)))
      (Log.boot 0, fun _ => ∅) (threeOps.take 21) = some s ∧ s.1.place 2 = .op ∧
        s.1.lh.length = 9 := ⟨_, rfl, rfl, rfl⟩
  obtain ⟨s, hs, ht, hlen⟩ := h
  exact ⟨s, ht, hlen, log_write_has_room (by decide) (reachable_of_run hs) ht (by decide) _⟩

/-- The bound is sharp.  `begin_op` reserves `MAXOPBLOCKS` blocks for each operation, and the log on
disk has room for one block less than `LOGSIZE`: the last one of three operations that write ten
blocks each is stopped at its tenth block. -/
theorem log_write_of_three_ops : ∃ s : Log (Fin 3) × (Fin 3 → Finset ℕ),
    Reachable (fun s => ∃ t, s.1 = Log.boot t)
      (Guarded (fun s l s' => nextWrote 2 30 s l = some s') (Small MAXOPBLOCKS)) s ∧
    s.1.place 2 = .op ∧ Small MAXOPBLOCKS s (.log_write 2 129 fun _ => 0) ∧
    s.1.next 2 30 (.log_write 2 129 fun _ => 0) = none := by
  have h : ∃ s : Log (Fin 3) × (Fin 3 → Finset ℕ),
      run (guardedNext (nextWrote 2 30) (Small MAXOPBLOCKS)) (Log.boot 0, fun _ => ∅)
        threeOps = some s ∧ s.1.place 2 = .op ∧ (insert 129 (s.2 2)).card ≤ MAXOPBLOCKS ∧
        s.1.next 2 30 (.log_write 2 129 fun _ => 0) = none := ⟨_, rfl, rfl, by decide, rfl⟩
  obtain ⟨s, hs, ht, hsmall, hnext⟩ := h
  exact ⟨s, reachable_of_run hs, ht, hsmall, hnext⟩

end Log

end Xv6Projects.Fs
