import Mathlib.Data.List.GetD
import Xv6Projects.Fs.Coherence
import Xv6Projects.Fs.Recovery
import Xv6Projects.Fs.Reserve

/-!
# Crashes

The machine may stop between any two calls of the buffer cache, also while it recovers from an
earlier crash.  What recovery makes of the disk then is what the transaction that was committed
last has left: all of the writes of the operations before the commit, and none of a later one.
-/

namespace Xv6Projects.Fs

open Finset Library

variable {T : Type} [Fintype T] [DecidableEq T]

/-! ### The invariant -/

/-- The block of the log that a thread is writing. -/
def Place.writes (start : ℕ) : Place → Option ℕ
  | .writeLog tail .write => some (start + tail + 1)
  | .writeHead .write | .clear .write => some start
  | _ => none

/-- The copies that are done in this turn of the loop. -/
def Copy.passed : Copy → ℕ
  | .drop | .last => 1
  | .first | .second _ | .move _ | .write => 0

namespace Log

section
variable (start size : ℕ) (up : Bool) (lh : List ℕ) (e : Blocks T) (durable current : ℕ → Data)

/-- The transaction has been committed, and its first `k` blocks have been installed. -/
structure Installing (k : ℕ) : Prop where
  head : getHead (e.disk start) = lh
  log : ∀ i < lh.length, e.disk (start + 1 + i) = durable (lh.getD i 0)
  done : ∀ i < k, e.view (lh.getD i 0) = e.disk (lh.getD i 0) ∧
    e.disk (lh.getD i 0) = durable (lh.getD i 0)
  same : up = true → ∀ b, Home start size b → current b = durable b

/-- How far the thread that commits or recovers has come. -/
def Stage : Place → Prop
  | .writeLog tail p => getHead (e.disk start) = [] ∧
      (∀ i < tail + p.passed, e.disk (start + 1 + i) = e.view (lh.getD i 0)) ∧
      match p with
      | .move d => d = e.view (lh.getD tail 0)
      | .write => e.view (start + tail + 1) = e.view (lh.getD tail 0)
      | _ => True
  | .writeHead .brelse => Installing start size up lh e durable current 0
  | .writeHead p => getHead (e.disk start) = [] ∧
      (∀ i < lh.length, e.disk (start + 1 + i) = e.view (lh.getD i 0)) ∧
      match p with
      | .write => getHead (e.view start) = lh
      | _ => True
  | .install tail p => Installing start size up lh e durable current (tail + p.passed) ∧
      match p with
      | .second d | .move d => d = durable (lh.getD tail 0)
      | .write => e.view (lh.getD tail 0) = durable (lh.getD tail 0)
      | _ => True
  | .clear p => (∀ b, Home start size b → e.disk b = durable b) ∧
      match p with
      | .write => getHead (e.view start) = []
      | .brelse => getHead (e.disk start) = []
      | _ => True
  | .committed => getHead (e.disk start) = []
  | .readHead d => ∀ d', d = some d' → d' = e.disk start
  | _ => True

end

/-- What the log, the blocks and the transactional store have to do with each other. -/
structure Inv (start size : ℕ) (c : Log T) (e : Blocks T) (x : TxnStore T ℕ Data) :
    Prop where
  control : Control c
  inside : ∀ t, t ∈ x.inside ↔ c.place t = .op
  head : ValidHead start size c.lh
  area : ∀ b, start ≤ b → b < start + size →
    e.view b = e.disk b ∨ ∃ t, (c.place t).writes start = some b
  rest : ∀ b, Home start size b → b ∉ c.lh → e.view b = e.disk b
  durable : ∀ b, Home start size b → recovered start e.disk b = x.durable b
  current : c.up = true → ∀ b, Home start size b → e.view b = x.current b
  down : c.up = false → x.current = x.durable
  diskHead : ValidHead start size (getHead (e.disk start))
  clean : (∀ t, (c.place t).commits = false) → getHead (e.disk start) = []
  stage : ∀ t, Stage start size c.up c.lh e x.durable x.current (c.place t)

/-- What happens to the transactional store in a step of the log. -/
def Happens (x : TxnStore T ℕ Data) (ev : Option (TxnEvent T ℕ Data)) (x' : TxnStore T ℕ Data) :
    Prop :=
  match ev with
  | some ev => x.next ev = some x'
  | none => x' = x

variable {start size : ℕ} {c c' : Log T} {e e' : Blocks T} {x x' : TxnStore T ℕ Data}
  {up : Bool} {lh : List ℕ} {dur cur : ℕ → Data} {t u : T}

omit [Fintype T] [DecidableEq T] in
lemma commits_of_writes {p : Place} {b : ℕ} (h : p.writes start = some b) : p.commits = true := by
  cases p with
  | writeLog | writeHead | clear => rfl
  | _ => exact absurd h (by simp [Place.writes])

omit [Fintype T] [DecidableEq T] in
/-- Nothing is said of a thread that does not commit. -/
lemma stage_of_not_commits {p : Place} (h : p.commits = false) :
    Stage start size up lh e dur cur p := by
  cases p with
  | out | begin | asleep | op => trivial
  | _ => exact absurd h (by simp [Place.commits])

omit [DecidableEq T] in
/-- The number of a block in the log. -/
lemma Inv.home_getD (h : Inv start size c e x) {i : ℕ} (hi : i < c.lh.length) :
    c.lh.getD i 0 ∈ c.lh ∧ Home start size (c.lh.getD i 0) := by
  have hmem : c.lh.getD i 0 ∈ c.lh := by
    rw [List.getD_eq_getElem _ _ hi]
    exact List.getElem_mem hi
  exact ⟨hmem, h.head.home _ hmem⟩

omit [DecidableEq T] in
lemma Inv.getD_ne (h : Inv start size c e x) {i j : ℕ} (hi : i < c.lh.length)
    (hj : j < c.lh.length) (hij : i ≠ j) : c.lh.getD i 0 ≠ c.lh.getD j 0 := by
  rw [List.getD_eq_getElem _ _ hi, List.getD_eq_getElem _ _ hj]
  intro he
  exact hij ((List.Nodup.getElem_inj_iff h.head.nodup).mp he)

/-- Only the thread that commits writes to the log. -/
lemma Inv.area_of_commits (h : Inv start size c e x) (ht : (c.place t).commits = true) {b : ℕ}
    (hb : start ≤ b) (hb' : b < start + size) :
    e.view b = e.disk b ∨ (c.place t).writes start = some b := by
  refine (h.area b hb hb').imp_right ?_
  rintro ⟨u, hu⟩
  rwa [h.control.alone ht (commits_of_writes hu)]

/-! ### The thread that commits or recovers -/

/-- The thread goes on. -/
lemma Inv.io (h : Inv start size c e x) (ht : (c.place t).commits = true) {l : List ℕ} {p : Place}
    (hp : p.commits = true) (hc : Control ({ c with lh := l }.setPlace t p))
    (hx : x'.inside = x.inside) (hhead : ValidHead start size l)
    (harea : ∀ b, start ≤ b → b < start + size →
      e'.view b = e'.disk b ∨ p.writes start = some b)
    (hrest : ∀ b, Home start size b → b ∉ l → e'.view b = e'.disk b)
    (hdur : ∀ b, Home start size b → recovered start e'.disk b = x'.durable b)
    (hcur : c.up = true → ∀ b, Home start size b → e'.view b = x'.current b)
    (hdown : c.up = false → x'.current = x'.durable)
    (hdisk : ValidHead start size (getHead (e'.disk start)))
    (hstage : Stage start size c.up l e' x'.durable x'.current p) :
    Inv start size ({ c with lh := l }.setPlace t p) e' x' := by
  have hother : ∀ u, u ≠ t → (c.place u).commits = false := by
    intro u hu
    by_contra hne
    exact hu (h.control.alone (by simpa using hne) ht)
  refine ⟨hc, fun u => ?_, hhead, fun b hb hb' => ?_, hrest, hdur, hcur, hdown, hdisk,
    fun hnone => ?_, fun u => ?_⟩
  · rw [hx, h.inside u]
    by_cases hu : u = t
    · rw [hu, setPlace_self]
      refine iff_of_false ?_ ?_
      · intro hop
        rw [hop] at ht
        exact absurd ht (by simp [Place.commits])
      · rintro rfl
        exact absurd hp (by simp [Place.commits])
    · rw [setPlace_of_ne _ _ hu]
  · refine (harea b hb hb').imp_right fun hw => ⟨t, ?_⟩
    rwa [setPlace_self]
  · have := hnone t
    rw [setPlace_self, hp] at this
    exact absurd this (by simp)
  · by_cases hu : u = t
    · rw [hu, setPlace_self]
      exact hstage
    · rw [setPlace_of_ne _ _ hu]
      exact stage_of_not_commits (hother u hu)

/-- The thread goes on, and the blocks are as before. -/
lemma Inv.read (h : Inv start size c e x) (ht : (c.place t).commits = true)
    (hw : (c.place t).writes start = none) {l : List ℕ} {p : Place} (hp : p.commits = true)
    (hc : Control ({ c with lh := l }.setPlace t p)) (hhead : ValidHead start size l)
    (hrest : ∀ b, Home start size b → b ∉ l → e.view b = e.disk b)
    (hview : e'.view = e.view) (hdisk : e'.disk = e.disk)
    (hstage : Stage start size c.up l e' x.durable x.current p) :
    Inv start size ({ c with lh := l }.setPlace t p) e' x := by
  refine h.io ht hp hc rfl hhead (fun b hb hb' => Or.inl ?_) ?_ ?_ ?_ h.down ?_ hstage
  · rw [hview, hdisk]
    refine (h.area_of_commits ht hb hb').resolve_right ?_
    rw [hw]
    simp
  · rw [hview, hdisk]
    exact hrest
  · rw [hdisk]
    exact h.durable
  · rw [hview]
    exact h.current
  · rw [hdisk]
    exact h.diskHead

/-- The thread changes the data of a buffer, and asks for the block to be written. -/
lemma Inv.bwrite (h : Inv start size c e x) (ht : (c.place t).commits = true)
    (hw : (c.place t).writes start = none) {p : Place} (hp : p.commits = true)
    (hc : Control (c.setPlace t p)) {b : ℕ} {d : Data}
    (hb : p.writes start = some b ∧ b < start + size ∨
      b ∈ c.lh ∧ (c.up = true → x.current b = d))
    (hstage : Stage start size c.up c.lh { e with view := Function.update e.view b d }
      x.durable x.current p) :
    Inv start size (c.setPlace t p) { e with view := Function.update e.view b d } x := by
  refine h.io (l := c.lh) ht hp hc rfl h.head (fun a ha ha' => ?_) (fun a ha hal => ?_) h.durable
    (fun hup a ha => ?_) h.down h.diskHead hstage
  · by_cases hab : a = b
    · subst hab
      rcases hb with ⟨hpw, -⟩ | ⟨hin, -⟩
      · exact Or.inr hpw
      · exact absurd ha' (not_lt.mpr (h.head.home a hin).1)
    · refine Or.inl ((Function.update_of_ne hab ..).trans ?_)
      refine (h.area_of_commits ht ha ha').resolve_right ?_
      rw [hw]
      simp
  · have hab : a ≠ b := by
      rintro rfl
      rcases hb with ⟨-, hlt⟩ | ⟨hin, -⟩
      · exact absurd hlt (not_lt.mpr ha.1)
      · exact hal hin
    exact (Function.update_of_ne hab ..).trans (h.rest a ha hal)
  · by_cases hab : a = b
    · subst hab
      rcases hb with ⟨-, hlt⟩ | ⟨-, hd⟩
      · exact absurd hlt (not_lt.mpr ha.1)
      · exact (Function.update_self ..).trans (hd hup).symm
    · exact (Function.update_of_ne hab ..).trans (h.current hup a ha)

/-- The loop of `install_trans` goes on, or the header in memory is cleared. -/
lemma Inv.installFrom (tail : ℕ) (h : Inv start size c e x) (ht : (c.place t).commits = true)
    (hw : (c.place t).writes start = none) {l : List ℕ} (hhead : ValidHead start size l)
    (hrest : ∀ b, Home start size b → b ∉ l → e.view b = e.disk b)
    (hin : Installing start size c.up l e x.durable x.current tail) :
    Inv start size ({ c with lh := l }.installFrom t tail) e x := by
  have hc := h.control.installFrom ht l tail
  rw [Log.installFrom] at hc ⊢
  split_ifs at hc ⊢ with hlt
  · exact h.read ht hw rfl hc hhead hrest rfl rfl ⟨hin, trivial⟩
  · -- each block of the log is where it belongs
    have hdone : ∀ b ∈ l, e.view b = e.disk b ∧ e.disk b = x.durable b := by
      intro b hb
      obtain ⟨i, hi, rfl⟩ := List.getElem_of_mem hb
      have := hin.done i (hi.trans_le (not_lt.mp hlt))
      rwa [List.getD_eq_getElem _ _ hi] at this
    refine h.read ht hw rfl hc .nil (fun b hb _ => ?_) rfl rfl ⟨fun b hb => ?_, trivial⟩
    · by_cases hbl : b ∈ l
      · exact (hdone b hbl).1
      · exact hrest b hb hbl
    · by_cases hbl : b ∈ l
      · exact (hdone b hbl).2
      · rw [← h.durable b hb, recovered_of_notMem]
        rwa [hin.head]

/-- `write_log` copies a block from the cache to the log. -/
lemma Inv.writeLog (h : Inv start size c e x) {tail : ℕ} {p p' : Copy} {d : Data}
    (ht : c.place t = .writeLog tail p) (hp : p.next false d = some p')
    (hstep : Blocks.Step e (p.act t (start + tail + 1) (c.lh.getD tail 0) (c.lh.getD tail 0)
      (start + tail + 1) d) e') : Inv start size (c.setPlace t (.writeLog tail p')) e' x := by
  have hcom : (c.place t).commits = true := by rw [ht]; rfl
  have hhere := h.control.here t
  have hstage := h.stage t
  rw [ht] at hhere hstage
  obtain ⟨hup, hlt⟩ := hhere
  obtain ⟨hempty, hlog, hd⟩ := hstage
  have hroom := h.head.room
  have hc : Control (c.setPlace t (.writeLog tail p')) := h.control.go hcom rfl rfl ⟨hup, hlt⟩
  have hhome := fun {i : ℕ} (hi : i < c.lh.length) => (h.home_getD hi).2
  cases p with
  | first =>
    obtain rfl := Option.some.inj hp
    cases hstep
    exact h.read hcom (by rw [ht]; rfl) rfl hc h.head h.rest rfl rfl ⟨hempty, hlog, trivial⟩
  | second d' =>
    obtain rfl := Option.some.inj hp
    cases hstep
    exact h.read hcom (by rw [ht]; rfl) rfl hc h.head h.rest rfl rfl ⟨hempty, hlog, rfl⟩
  | move d' =>
    obtain rfl := Option.some.inj hp
    cases hstep
    refine h.bwrite hcom (by rw [ht]; rfl) rfl hc (Or.inl ⟨rfl, by omega⟩)
      ⟨hempty, fun i hi => ?_, ?_⟩
    · have hi' : i < tail := hi
      have hge := (hhome (hi'.trans hlt)).1
      simp only [Function.update_of_ne (show c.lh.getD i 0 ≠ start + tail + 1 by omega)]
      exact hlog i hi
    · have hge := (hhome hlt).1
      simp only [Function.update_self,
        Function.update_of_ne (show c.lh.getD tail 0 ≠ start + tail + 1 by omega)]
      exact hd
  | write =>
    obtain rfl := Option.some.inj hp
    cases hstep
    have hne : ∀ {b}, Home start size b → b ≠ start + tail + 1 := by
      rintro b hb rfl
      have := hb.1
      omega
    have hhead : getHead (Function.update e.disk (start + tail + 1) (e.view (start + tail + 1))
        start) = [] := by rwa [Function.update_of_ne (by omega)]
    refine h.io (l := c.lh) hcom rfl hc rfl h.head (fun b hb hb' => Or.inl ?_) (fun b hb hbl => ?_)
      (fun b hb => ?_) h.current h.down (hhead ▸ .nil) ⟨hhead, fun i hi => ?_, trivial⟩
    · by_cases hbe : b = start + tail + 1
      · subst hbe
        exact (Function.update_self _ _ e.disk).symm
      · refine ((h.area_of_commits hcom hb hb').resolve_right ?_).trans
          (Function.update_of_ne hbe ..).symm
        rw [ht]
        exact fun hw => hbe (Option.some.inj hw).symm
    · exact (h.rest b hb hbl).trans (Function.update_of_ne (hne hb) ..).symm
    · rw [recovered_of_nil hhead, ← h.durable b hb, recovered_of_nil hempty]
      exact Function.update_of_ne (hne hb) ..
    · rcases Nat.lt_succ_iff_lt_or_eq.mp hi with hi | rfl
      · exact (Function.update_of_ne (by omega) ..).trans (hlog i hi)
      · have hcom' : start + 1 + i = start + i + 1 := by omega
        rw [hcom']
        exact (Function.update_self ..).trans hd
  | drop =>
    obtain rfl := Option.some.inj hp
    cases hstep
    exact h.read hcom (by rw [ht]; rfl) rfl hc h.head h.rest rfl rfl ⟨hempty, hlog, trivial⟩
  | last => exact absurd hp (by simp [Copy.next])

/-- The end of a turn of the loop of `write_log`. -/
lemma Inv.writeLogLast (h : Inv start size c e x) {tail : ℕ}
    (ht : c.place t = .writeLog tail .last)
    (hstep : Blocks.Step e (.brelse t (start + tail + 1)) e') :
    Inv start size (c.writeLogFrom t (tail + 1)) e' x := by
  have hcom : (c.place t).commits = true := by rw [ht]; rfl
  have hc : Control (c.writeLogFrom t (tail + 1)) :=
    h.control.effect (Effect.writeLogLast ht : Effect start size c _ _ _)
  have hstage := h.stage t
  rw [ht] at hstage
  obtain ⟨hempty, hlog, -⟩ := hstage
  cases hstep
  rw [writeLogFrom] at hc ⊢
  split_ifs at hc ⊢ with hlt
  · exact h.read hcom (by rw [ht]; rfl) rfl hc h.head h.rest rfl rfl ⟨hempty, hlog, trivial⟩
  · exact h.read hcom (by rw [ht]; rfl) rfl hc h.head h.rest rfl rfl
      ⟨hempty, fun i hi => hlog i (hi.trans_le (not_lt.mp hlt)), trivial⟩

/-- `write_head` writes the header of the transaction: the transaction is committed when the
header is on the disk. -/
lemma Inv.writeHead (h : Inv start size c e x) (hsize : 0 < size) {p p' : Head} {d : Data}
    (ht : c.place t = .writeHead p) (hp : p.next d = some p')
    (hstep : Blocks.Step e (p.act t start c.lh d) e') :
    ∃ x', Happens x (match p with | .write => some .commit | _ => none) x' ∧
      Inv start size (c.setPlace t (.writeHead p')) e' x' := by
  have hcom : (c.place t).commits = true := by rw [ht]; rfl
  have hhere := h.control.here t
  have hstage := h.stage t
  rw [ht] at hhere hstage
  obtain ⟨hup, hlh⟩ := hhere
  have hroom := h.head.room
  have hc : Control (c.setPlace t (.writeHead p')) := h.control.go hcom rfl rfl ⟨hup, hlh⟩
  have hhome := fun {i : ℕ} (hi : i < c.lh.length) => (h.home_getD hi).2
  cases p with
  | bread =>
    obtain rfl := Option.some.inj hp
    obtain ⟨hempty, hlog, -⟩ := hstage
    cases hstep
    exact ⟨x, rfl, h.read hcom (by rw [ht]; rfl) rfl hc h.head h.rest rfl rfl
      ⟨hempty, hlog, trivial⟩⟩
  | move d' =>
    obtain rfl := Option.some.inj hp
    obtain ⟨hempty, hlog, -⟩ := hstage
    cases hstep
    refine ⟨x, rfl, h.bwrite hcom (by rw [ht]; rfl) rfl hc (Or.inl ⟨rfl, by omega⟩)
      ⟨hempty, fun i hi => ?_, ?_⟩⟩
    · have hge := (hhome hi).1
      simp only [Function.update_of_ne (show c.lh.getD i 0 ≠ start by omega)]
      exact hlog i hi
    · simp only [Function.update_self]
      exact h.head.getHead_putHead d'
  | write =>
    obtain rfl := Option.some.inj hp
    obtain ⟨hempty, hlog, hd⟩ := hstage
    cases hstep
    -- nobody is in the middle of an operation
    have hinside : x.inside = ∅ := by
      refine eq_empty_of_forall_notMem fun u hu => ?_
      have := (h.control.of_op ((h.inside u).mp hu)).2.2.2 t
      rw [hcom] at this
      exact absurd this (by simp)
    have hne : ∀ {b}, Home start size b → b ≠ start := by
      rintro b hb rfl
      have := hb.1
      omega
    have hhead : getHead (Function.update e.disk start (e.view start) start) = c.lh := by
      rwa [Function.update_self]
    have hlog' : ∀ i < c.lh.length, Function.update e.disk start (e.view start) (start + 1 + i) =
        x.current (c.lh.getD i 0) := by
      intro i hi
      rw [Function.update_of_ne (by omega), hlog i hi]
      exact h.current hup _ (hhome hi)
    refine ⟨{ x with durable := x.current }, if_pos hinside, h.io (l := c.lh) hcom rfl hc rfl h.head
      (fun b hb hb' => Or.inl ?_) (fun b hb hbl => ?_) (fun b hb => ?_) h.current (fun _ => rfl)
      (hhead ▸ h.head) ⟨hhead, hlog', fun i hi => absurd hi (Nat.not_lt_zero i),
        fun _ _ _ => rfl⟩⟩
    · by_cases hbe : b = start
      · subst hbe
        exact (Function.update_self _ _ e.disk).symm
      · refine ((h.area_of_commits hcom hb hb').resolve_right ?_).trans
          (Function.update_of_ne hbe ..).symm
        rw [ht]
        exact fun hw => hbe (Option.some.inj hw).symm
    · exact (h.rest b hb hbl).trans (Function.update_of_ne (hne hb) ..).symm
    · by_cases hbl : b ∈ c.lh
      · obtain ⟨i, hi, rfl⟩ := List.getElem_of_mem hbl
        generalize hdisk : Function.update e.disk start (e.view start) = disk at *
        have hi' : i < (getHead (disk start)).length := by rw [hhead]; exact hi
        have hrec := recovered_getElem (by rw [hhead]; exact h.head.nodup) hi'
        simp only [hhead] at hrec
        have := hlog' i hi
        rw [List.getD_eq_getElem _ _ hi] at this
        exact hrec.trans this
      · rw [recovered_of_notMem (by rwa [hhead])]
        refine (Function.update_of_ne (hne hb) ..).trans ?_
        rw [← h.rest b hb hbl]
        exact h.current hup b hb
  | brelse => exact absurd hp (by simp [Head.next])

/-- `install_trans` copies a block from the log to where it belongs. -/
lemma Inv.install (h : Inv start size c e x) (hsize : 0 < size) {tail : ℕ} {p p' : Copy} {d : Data}
    (ht : c.place t = .install tail p) (hp : p.next true d = some p')
    (hstep : Blocks.Step e (p.act t (start + tail + 1) (c.lh.getD tail 0) (start + tail + 1)
      (c.lh.getD tail 0) d) e') : Inv start size (c.setPlace t (.install tail p')) e' x := by
  have hcom : (c.place t).commits = true := by rw [ht]; rfl
  have hlt := h.control.here t
  have hstage := h.stage t
  rw [ht] at hlt hstage
  have hlt : tail < c.lh.length := hlt
  obtain ⟨hin, hd⟩ := hstage
  have hroom := h.head.room
  have hc : Control (c.setPlace t (.install tail p')) := h.control.go hcom rfl rfl hlt
  obtain ⟨hmem, hhome⟩ := h.home_getD hlt
  have hge := hhome.1
  cases p with
  | first =>
    obtain rfl := Option.some.inj hp
    cases hstep
    refine h.read hcom (by rw [ht]; rfl) rfl hc h.head h.rest rfl rfl
      ⟨⟨hin.head, hin.log, hin.done, hin.same⟩, ?_⟩
    -- the block in the log is as it is on the disk
    have harea := (h.area_of_commits hcom (b := start + tail + 1) (by omega)
      (by omega)).resolve_right (by rw [ht]; simp [Place.writes])
    have hcomm : start + tail + 1 = start + 1 + tail := by omega
    change e.view _ = _
    rw [harea, hcomm]
    exact hin.log tail hlt
  | second d' =>
    obtain rfl := Option.some.inj hp
    cases hstep
    exact h.read hcom (by rw [ht]; rfl) rfl hc h.head h.rest rfl rfl
      ⟨⟨hin.head, hin.log, hin.done, hin.same⟩, hd⟩
  | move d' =>
    obtain rfl := Option.some.inj hp
    cases hstep
    refine h.bwrite hcom (by rw [ht]; rfl) rfl hc
      (Or.inr ⟨hmem, fun hup => (hin.same hup _ hhome).trans hd.symm⟩)
      ⟨⟨hin.head, hin.log, fun i hi => ?_, hin.same⟩, ?_⟩
    · have hi' : i < tail := hi
      have hne := h.getD_ne (hi'.trans hlt) hlt hi'.ne
      simp only [Function.update_of_ne hne]
      exact hin.done i hi
    · simp only [Function.update_self]
      exact hd
  | write =>
    obtain rfl := Option.some.inj hp
    cases hstep
    have hne : ∀ {b}, b < start + size → b ≠ c.lh.getD tail 0 := fun hb => by omega
    have hrec : recovered start (Function.update e.disk (c.lh.getD tail 0)
        (e.view (c.lh.getD tail 0))) = recovered start e.disk :=
      recovered_update h.diskHead hsize (hin.head ▸ hmem) _
    have hhead : getHead (Function.update e.disk (c.lh.getD tail 0) (e.view (c.lh.getD tail 0))
        start) = c.lh := by
      rw [Function.update_of_ne (hne (by omega))]
      exact hin.head
    have hdisk : ValidHead start size (getHead (Function.update e.disk (c.lh.getD tail 0)
        (e.view (c.lh.getD tail 0)) start)) := by
      rw [hhead]
      exact h.head
    refine h.io (l := c.lh) hcom rfl hc rfl h.head (fun b hb hb' => Or.inl ?_) (fun b hb hbl => ?_)
      (fun b hb => ?_) h.current h.down hdisk
      ⟨⟨hhead, fun i hi => ?_, fun i hi => ?_, hin.same⟩, trivial⟩
    · refine ((h.area_of_commits hcom hb hb').resolve_right ?_).trans
        (Function.update_of_ne (hne hb') ..).symm
      rw [ht]
      simp [Place.writes]
    · have hbt : b ≠ c.lh.getD tail 0 := by
        rintro rfl
        exact hbl hmem
      exact (h.rest b hb hbl).trans (Function.update_of_ne hbt ..).symm
    · simp only [hrec]
      exact h.durable b hb
    · exact (Function.update_of_ne (hne (by omega)) ..).trans (hin.log i hi)
    · rcases Nat.lt_succ_iff_lt_or_eq.mp hi with hi | rfl
      · have hit := h.getD_ne (hi.trans hlt) hlt hi.ne
        simp only [Function.update_of_ne hit]
        exact hin.done i hi
      · simp only [Function.update_self]
        exact ⟨trivial, hd⟩
  | drop =>
    obtain rfl := Option.some.inj hp
    cases hstep
    exact h.read hcom (by rw [ht]; rfl) rfl hc h.head h.rest rfl rfl
      ⟨⟨hin.head, hin.log, hin.done, hin.same⟩, trivial⟩
  | last => exact absurd hp (by simp [Copy.next])

/-- The header that is written last is empty: the log is cleared. -/
lemma Inv.clear (h : Inv start size c e x) (hsize : 0 < size) {p p' : Head} {d : Data}
    (ht : c.place t = .clear p) (hp : p.next d = some p')
    (hstep : Blocks.Step e (p.act t start c.lh d) e') :
    Inv start size (c.setPlace t (.clear p')) e' x := by
  have hcom : (c.place t).commits = true := by rw [ht]; rfl
  have hlh := h.control.here t
  have hstage := h.stage t
  rw [ht] at hlh hstage
  have hlh : c.lh = [] := hlh
  obtain ⟨hdone, hd⟩ := hstage
  have hc : Control (c.setPlace t (.clear p')) := h.control.go hcom rfl rfl hlh
  cases p with
  | bread =>
    obtain rfl := Option.some.inj hp
    cases hstep
    exact h.read hcom (by rw [ht]; rfl) rfl hc h.head h.rest rfl rfl ⟨hdone, trivial⟩
  | move d' =>
    obtain rfl := Option.some.inj hp
    cases hstep
    refine h.bwrite hcom (by rw [ht]; rfl) rfl hc (Or.inl ⟨rfl, by omega⟩) ⟨hdone, ?_⟩
    simp only [Function.update_self]
    exact (h.head.getHead_putHead d').trans hlh
  | write =>
    obtain rfl := Option.some.inj hp
    cases hstep
    have hne : ∀ {b}, Home start size b → b ≠ start := by
      rintro b hb rfl
      have := hb.1
      omega
    have hhead : getHead (Function.update e.disk start (e.view start) start) = [] := by
      rwa [Function.update_self]
    refine h.io (l := c.lh) hcom rfl hc rfl h.head (fun b hb hb' => Or.inl ?_) (fun b hb hbl => ?_)
      (fun b hb => ?_) h.current h.down (hhead ▸ .nil) ⟨fun b hb => ?_, hhead⟩
    · by_cases hbe : b = start
      · subst hbe
        exact (Function.update_self _ _ e.disk).symm
      · refine ((h.area_of_commits hcom hb hb').resolve_right ?_).trans
          (Function.update_of_ne hbe ..).symm
        rw [ht]
        exact fun hw => hbe (Option.some.inj hw).symm
    · exact (h.rest b hb hbl).trans (Function.update_of_ne (hne hb) ..).symm
    · rw [recovered_of_nil hhead]
      exact (Function.update_of_ne (hne hb) ..).trans (hdone b hb)
    · exact (Function.update_of_ne (hne hb) ..).trans (hdone b hb)
  | brelse => exact absurd hp (by simp [Head.next])

/-! ### The other steps -/

omit [DecidableEq T] in
/-- A thread moves that does not commit before and after. -/
lemma Inv.move (h : Inv start size c e x) {c₁ : Log T} (hc : Control c₁) (hlh : c₁.lh = c.lh)
    (hup : c₁.up = c.up) (hcom : ∀ u, (c₁.place u).commits = (c.place u).commits)
    (hstage : ∀ u, (c.place u).commits = true → c₁.place u = c.place u)
    (hx : x'.durable = x.durable) (hx' : x'.current = x.current)
    (hin : ∀ u, u ∈ x'.inside ↔ c₁.place u = .op) : Inv start size c₁ e x' := by
  refine ⟨hc, hin, hlh ▸ h.head, fun b hb hb' => ?_, hlh ▸ h.rest, hx ▸ h.durable,
    hup ▸ hx' ▸ h.current, fun hd => ?_, h.diskHead, fun hn => ?_, fun u => ?_⟩
  · refine (h.area b hb hb').imp_right ?_
    rintro ⟨u, hu⟩
    exact ⟨u, by rwa [hstage u (commits_of_writes hu)]⟩
  · rw [hx, hx']
    exact h.down (hup ▸ hd)
  · exact h.clean fun u => (hcom u).symm.trans (hn u)
  · by_cases hu : (c.place u).commits = true
    · rw [hstage u hu, hlh, hup, hx, hx']
      exact h.stage u
    · exact stage_of_not_commits ((hcom u).trans (by simpa using hu))

/-- The thread that committed or recovered is done. -/
lemma Inv.stop (h : Inv start size c e x) {c₁ : Log T} (hc : Control c₁) (hlh : c₁.lh = c.lh)
    (hnone : ∀ u, (c₁.place u).commits = false) (ht : (c.place t).commits = true)
    (hw : (c.place t).writes start = none) (hview : e'.view = e.view) (hdisk : e'.disk = e.disk)
    (hhead : getHead (e.disk start) = [])
    (hcur : ∀ b, Home start size b → e.view b = x.current b) (hup : c₁.up = true)
    (hin : ∀ u, u ∈ x.inside ↔ c₁.place u = .op) : Inv start size c₁ e' x := by
  refine ⟨hc, hin, hlh ▸ h.head, fun b hb hb' => Or.inl ?_, ?_, ?_, fun _ => ?_, fun hd => ?_, ?_,
    fun _ => ?_, fun u => stage_of_not_commits (hnone u)⟩
  · rw [hview, hdisk]
    refine (h.area_of_commits ht hb hb').resolve_right ?_
    rw [hw]
    simp
  · rw [hlh, hview, hdisk]
    exact h.rest
  · rw [hdisk]
    exact h.durable
  · rw [hview]
    exact hcur
  · exact absurd (hup.symm.trans hd) (by simp)
  · rw [hdisk]
    exact h.diskHead
  · rw [hdisk]
    exact hhead

/-- The operation that ends last begins to commit. -/
lemma Inv.last (h : Inv start size c e x) (ht : c.place t = .op) {p : Place}
    (hc : Control ({ c with outstanding := 0, committing := true }.setPlace t p))
    (hp : p.commits = true) (hstage : getHead (e.disk start) = [] →
      Stage start size c.up c.lh e x.durable x.current p) :
    ∃ x', x.next (.leave t) = some x' ∧
      Inv start size ({ c with outstanding := 0, committing := true }.setPlace t p) e x' := by
  have hnone := (h.control.of_op ht).2.2.2
  refine ⟨{ x with inside := x.inside.erase t }, if_pos ((h.inside t).mpr ht), hc, fun u => ?_,
    h.head, fun b hb hb' => Or.inl ?_, h.rest, h.durable, h.current, h.down, h.diskHead,
    fun hn => ?_, fun u => ?_⟩
  · rw [mem_erase, h.inside]
    by_cases hu : u = t
    · subst hu
      rw [setPlace_self]
      refine iff_of_false (fun hne => hne.1 rfl) ?_
      rintro rfl
      exact absurd hp (by simp [Place.commits])
    · rw [setPlace_of_ne _ _ hu]
      exact and_iff_right hu
  · refine (h.area b hb hb').resolve_right ?_
    rintro ⟨u, hu⟩
    exact absurd ((commits_of_writes hu).symm.trans (hnone u)) (by simp)
  · have := hn t
    rw [setPlace_self, hp] at this
    exact absurd this (by simp)
  · by_cases hu : u = t
    · subst hu
      rw [setPlace_self]
      exact hstage (h.clean hnone)
    · rw [setPlace_of_ne _ _ hu]
      exact stage_of_not_commits (hnone u)

/-- An operation changes a block in the cache. -/
lemma Inv.log_write (h : Inv start size c e x) {b : ℕ} (d : Data) (ht : c.place t = .op)
    (hc : Control { c with lh := absorb c.lh b }) (hb : Home start size b)
    (hlen : c.lh.length < LOGSIZE) (hroom : c.lh.length < size - 1) :
    ∃ x', x.next (.write t b d) = some x' ∧ Inv start size { c with lh := absorb c.lh b }
      { e with view := Function.update e.view b d } x' := by
  have hnone := (h.control.of_op ht).2.2.2
  refine ⟨{ x with current := Function.update x.current b d }, if_pos ((h.inside t).mpr ht), hc,
    h.inside, h.head.absorb hb hlen hroom, fun a ha ha' => ?_, fun a ha hal => ?_, h.durable,
    fun hup a ha => ?_, fun hd => ?_, h.diskHead, h.clean, fun u => stage_of_not_commits (hnone u)⟩
  · have hab : a ≠ b := by
      rintro rfl
      exact absurd ha' (not_lt.mpr hb.1)
    simp only [Function.update_of_ne hab]
    exact h.area a ha ha'
  · have hmem : a ≠ b ∧ a ∉ c.lh := by
      change a ∉ absorb c.lh b at hal
      rw [absorb] at hal
      split_ifs at hal with hin
      · refine ⟨?_, hal⟩
        rintro rfl
        exact hal hin
      · rw [List.mem_append, not_or, List.mem_singleton] at hal
        exact ⟨hal.2, hal.1⟩
    exact (Function.update_of_ne hmem.1 ..).trans (h.rest a ha hmem.2)
  · by_cases hab : a = b
    · subst hab
      simp only [Function.update_self]
    · simp only [Function.update_of_ne hab]
      exact h.current hup a ha
  · exact absurd ((h.control.of_op ht).1.symm.trans hd) (by simp)

omit [DecidableEq T] in
/-- A thread that is not in the middle of anything gets or gives back a block. -/
lemma Inv.same (h : Inv start size c e x) (hview : e'.view = e.view) (hdisk : e'.disk = e.disk) :
    Inv start size c e' x := by
  obtain ⟨disk, view, owner⟩ := e
  obtain ⟨disk', view', owner'⟩ := e'
  obtain rfl : view' = view := hview
  obtain rfl : disk' = disk := hdisk
  refine ⟨h.control, h.inside, h.head, h.area, h.rest, h.durable, h.current, h.down, h.diskHead,
    h.clean, fun u => ?_⟩
  have hs := h.stage u
  generalize c.place u = p at hs
  cases p with
  | writeHead p =>
    cases p with
    | brelse => exact ⟨hs.head, hs.log, hs.done, hs.same⟩
    | _ => exact hs
  | install tail p => exact ⟨⟨hs.1.head, hs.1.log, hs.1.done, hs.1.same⟩, hs.2⟩
  | _ => exact hs

/-- The machine stops, and boots. -/
lemma Inv.crash (h : Inv start size c e x) (t : T) :
    Inv start size (boot t) { e with view := e.disk, owner := fun _ => none }
      { x with current := x.durable, inside := ∅ } := by
  refine ⟨Control.boot t, fun u => ?_, .nil, fun b _ _ => Or.inl rfl, fun b _ _ => rfl, h.durable,
    fun hup => absurd hup (by simp [boot, setPlace]), fun _ => rfl, h.diskHead, fun hn => ?_,
    fun u => ?_⟩
  · refine iff_of_false (notMem_empty u) ?_
    by_cases hu : u = t
    · rw [hu, boot, setPlace_self]
      simp
    · rw [boot, setPlace_of_ne _ _ hu]
      simp
  · have := hn t
    rw [boot, setPlace_self] at this
    exact absurd this (by simp [Place.commits])
  · by_cases hu : u = t
    · rw [hu, boot, setPlace_self]
      simp [Stage]
    · rw [boot, setPlace_of_ne _ _ hu]
      trivial

/-- One step of the log is one of the transactional store, or none. -/
theorem Inv.effect (h : Inv start size c e x) (hsize : 0 < size) {a : Option (Act T)}
    {ev : Option (TxnEvent T ℕ Data)} (he : Effect start size c a ev c')
    (hstep : match a with
      | none => e' = e
      | some a => Blocks.Step e a e') :
    ∃ x', Happens x ev x' ∧ Inv start size c' e' x' := by
  have hc := h.control.effect he
  cases he with
  | @call t ht hup =>
    obtain rfl := hstep
    refine ⟨x, rfl, h.move hc rfl rfl (fun u => ?_) (fun u hu => ?_) rfl rfl fun u => ?_⟩
    · by_cases hut : u = t
      · rw [hut, setPlace_self, ht]
        rfl
      · rw [setPlace_of_ne _ _ hut]
    · refine setPlace_of_ne _ _ ?_
      rintro rfl
      rw [ht] at hu
      exact absurd hu (by simp [Place.commits])
    · rw [h.inside]
      by_cases hut : u = t
      · rw [hut, setPlace_self, ht]
        simp
      · rw [setPlace_of_ne _ _ hut]
  | @enter t ht hfit =>
    obtain rfl := hstep
    have hnot : t ∉ x.inside := by
      rw [h.inside, ht]
      simp
    refine ⟨{ x with inside := insert t x.inside }, if_neg hnot, h.move hc rfl rfl (fun u => ?_)
      (fun u hu => ?_) rfl rfl fun u => ?_⟩
    · by_cases hut : u = t
      · rw [hut, setPlace_self, ht]
        rfl
      · rw [setPlace_of_ne _ _ hut]
    · refine setPlace_of_ne _ _ ?_
      rintro rfl
      rw [ht] at hu
      exact absurd hu (by simp [Place.commits])
    · rw [mem_insert, h.inside]
      by_cases hut : u = t
      · rw [hut, setPlace_self]
        simp
      · rw [setPlace_of_ne _ _ hut, or_iff_right hut]
  | @wait t ht hfit =>
    obtain rfl := hstep
    refine ⟨x, rfl, h.move hc rfl rfl (fun u => ?_) (fun u hu => ?_) rfl rfl fun u => ?_⟩
    · by_cases hut : u = t
      · rw [hut, setPlace_self, ht]
        rfl
      · rw [setPlace_of_ne _ _ hut]
    · refine setPlace_of_ne _ _ ?_
      rintro rfl
      rw [ht] at hu
      exact absurd hu (by simp [Place.commits])
    · rw [h.inside]
      by_cases hut : u = t
      · rw [hut, setPlace_self, ht]
        simp
      · rw [setPlace_of_ne _ _ hut]
  | @log_write t b d ht hb hlen hroom =>
    obtain ⟨x', hx', h'⟩ := h.log_write d ht hc hb hlen hroom
    cases hstep
    exact ⟨x', hx', h'⟩
  | @leave t ht hcom hout =>
    obtain rfl := hstep
    have hwake : ∀ u, (c.wakeup.place u).commits = (c.place u).commits ∧
        ((c.place u).commits = true → c.wakeup.place u = c.place u) ∧
        (c.wakeup.place u = .op ↔ c.place u = .op) := by
      intro u
      rcases c.wakeup_place u with ⟨ha, hb⟩ | he
      · rw [ha, hb]
        simp [Place.commits]
      · rw [he]
        simp
    refine ⟨{ x with inside := x.inside.erase t }, if_pos ((h.inside t).mpr ht),
      h.move hc rfl rfl (fun u => ?_) (fun u hu => ?_) rfl rfl fun u => ?_⟩
    · by_cases hut : u = t
      · rw [hut, setPlace_self, ht]
        rfl
      · rw [setPlace_of_ne _ _ hut]
        exact (hwake u).1
    · have hut : u ≠ t := by
        rintro rfl
        rw [ht] at hu
        exact absurd hu (by simp [Place.commits])
      rw [setPlace_of_ne _ _ hut]
      exact (hwake u).2.1 hu
    · rw [mem_erase, h.inside]
      by_cases hut : u = t
      · rw [hut, setPlace_self]
        simp
      · rw [setPlace_of_ne _ _ hut, and_iff_right hut]
        exact (hwake u).2.2.symm
  | @commit t ht hcom hout hlh =>
    obtain rfl := hstep
    exact h.last ht hc rfl fun hempty =>
      ⟨hempty, fun i hi => absurd hi (Nat.not_lt_zero i), trivial⟩
  | @commitNone t ht hcom hout hlh =>
    obtain rfl := hstep
    exact h.last ht hc rfl id
  | @committed t ht =>
    obtain rfl := hstep
    have hhere := h.control.here t
    have hstage := h.stage t
    have htc : (c.place t).commits = true := by rw [ht]; rfl
    rw [ht] at hhere hstage
    have hwake : ∀ u, (c.wakeup.place u).commits = (c.place u).commits ∧
        (c.wakeup.place u = .op ↔ c.place u = .op) := by
      intro u
      rcases c.wakeup_place u with ⟨ha, hb⟩ | he
      · rw [ha, hb]
        simp [Place.commits]
      · rw [he]
        simp
    refine ⟨x, rfl, h.stop hc rfl (fun u => ?_) htc (by rw [ht]; rfl) rfl rfl hstage
      (h.current hhere.1) hhere.1 fun u => ?_⟩
    · by_cases hut : u = t
      · rw [hut, setPlace_self]
        rfl
      · rw [setPlace_of_ne _ _ hut]
        refine (hwake u).1.trans ?_
        by_contra hne
        exact hut (h.control.alone (by simpa using hne) htc)
    · rw [h.inside]
      by_cases hut : u = t
      · rw [hut, setPlace_self, ht]
        simp
      · rw [setPlace_of_ne _ _ hut]
        exact (hwake u).2.symm
  | bread b d hup =>
    cases hstep
    exact ⟨x, rfl, h.same rfl rfl⟩
  | brelse b hup =>
    cases hstep
    exact ⟨x, rfl, h.same rfl rfl⟩
  | writeLog ht hp => exact ⟨x, rfl, h.writeLog ht hp hstep⟩
  | writeLogLast ht => exact ⟨x, rfl, h.writeLogLast ht hstep⟩
  | writeHead ht hp => exact h.writeHead hsize ht hp hstep
  | @writeHeadLast t ht =>
    have hstage := h.stage t
    rw [ht] at hstage
    cases hstep
    have h' := h.installFrom _ (l := c.lh) (by rw [ht]; rfl) (by rw [ht]; rfl) h.head h.rest hstage
    exact ⟨x, rfl, h'.same rfl rfl⟩
  | install ht hp => exact ⟨x, rfl, h.install hsize ht hp hstep⟩
  | @installLast t tail ht =>
    have hstage := h.stage t
    rw [ht] at hstage
    obtain ⟨hin, -⟩ := hstage
    cases hstep
    have h' := h.installFrom _ (l := c.lh) (by rw [ht]; rfl) (by rw [ht]; rfl) h.head h.rest hin
    exact ⟨x, rfl, h'.same rfl rfl⟩
  | clear ht hp => exact ⟨x, rfl, h.clear hsize ht hp hstep⟩
  | @clearLast t ht hup =>
    have hstage := h.stage t
    rw [ht] at hstage
    have hlh := h.control.here t
    rw [ht] at hlh
    cases hstep
    exact ⟨x, rfl, h.read (l := c.lh) (by rw [ht]; rfl) (by rw [ht]; rfl) rfl hc h.head h.rest rfl
      rfl hstage.2⟩
  | @clearUp t ht hup =>
    have hstage := h.stage t
    have hlh := h.control.here t
    have htc : (c.place t).commits = true := by rw [ht]; rfl
    rw [ht] at hstage hlh
    cases hstep
    refine ⟨x, rfl, h.stop hc rfl (fun u => ?_) htc (by rw [ht]; rfl) rfl rfl hstage.2
      (fun b hb => ?_) rfl fun u => ?_⟩
    · by_cases hut : u = t
      · rw [hut, setPlace_self]
        rfl
      · rw [setPlace_of_ne _ _ hut]
        by_contra hne
        exact hut (h.control.alone (by simpa using hne) htc)
    · have hlh' : c.lh = [] := hlh
      rw [h.rest b hb (by rw [hlh']; exact List.not_mem_nil), h.down hup]
      exact hstage.1 b hb
    · rw [h.inside]
      by_cases hut : u = t
      · rw [hut, setPlace_self, ht]
        simp
      · rw [setPlace_of_ne _ _ hut]
  | @readHead t d ht =>
    cases hstep
    refine ⟨x, rfl, h.read (l := c.lh) (by rw [ht]; rfl) (by rw [ht]; rfl) rfl hc h.head h.rest rfl
      rfl fun d' hd' => ?_⟩
    obtain rfl := Option.some.inj hd'
    refine (h.area_of_commits (by rw [ht]; rfl) le_rfl (by omega)).resolve_right ?_
    rw [ht]
    simp [Place.writes]
  | @readHeadLast t d ht =>
    have hstage := h.stage t
    have hhere := h.control.here t
    rw [ht] at hstage hhere
    obtain ⟨hup, hlh⟩ := hhere
    obtain rfl := hstage d rfl
    cases hstep
    have hrest : ∀ b, Home start size b → b ∉ getHead (e.disk start) → e.view b = e.disk b :=
      fun b hb _ => h.rest b hb (by rw [hlh]; exact List.not_mem_nil)
    have h' := h.installFrom 0 (l := getHead (e.disk start)) (by rw [ht]; rfl)
      (by rw [ht]; rfl) h.diskHead hrest
      ⟨rfl, fun i hi => ?_, fun i hi => absurd hi (Nat.not_lt_zero i), fun hup' => ?_⟩
    · exact ⟨x, rfl, h'.same rfl rfl⟩
    · rw [List.getD_eq_getElem _ _ hi, ← recovered_getElem h.diskHead.nodup hi]
      exact h.durable _ (h.diskHead.home _ (List.getElem_mem hi))
    · exact absurd (hup.symm.trans hup') (by simp)
  | crash t =>
    cases hstep
    exact ⟨_, rfl, h.crash t⟩

/-- The machine boots from a disk with a valid log. -/
lemma Inv.boot {disk : ℕ → Data} (hdisk : ValidHead start size (getHead (disk start))) (t : T) :
    Inv start size (boot t) (Blocks.start disk) (TxnStore.fresh (recovered start disk)) := by
  refine ⟨Control.boot t, fun u => ?_, .nil, fun b _ _ => Or.inl rfl, fun b _ _ => rfl,
    fun b _ => rfl, fun hup => absurd hup (by simp [Log.boot, setPlace]), fun _ => rfl, hdisk,
    fun hn => ?_, fun u => ?_⟩
  · refine iff_of_false (notMem_empty u) ?_
    by_cases hu : u = t
    · rw [hu, Log.boot, setPlace_self]
      simp
    · rw [Log.boot, setPlace_of_ne _ _ hu]
      simp
  · have := hn t
    rw [Log.boot, setPlace_self] at this
    exact absurd this (by simp [Place.commits])
  · by_cases hu : u = t
    · rw [hu, Log.boot, setPlace_self]
      simp [Stage]
    · rw [Log.boot, setPlace_of_ne _ _ hu]
      trivial

omit [Fintype T] in
/-- A transaction of the run so far, and one event more. -/
lemma run_happens {x₀ : TxnStore T ℕ Data} {hist : List (TxnEvent T ℕ Data)}
    (hrun : run TxnStore.next x₀ hist = some x) {ev : Option (TxnEvent T ℕ Data)}
    (hev : Happens x ev x') : run TxnStore.next x₀ (hist ++ ev.toList) = some x' := by
  cases ev with
  | none =>
    rw [Option.toList_none, List.append_nil, hrun]
    exact congrArg some (hev : x' = x).symm
  | some ev =>
    rw [Option.toList_some, run_concat, hrun]
    exact hev

/-- The machine boots, with a device in its first state. -/
def Booted {δ : Type} (d₀ : δ) (s : (Log T × List (TxnEvent T ℕ Data)) × δ) : Prop :=
  (∃ t, s.1 = (boot t, [])) ∧ s.2 = d₀

/-- What is kept in every run of the log over a store of blocks. -/
lemma inv_of_reachable (hsize : 0 < size) {disk : ℕ → Data}
    (hdisk : ValidHead start size (getHead (disk start)))
    {s : (Log T × List (TxnEvent T ℕ Data)) × Blocks T}
    (h : Reachable (Booted (Blocks.start disk))
      (Composed (Step start size) (Observed Blocks.Step)) s) :
    ∃ x, run TxnStore.next (.fresh (recovered start disk)) s.1.2 = some x ∧
      Inv start size s.1.1 s.2 x := by
  refine Reachable.invariant (I := fun s : (Log T × List (TxnEvent T ℕ Data)) × Blocks T => ∃ x,
    run TxnStore.next (.fresh (recovered start disk)) s.1.2 = some x ∧
      Inv start size s.1.1 s.2 x) (fun s hs => ?_) (fun s a s' hs hl => ?_) h
  · obtain ⟨⟨t, ht⟩, he⟩ := hs
    rw [ht, he]
    exact ⟨_, rfl, Inv.boot hdisk t⟩
  · obtain ⟨x, hrun, hinv⟩ := hs
    cases hl with
    | client hc =>
      obtain ⟨l, hl, hhist⟩ := hc
      obtain ⟨x', hev, hinv'⟩ := hinv.effect hsize (Effect.of_next hl) rfl
      rw [hhist]
      exact ⟨x', run_happens hrun hev, hinv'⟩
    | device hd => exact absurd hd id
    | both hc hd =>
      obtain ⟨l, hl, hhist⟩ := hc
      obtain ⟨x', hev, hinv'⟩ := hinv.effect hsize (Effect.of_next hl) hd
      rw [hhist]
      exact ⟨x', run_happens hrun hev, hinv'⟩

/-- **Crashes are atomic.**  Whatever the threads, the buffer cache and the disk do, and whenever
the machine stops, the operations so far are a run of a transactional store, in which a transaction
is committed when nobody is in the middle of an operation.  What recovery makes of the disk is what
is durable in it; while the file system is up, the buffers of a thread have what is current in it;
and without a commit or a recovery under way, the disk itself has what is durable. -/
theorem crash_atomic (hsize : 0 < size) {disk : ℕ → Data}
    (hdisk : ValidHead start size (getHead (disk start))) {pid : T → ℕ}
    {s : (Log T × List (TxnEvent T ℕ Data)) × Device T}
    (h : Reachable (Booted (Device.start disk))
      (Composed (Step start size) (Device.Step pid)) s) :
    ∃ x, run TxnStore.next (.fresh (recovered start disk)) s.1.2 = some x ∧
      (∀ b, Home start size b → recovered start s.2.disk b = x.durable b) ∧
      (s.1.1.up = true → ∀ t, ∀ i ∈ s.2.held t, Home start size (s.2.bcache.buf i).blockno →
        (s.2.bcache.buf i).data = x.current (s.2.bcache.buf i).blockno) ∧
      ((∀ t, (s.1.1.place t).commits = false) → ∀ b, Home start size b →
        s.2.disk b = x.durable b) := by
  have hinit : ∀ (c : Log T × List (TxnEvent T ℕ Data)) d,
      Booted (Device.start disk) (c, d) →
        ∃ e, Device.Sim pid d e ∧ Booted (Blocks.start disk) (c, e) := by
    rintro c d ⟨hc, rfl⟩
    exact ⟨Blocks.start disk, Device.sim_start pid disk, hc, rfl⟩
  obtain ⟨e, ⟨hok, hshow⟩, hreach⟩ := (Device.simulates pid).composed hinit h
  obtain ⟨x, hrun, hinv⟩ := inv_of_reachable hsize hdisk hreach
  have hdurable : ∀ b, Home start size b → recovered start s.2.disk b = x.durable b := by
    rw [← hshow.disk]
    exact hinv.durable
  refine ⟨x, hrun, hdurable, fun hup t i hi hb => ?_, fun hnone b hb => ?_⟩
  · rw [← hshow.view i ((hok.thread t).held i hi).1]
    exact hinv.current hup _ hb
  · have hclean := hinv.clean hnone
    rw [hshow.disk] at hclean
    rw [← hdurable b hb, recovered_of_nil hclean]

/-- Thread 0 recovers an empty log, and writes block 32 in an operation; the machine stops when the
transaction is committed and not installed. -/
theorem crash_atomic_commit : ∃ s : (Log (Fin 1) × List (TxnEvent (Fin 1) ℕ Data)) × Device (Fin 1),
    s.1.2 = [.enter 0, .write 0 32 fun _ => 7, .leave 0, .commit, .crash] ∧
      s.2.disk 32 = (fun _ => 0) ∧ recovered 2 s.2.disk 32 = fun _ => 7 := by
  have h : Reachable (Booted (Device.start fun _ _ => 0))
      (Composed (Step 2 30) (Device.Step fun _ : Fin 1 => 1))
      ((boot 0, []), Device.start fun _ _ => 0) := .start ⟨⟨0, rfl⟩, rfl⟩
  -- the log is empty: its header is read and written
  replace h := h.next (.device ⟨.bget 0 2, rfl⟩)
  replace h := h.next (.device ⟨.acquiresleep 0, rfl⟩)
  replace h := h.next (.device ⟨.iderw 0, rfl⟩)
  replace h := h.next (.device ⟨.ideintr, rfl⟩)
  replace h := h.next (.both (.of_next (l := .io 0 _) rfl) ⟨.bread 0, rfl⟩)
  replace h := h.next (.both (.of_next (l := .io 0 fun _ => 0) rfl) ⟨.brelse 0 ⟨0, by decide⟩, rfl⟩)
  replace h := h.next (.device ⟨.unref 0, rfl⟩)
  replace h := h.next (.device ⟨.bget 0 2, rfl⟩)
  replace h := h.next (.device ⟨.acquiresleep 0, rfl⟩)
  replace h := h.next (.both (.of_next (l := .io 0 _) rfl) ⟨.bread 0, rfl⟩)
  replace h := h.next (.both (.of_next (l := .io 0 fun _ => 0) rfl)
    ⟨.bwrite 0 ⟨0, by decide⟩ _, rfl⟩)
  replace h := h.next (.both (.of_next (l := .io 0 fun _ => 0) rfl) ⟨.ideintr, rfl⟩)
  replace h := h.next (.device ⟨.bwriteEnd 0, rfl⟩)
  replace h := h.next (.both (.of_next (l := .io 0 fun _ => 0) rfl) ⟨.brelse 0 ⟨0, by decide⟩, rfl⟩)
  replace h := h.next (.device ⟨.unref 0, rfl⟩)
  -- an operation writes block 32
  replace h := h.next (.client (.of_next (l := .call 0) rfl))
  replace h := h.next (.client (.of_next (l := .begin_op 0) rfl))
  replace h := h.next (.device ⟨.bget 0 32, rfl⟩)
  replace h := h.next (.device ⟨.acquiresleep 0, rfl⟩)
  replace h := h.next (.device ⟨.iderw 0, rfl⟩)
  replace h := h.next (.device ⟨.ideintr, rfl⟩)
  replace h := h.next (.both (.of_next (l := .bread 0 32 _) rfl) ⟨.bread 0, rfl⟩)
  replace h := h.next (.both (.of_next (l := .log_write 0 32 fun _ => 7) rfl)
    ⟨.log_write 0 ⟨1, by decide⟩ _, rfl⟩)
  replace h := h.next (.both (.of_next (l := .brelse 0 32) rfl) ⟨.brelse 0 ⟨1, by decide⟩, rfl⟩)
  replace h := h.next (.device ⟨.unref 0, rfl⟩)
  replace h := h.next (.client (.of_next (l := .end_op 0) rfl))
  -- the block is copied to the log
  replace h := h.next (.device ⟨.bget 0 3, rfl⟩)
  replace h := h.next (.device ⟨.acquiresleep 0, rfl⟩)
  replace h := h.next (.device ⟨.iderw 0, rfl⟩)
  replace h := h.next (.device ⟨.ideintr, rfl⟩)
  replace h := h.next (.both (.of_next (l := .io 0 _) rfl) ⟨.bread 0, rfl⟩)
  replace h := h.next (.device ⟨.bget 0 32, rfl⟩)
  replace h := h.next (.device ⟨.acquiresleep 0, rfl⟩)
  replace h := h.next (.both (.of_next (l := .io 0 _) rfl) ⟨.bread 0, rfl⟩)
  replace h := h.next (.both (.of_next (l := .io 0 fun _ => 0) rfl)
    ⟨.bwrite 0 ⟨2, by decide⟩ _, rfl⟩)
  replace h := h.next (.both (.of_next (l := .io 0 fun _ => 0) rfl) ⟨.ideintr, rfl⟩)
  replace h := h.next (.device ⟨.bwriteEnd 0, rfl⟩)
  replace h := h.next (.both (.of_next (l := .io 0 fun _ => 0) rfl) ⟨.brelse 0 ⟨1, by decide⟩, rfl⟩)
  replace h := h.next (.device ⟨.unref 0, rfl⟩)
  replace h := h.next (.both (.of_next (l := .io 0 fun _ => 0) rfl) ⟨.brelse 0 ⟨2, by decide⟩, rfl⟩)
  replace h := h.next (.device ⟨.unref 0, rfl⟩)
  -- the header is written: the transaction is committed
  replace h := h.next (.device ⟨.bget 0 2, rfl⟩)
  replace h := h.next (.device ⟨.acquiresleep 0, rfl⟩)
  replace h := h.next (.both (.of_next (l := .io 0 _) rfl) ⟨.bread 0, rfl⟩)
  replace h := h.next (.both (.of_next (l := .io 0 fun _ => 0) rfl)
    ⟨.bwrite 0 ⟨0, by decide⟩ _, rfl⟩)
  replace h := h.next (.both (.of_next (l := .io 0 fun _ => 0) rfl) ⟨.ideintr, rfl⟩)
  replace h := h.next (.device ⟨.bwriteEnd 0, rfl⟩)
  replace h := h.next (.both (.of_next (l := .io 0 fun _ => 0) rfl) ⟨.brelse 0 ⟨0, by decide⟩, rfl⟩)
  replace h := h.next (.device ⟨.unref 0, rfl⟩)
  -- `install_trans` reads the block of the log, and the machine stops
  replace h := h.next (.device ⟨.bget 0 3, rfl⟩)
  replace h := h.next (.device ⟨.acquiresleep 0, rfl⟩)
  replace h := h.next (.both (.of_next (l := .io 0 _) rfl) ⟨.bread 0, rfl⟩)
  replace h := h.next (.both (.of_next (l := .crash 0) rfl) ⟨.crash, rfl⟩)
  obtain ⟨s, hs, hhist, hold⟩ : ∃ s, Reachable (Booted (Device.start fun _ _ => 0))
      (Composed (Step 2 30) (Device.Step fun _ : Fin 1 => 1)) s ∧
      s.1.2 = [.enter 0, .write 0 32 fun _ => 7, .leave 0, .commit, .crash] ∧
        s.2.disk 32 = (fun _ => 0) := ⟨_, h, rfl, rfl⟩
  have hempty : getHead (fun _ => 0) = [] := by decide +kernel
  have hdisk : ValidHead 2 30 (getHead fun _ => 0) := by
    rw [hempty]
    exact .nil
  obtain ⟨x, hrun, hdurable, -⟩ :=
    @crash_atomic (Fin 1) _ _ 2 30 (by decide) (fun _ _ => 0) hdisk (fun _ => 1) _ hs
  rw [hhist] at hrun
  refine ⟨s, hhist, hold, ?_⟩
  rw [hdurable 32 (by decide), ← Option.some.inj hrun]
  rfl

end Log

end Xv6Projects.Fs
