import Xv6Projects.Threads.Change
import Xv6Projects.Threads.Globals

/-!
# What a successful join means

`thread_join` looks for the thread id in every process, and takes any zombie that holds it.
When the zombies it finds are those of its own process, and the counter for thread ids does not
overflow, a join that returns zero returns what the thread has passed to `thread_exit`, once.
-/

namespace Xv6Projects.Threads

open Library Kernel

/-! ### Histories -/

/-- A thread of a process has executed `thread_exit` with a value, or has been joined with it. -/
structure Event where
  proc : Slot
  pid : ℤ
  tid : ℤ
  value : UInt32
deriving DecidableEq, Repr

/-- A state of the kernel, the calls of `thread_exit` so far, and the calls of `thread_join`
that have returned zero; an event of the latter names the process of the caller. -/
structure History where
  kernel : Kernel
  exits : List Event
  joins : List Event

/-- What a thread that has executed `thread_exit` leaves in its slot. -/
def Proc.event (x : Proc) (q : Slot) (i : Tidx) : Event :=
  ⟨q, x.pid, (x.pth i).tid, (x.pth i).retval⟩

namespace Kernel

/-- The call of `thread_exit` in the operation. -/
def exitEvents (k : Kernel) : Op → List Event
  | .threadExit v =>
      match k.cpu with
      | .run p => [⟨p, (k.proc p).pid, (k.proc p).mypth.tid, v⟩]
      | _ => []
  | _ => []

/-- The process that goes through the loop of `thread_join` in the operation, the argument, and
the variable `havepth`. -/
def joinRound (k : Kernel) : Op → Option (Slot × ℤ × Bool)
  | .threadJoin t =>
      match k.cpu with
      | .run p => some (p, t, false)
      | _ => none
  | .resume =>
      match k.cpu with
      | .resume p =>
          match (k.proc p).mypth.cont with
          | .join t havepth => some (p, t, havepth)
          | _ => none
      | _ => none
  | _ => none

/-- The call of `thread_join` that returns zero in the operation. -/
def joinEvents (k : Kernel) (op : Op) : List Event :=
  match k.joinRound op with
  | some (p, t, havepth) =>
      match (k.threadJoin p t havepth).1 with
      | some r => [⟨p, (k.proc p).pid, t, r⟩]
      | none => []
  | none => []

end Kernel

/-- One operation, and what it adds to the history. -/
def History.step (h : History) (op : Op) : Option History :=
  (Threads.step h.kernel op).map fun k =>
    { kernel := k
      exits := h.kernel.exitEvents op ++ h.exits
      joins := h.kernel.joinEvents op ++ h.joins }

/-- The history after `pinit`. -/
def History.init : History where
  kernel := Kernel.pinit
  exits := []
  joins := []

/-- The operation leads from one history to the other. -/
def History.Step (h : History) (op : Op) (h' : History) : Prop := h.step op = some h'

/-! ### The property -/

/-- Every join that has returned zero was preceded by the `thread_exit` of a thread of the
caller's process with this id and this value, and threads exit and are joined once. -/
structure JoinsRight (h : History) : Prop where
  exited : ∀ e ∈ h.joins, e ∈ h.exits
  exitedOnce : (h.exits.map Event.tid).Nodup
  joinedOnce : (h.joins.map Event.tid).Nodup

/-- The steps that leave joins right: a round of `thread_join` finds no zombie with the thread
id in another process, and the counter for thread ids does not overflow. -/
def JoinSafe (k : Kernel) (op : Op) : Prop :=
  (∀ p t havepth, k.joinRound op = some (p, t, havepth) → ∀ q i, q ≠ p →
    ((k.proc q).pth i).tid = t → ((k.proc q).pth i).state ≠ .zombie) ∧
  (op.Creates → k.nextTid < 2 ^ 31 - 1)

/-- The histories of the runs that meet the condition. -/
def JoinReach : History → Prop := Reachable (· = History.init)
  (Guarded History.Step fun h => JoinSafe h.kernel)

/-! ### Thread ids under a step -/

/-- A thread slot after a step: unused, as before, or with a new id. -/
inductive TidKept (k : Kernel) (q : Slot) (i : Tidx) (op : Op) (t u : Pthread) : Prop
  | unused : u.state = .unused → TidKept k q i op t u
  | kept : t.state ≠ .unused → (t.state = .zombie → u.state = .zombie) → u.tid = t.tid →
      TidKept k q i op t u
  | new : NewTid k q i op → u.tid = k.nextTid → TidKept k q i op t u

/-- The zombies of a process with a thread that can run were there before, or are the thread
that exits. -/
def ZombieKept (k : Kernel) (q : Slot) (op : Op) (x y : Proc) : Prop :=
  ∀ i, (∃ j, (y.pth j).state.Live) → (y.pth i).state = .zombie →
    (x.pth i).state = .zombie ∧ (∃ j, (x.pth j).state.Live) ∧ y.event q i = x.event q i ∨
      y.event q i ∈ k.exitEvents op

section
variable {k : Kernel} {q : Slot} {op : Op}

/-- The state and the id of a thread are the same. -/
lemma tidKept_of_eq {i : Tidx} {t u : Pthread} (hs : u.state = t.state) (ht : u.tid = t.tid) :
    TidKept k q i op t u := by
  by_cases hu : u.state = .unused
  · exact .unused hu
  · exact .kept (by rwa [← hs]) (fun hz => by rw [hs, hz]) ht

lemma TidKept.trans {i : Tidx} {t u v : Pthread} (h : TidKept k q i op t u)
    (h' : TidKept k q i op u v) : TidKept k q i op t v := by
  cases h' with
  | unused hv => exact .unused hv
  | new hnew hv => exact .new hnew hv
  | kept hu hz hv =>
    cases h with
    | unused hu' => exact absurd hu' hu
    | kept ht hz' hu' => exact .kept ht (fun h => hz (hz' h)) (hv.trans hu')
    | new hnew hu' => exact .new hnew (hv.trans hu')

/-- A thread that can run stays one. -/
lemma StillPth.tidKept {i : Tidx} {t u : Pthread} (h : StillPth t u) : TidKept k q i op t u := by
  by_cases hu : u.state = .unused
  · exact .unused hu
  · have hnot : ∀ s : State, ¬s.Live → (u.state = s ↔ t.state = s) := fun s => h.state.eq_iff
    refine .kept (fun ht => hu ((hnot .unused ?_).mpr ht)) (hnot .zombie ?_).mpr h.tid
    · exact fun hl => hl.ne_unused rfl
    · exact fun hl => hl.ne_zombie rfl

lemma Major.tidKept {x y : Proc} (hk : Shape k) (h : Major k q op x y) (i : Tidx) :
    TidKept k q i op (x.pth i) (y.pth i) := by
  have hsame : ∀ t, TidKept k q i op t t := fun t => tidKept_of_eq rfl rfl
  cases h with
  | grow h =>
    obtain ⟨r, -, rfl⟩ := Option.map_eq_some_iff.mp h
    exact hsame _
  | commit | forkImage => exact hsame _
  | initAllpth =>
    rw [Proc.initAllpth_pth]
    split_ifs
    · exact hsame _
    · exact .unused rfl
  | fsOp | sleeplocks =>
    rw [Proc.updMypth_pth]
    split_ifs with hi
    · rw [hi]
      exact tidKept_of_eq rfl rfl
    · exact hsame _
  | exit =>
    dsimp only [Proc.exit]
    split_ifs with hi
    · exact .unused hi
    · exact .kept hi (fun _ => rfl) rfl
  | threadExit c hp _ =>
    have hx := calmProc_wakeup1 (k.proc q) c
    rw [Proc.threadExit_pth]
    split_ifs with hi
    · refine .kept ?_ (fun _ => rfl) (by rw [hi]; rfl)
      rw [hi, hx.onTidx]
      exact ((hx.pth _).live_iff.mpr (hk.live_current (Or.inl hp))).ne_unused
    · exact hsame _
  | allocSlot hnp hop =>
    by_cases hi : i = 0
    · subst hi
      -- the first thread of a new process gets a new id
      refine .new ?_ (by rw [Proc.allocSlot_first])
      rcases hop with rfl | ⟨n, rfl⟩
      · exact ⟨hnp, rfl⟩
      · exact ⟨hnp, rfl⟩
    · rw [Proc.allocSlot_pth hi]
      exact hsame _
  | allocStack =>
    by_cases hi : i = 0
    · subst hi
      rw [Proc.allocStack_first]
      exact tidKept_of_eq rfl rfl
    · rw [Proc.allocStack_pth hi]
      exact hsame _
  | userinit hx he =>
    by_cases hi : i = 0
    · subst hi
      have h0 := (hx.embryo he).1.1
      rw [Proc.userinit_first]
      exact .kept (by rw [h0]; decide) (fun hz => State.noConfusion (h0.symm.trans hz)) rfl
    · rw [Proc.userinit_pth hi]
      exact hsame _
  | allocFail =>
    by_cases hi : i = 0
    · subst hi
      exact .unused (by rw [Proc.allocFail_first])
    · rw [Proc.allocFail_pth hi]
      exact hsame _
  | forkFail =>
    by_cases hi : i = 0
    · subst hi
      exact .unused (by rw [Proc.forkFail_first])
    · rw [Proc.forkFail_pth hi]
      exact hsame _
  | forkDone he =>
    by_cases hi : i = 0
    · subst hi
      have h0 := ((hk.proc q).embryo he).1.1
      rw [Proc.forkDone_first]
      exact .kept (by rw [h0]; decide) (fun hz => State.noConfusion (h0.symm.trans hz)) rfl
    · rw [Proc.forkDone_pth hi]
      exact hsame _
  | reap => exact .unused rfl
  | @created j n avail ok _ _ hp hy =>
    rw [hy.pth]
    split_ifs with hi
    · subst hi
      cases ok with
      | true => exact .new ⟨hp, hy.find⟩ rfl
      | false => exact .unused rfl
    · exact hsame _
  | @joinPth _ j =>
    by_cases hi : i = j
    · subst hi
      exact .unused (by simp [Proc.joinPth])
    · rw [Proc.joinPth, Proc.updPth_of_ne _ _ hi]
      exact hsame _

/-- What a step does to a thread slot. -/
lemma Step.tidKept {k' : Kernel} (hk : Shape k) (h : Step k op k') (q : Slot) (i : Tidx) :
    TidKept k q i op ((k.proc q).pth i) ((k'.proc q).pth i) := by
  refine Changes.lift (R := fun x y => TidKept k q i op (x.pth i) (y.pth i)) ?_ ?_ ?_
    (h.changes hk q)
  · exact fun x => tidKept_of_eq rfl rfl
  · exact fun x y z => TidKept.trans
  · intro x y hxy
    rcases hxy.still_or hk with h | h
    · exact (h.pth i).tidKept
    · exact h.tidKept hk i

/-- Threads of the same kind, with the same ids and values. -/
lemma zombieKept_of_pth {x y : Proc} (hpid : y.pid = x.pid)
    (hpth : ∀ i, SameKind (x.pth i).state (y.pth i).state ∧ (y.pth i).tid = (x.pth i).tid ∧
      (y.pth i).retval = (x.pth i).retval) : ZombieKept k q op x y := by
  rintro i ⟨j, hj⟩ hz
  refine Or.inl ⟨?_, ⟨j, (hpth j).1.live_iff.mp hj⟩, ?_⟩
  · exact ((hpth i).1.eq_iff fun hl => hl.ne_zombie rfl).mp hz
  · rw [Proc.event, Proc.event, hpid, (hpth i).2.1, (hpth i).2.2]

/-- A process with no zombie, or with no thread that can run. -/
lemma zombieKept_of_not {x y : Proc}
    (h : (∀ i, (y.pth i).state ≠ .zombie) ∨ ∀ i, ¬(y.pth i).state.Live) :
    ZombieKept k q op x y := by
  rintro i ⟨j, hj⟩ hz
  rcases h with h | h
  · exact absurd hz (h i)
  · exact absurd hj (h j)

/-- One thread is changed in a process under construction, and is not a zombie afterwards. -/
lemma zombieKept_first {x y : Proc} (hx : ∀ i, i ≠ 0 → (x.pth i).state = .unused)
    (h : ∀ i, i ≠ 0 → y.pth i = x.pth i) (h0 : (y.pth 0).state ≠ .zombie) :
    ZombieKept k q op x y := by
  refine zombieKept_of_not (Or.inl fun i hz => ?_)
  by_cases hi : i = 0
  · rw [hi] at hz
    exact h0 hz
  · rw [h i hi, hx i hi] at hz
    exact State.noConfusion hz

lemma ZombieKept.trans {x y z : Proc} (h : ZombieKept k q op x y) (h' : ZombieKept k q op y z) :
    ZombieKept k q op x z := by
  intro i hj hz
  rcases h' i hj hz with ⟨hy, hj', he⟩ | he
  · rcases h i hj' hy with ⟨hx, hj'', he'⟩ | he'
    · exact Or.inl ⟨hx, hj'', he.trans he'⟩
    · rw [he]
      exact Or.inr he'
  · exact Or.inr he

lemma Major.zombieKept {x y : Proc} (hk : Shape k) (h : Major k q op x y) :
    ZombieKept k q op x y := by
  have hsame : ∀ {x y : Proc}, y.pid = x.pid → y.pth = x.pth → ZombieKept k q op x y := by
    intro x y hpid hpth
    refine zombieKept_of_pth hpid fun i => ?_
    rw [hpth]
    exact ⟨Or.inl rfl, rfl, rfl⟩
  have hfirst : (k.proc q).state = .embryo ∨ (k.proc q).state = .unused →
      ∀ i, i ≠ 0 → ((k.proc q).pth i).state = .unused := by
    rintro (he | hu) i hi
    · exact ((hk.proc q).embryo he).2 i hi
    · exact (hk.proc q).unused hu i
  cases h with
  | grow h =>
    obtain ⟨r, -, rfl⟩ := Option.map_eq_some_iff.mp h
    exact hsame rfl rfl
  | commit | forkImage => exact hsame rfl rfl
  | initAllpth =>
    intro i _ hz
    rw [Proc.initAllpth_pth] at hz
    split_ifs at hz with hi
    rename_i hj
    obtain ⟨j, hj⟩ := hj
    rw [Proc.initAllpth_pth] at hj
    split_ifs at hj with hjon
    · refine Or.inl ⟨hz, ⟨j, hj⟩, ?_⟩
      rw [Proc.event, Proc.event, Proc.initAllpth_pth, if_pos hi]
      rfl
    · exact absurd rfl hj.ne_unused
  | fsOp | sleeplocks =>
    refine zombieKept_of_pth rfl fun i => ?_
    rw [Proc.updMypth_pth]
    split_ifs with hi
    · rw [hi]
      exact ⟨Or.inl rfl, rfl, rfl⟩
    · exact ⟨Or.inl rfl, rfl, rfl⟩
  | exit => exact zombieKept_of_not (Or.inr (Proc.exit_not_live _))
  | @threadExit c v hp =>
    have hx := still_wakeup1 (k.proc q) c
    set x := (k.proc q).wakeup1 c
    have hon : x.onTidx = (k.proc q).onTidx := Proc.wakeup1_onTidx _ _
    intro i hlive hz
    obtain ⟨j, hj⟩ := hlive
    rw [Proc.threadExit_pth] at hj hz
    split_ifs at hj with hjon
    · exact absurd rfl hj.ne_zombie
    split_ifs at hz with hi
    · refine Or.inr ?_
      -- the zombie is the thread that exits, and the history has recorded it
      have he : (x.threadExit v).event q i = ⟨q, (k.proc q).pid, (k.proc q).mypth.tid, v⟩ := by
        have htid : x.mypth.tid = (k.proc q).mypth.tid := by
          rw [Proc.mypth, Proc.mypth, hon]
          exact (hx.pth _).tid
        rw [Proc.event, Proc.threadExit_pth, if_pos hi, ← htid, ← hx.pid]
        rfl
      rw [he, Kernel.exitEvents, hp]
      exact List.mem_singleton_self _
    · refine Or.inl ⟨hz, ⟨j, hj⟩, ?_⟩
      rw [Proc.event, Proc.event, Proc.threadExit_pth, if_neg hi]
      rfl
  | allocSlot hnp hop =>
    exact zombieKept_first (hfirst (Or.inr (unusedSlot_state hnp))) (fun i => Proc.allocSlot_pth)
      (by rw [Proc.allocSlot_first]; exact State.noConfusion)
  | allocStack hx he =>
    refine zombieKept_first (hx.embryo he).2 (fun i => Proc.allocStack_pth) ?_
    rw [Proc.allocStack_first, (hx.embryo he).1.1]
    exact State.noConfusion
  | userinit hx he =>
    exact zombieKept_first (hx.embryo he).2 (fun i => Proc.userinit_pth)
      (by rw [Proc.userinit_first]; exact State.noConfusion)
  | allocFail he =>
    exact zombieKept_first (hfirst (Or.inl he)) (fun i => Proc.allocFail_pth)
      (by rw [Proc.allocFail_first]; exact State.noConfusion)
  | forkFail he =>
    exact zombieKept_first (hfirst (Or.inl he)) (fun i => Proc.forkFail_pth)
      (by rw [Proc.forkFail_first]; exact State.noConfusion)
  | forkDone he =>
    exact zombieKept_first (hfirst (Or.inl he)) (fun i => Proc.forkDone_pth)
      (by rw [Proc.forkDone_first]; exact State.noConfusion)
  | reap => exact zombieKept_of_not (Or.inr fun i hl => hl.ne_unused rfl)
  | @created j n avail ok _ y hp hy =>
    intro i _ hz
    -- the new thread is no zombie
    have hne : i ≠ j := by
      rintro rfl
      rw [hy.pth, if_pos rfl, Pthread.created_state] at hz
      split_ifs at hz
    have hpth : y.pth i = (k.proc q).pth i := (hy.pth i).trans (if_neg hne)
    refine Or.inl ⟨by rwa [← hpth], ⟨_, hk.live_current (Or.inl hp)⟩, ?_⟩
    obtain ⟨sz, pgdir, ustacks, hpr⟩ := hy.proc
    rw [Proc.event, Proc.event, hpth, hpr]
  | @joinPth _ j =>
    rintro i ⟨l, hl⟩ hz
    have hpth : ∀ m, (((k.proc q).joinPth j).pth m).state ≠ .unused →
        ((k.proc q).joinPth j).pth m = (k.proc q).pth m := by
      intro m hm
      by_cases hmj : m = j
      · subst hmj
        exact absurd (by simp [Proc.joinPth]) hm
      · rw [Proc.joinPth, Proc.updPth_of_ne _ _ hmj]
    have hi := hpth i (by rw [hz]; exact State.noConfusion)
    refine Or.inl ⟨by rwa [← hi], ⟨l, by rwa [← hpth l hl.ne_unused]⟩, ?_⟩
    rw [Proc.event, Proc.event, hi]
    rfl

/-- What a step does to the zombies of a process. -/
lemma Step.zombieKept {k' : Kernel} (hk : Shape k) (h : Step k op k') (q : Slot) :
    ZombieKept k q op (k.proc q) (k'.proc q) := by
  refine Changes.lift (R := ZombieKept k q op) ?_ (fun x y z => ZombieKept.trans) ?_
    (h.changes hk q)
  · exact fun x => zombieKept_of_pth rfl fun i => ⟨Or.inl rfl, rfl, rfl⟩
  · intro x y hxy
    rcases hxy.still_or hk with h | h
    · exact zombieKept_of_pth h.pid fun i => ⟨(h.pth i).state, (h.pth i).tid, (h.pth i).retval⟩
    · exact h.zombieKept hk

end

/-! ### The events of a step -/

/-- A round of `thread_join` that returns zero has found a zombie with the thread id. -/
lemma threadJoin_fst_eq_some {k : Kernel} {p : Slot} {t : ℤ} {havepth : Bool} {r : UInt32}
    (h : (k.threadJoin p t havepth).1 = some r) :
    ∃ q i, ((k.proc q).pth i).tid = t ∧ ((k.proc q).pth i).state = .zombie ∧
      r = ((k.proc q).pth i).retval ∧ (k.threadJoin p t havepth).2 =
        ((k.updProc q fun x => x.joinPth i).setCont p .user).setCpu (.run p) := by
  unfold Kernel.threadJoin at h ⊢
  split at h
  · rename_i q i hscan
    split_ifs at h ⊢ with hz
    exact ⟨q, i, joinScan_tid hscan, hz, (Option.some.inj h).symm, rfl⟩
  · split_ifs at h

lemma sleep_of_ne {k : Kernel} {p q : Slot} (hq : q ≠ p) (chan : Chan) (c : Cont) :
    (k.sleep p chan c).proc q = k.proc q :=
  updProc_of_ne k (fun x => x.sleep chan c) hq

lemma setCont_of_ne {k : Kernel} {p q : Slot} (hq : q ≠ p) (c : Cont) :
    (k.setCont p c).proc q = k.proc q :=
  updProc_of_ne k (fun x => x.updMypth fun t => { t with cont := c }) hq

/-- Otherwise only the caller is changed. -/
lemma threadJoin_other {k : Kernel} {p : Slot} {t : ℤ} {havepth : Bool} {q : Slot} (hq : q ≠ p)
    (h : (k.threadJoin p t havepth).1 = none) :
    (k.threadJoin p t havepth).2.proc q = k.proc q := by
  unfold Kernel.threadJoin at h ⊢
  split at h
  · split_ifs at h ⊢
    exact sleep_of_ne hq _ _
  · split_ifs at h ⊢
    · exact sleep_of_ne hq _ _
    · exact setCont_of_ne hq _

/-- A round of `thread_join` is a step of its function. -/
lemma Step.joinRound {k k' : Kernel} {op : Op} (h : Step k op k') {p : Slot} {t : ℤ}
    {havepth : Bool} (hj : k.joinRound op = some (p, t, havepth)) :
    k.Current p ∧ k' = (k.threadJoin p t havepth).2 := by
  unfold Step at h
  cases op with
  | threadJoin t' =>
    obtain ⟨p', hp, -, h⟩ := syscall_eq_some.mp h
    obtain rfl := Option.some.inj h
    rw [Kernel.joinRound, hp] at hj
    obtain ⟨rfl, rfl, rfl⟩ : p' = p ∧ t' = t ∧ false = havepth := by simpa using hj
    exact ⟨Or.inl hp, rfl⟩
  | resume =>
    obtain ⟨p', hp, h⟩ := onResume_eq_some.mp h
    rw [Kernel.joinRound, hp] at hj
    dsimp only at hj
    rcases resumeStep_eq_some h with ⟨hc, -⟩ | ⟨t', b, hc, rfl⟩
    · rw [hc] at hj
      exact absurd hj (by simp)
    · rw [hc] at hj
      obtain ⟨rfl, rfl, rfl⟩ : p' = p ∧ t' = t ∧ b = havepth := by simpa using hj
      exact ⟨Or.inr hp, rfl⟩
  | _ => exact absurd hj (by simp [Kernel.joinRound])

/-- The event of a step that joins a thread. -/
lemma mem_joinEvents {k : Kernel} {op : Op} {e : Event} (h : e ∈ k.joinEvents op) :
    ∃ p t havepth r, k.joinRound op = some (p, t, havepth) ∧
      (k.threadJoin p t havepth).1 = some r ∧ e = ⟨p, (k.proc p).pid, t, r⟩ := by
  unfold Kernel.joinEvents at h
  split at h
  · rename_i p t havepth hj
    split at h
    · rename_i r hr
      exact ⟨p, t, havepth, r, hj, hr, List.mem_singleton.mp h⟩
    · exact absurd h List.not_mem_nil
  · exact absurd h List.not_mem_nil

lemma mem_exitEvents {k : Kernel} {op : Op} {e : Event} (h : e ∈ k.exitEvents op) :
    ∃ p v, op = .threadExit v ∧ k.cpu = .run p ∧
      e = ⟨p, (k.proc p).pid, (k.proc p).mypth.tid, v⟩ := by
  unfold Kernel.exitEvents at h
  split at h
  · rename_i v
    split at h
    · rename_i p hp
      exact ⟨p, v, rfl, hp, List.mem_singleton.mp h⟩
    · exact absurd h List.not_mem_nil
  · exact absurd h List.not_mem_nil

lemma length_joinEvents_le (k : Kernel) (op : Op) : (k.joinEvents op).length ≤ 1 := by
  unfold Kernel.joinEvents
  split
  · split <;> simp
  · simp

lemma length_exitEvents_le (k : Kernel) (op : Op) : (k.exitEvents op).length ≤ 1 := by
  unfold Kernel.exitEvents
  split
  · split <;> simp
  · simp

/-- At most one event is added, with a new thread id. -/
lemma nodup_append {es old : List Event} (hlen : es.length ≤ 1)
    (hnew : ∀ e ∈ es, ∀ d ∈ old, d.tid ≠ e.tid) (hold : (old.map Event.tid).Nodup) :
    ((es ++ old).map Event.tid).Nodup := by
  match es, hlen with
  | [], _ => exact hold
  | [e], _ =>
    refine List.nodup_cons.mpr ⟨fun hmem => ?_, hold⟩
    obtain ⟨d, hd, he⟩ := List.mem_map.mp hmem
    exact hnew e (List.mem_singleton_self e) d hd he

/-! ### The invariant -/

/-- Where thread ids are. -/
structure JoinInv (h : History) : Prop extends JoinsRight h where
  pos : 1 ≤ h.kernel.nextTid
  lt : ∀ p i, ((h.kernel.proc p).pth i).state ≠ .unused →
    ((h.kernel.proc p).pth i).tid < h.kernel.nextTid
  unique : ∀ p i q j, ((h.kernel.proc p).pth i).state ≠ .unused →
    ((h.kernel.proc q).pth j).state ≠ .unused →
    ((h.kernel.proc p).pth i).tid = ((h.kernel.proc q).pth j).tid → p = q ∧ i = j
  /-- A zombie in a process that can run has executed `thread_exit`. -/
  zombies : ∀ p i, (∃ j, h.kernel.Live p j) → ((h.kernel.proc p).pth i).state = .zombie →
    (h.kernel.proc p).event p i ∈ h.exits
  exitedLt : ∀ e ∈ h.exits, e.tid < h.kernel.nextTid
  exitedZombie : ∀ e ∈ h.exits, ∀ p i, ((h.kernel.proc p).pth i).state ≠ .unused →
    ((h.kernel.proc p).pth i).tid = e.tid → ((h.kernel.proc p).pth i).state = .zombie
  joinedGone : ∀ e ∈ h.joins, ∀ p i, ((h.kernel.proc p).pth i).state ≠ .unused →
    ((h.kernel.proc p).pth i).tid ≠ e.tid

section
variable {h : History} {k' : Kernel} {op : Op}

/-- The counter goes up by one, or stays. -/
lemma JoinInv.nextTid (hh : JoinInv h) (hstep : Step h.kernel op k')
    (hsafe : JoinSafe h.kernel op) :
    (∃ q i, NewTid h.kernel q i op) ∧ k'.nextTid = h.kernel.nextTid + 1 ∨
      (∀ q i, ¬NewTid h.kernel q i op) ∧ k'.nextTid = h.kernel.nextTid := by
  rcases hstep.nextTid with ⟨⟨q, i, hnew⟩, hnext⟩ | hsame
  · refine Or.inl ⟨⟨q, i, hnew⟩, ?_⟩
    have hop : op.Creates := by
      cases op with
      | userinit | forkAlloc | threadCreate => exact trivial
      | _ => exact hnew.elim
    have hlt := hsafe.2 hop
    have hpos := hh.pos
    rw [hnext, Int.bmod_eq_of_le (by omega) (by omega)]
  · exact Or.inr hsame

/-- A thread that is in use after a step was in use before, with the same id, or is new. -/
lemma JoinInv.inUse (hh : JoinInv h) (hs : Shape h.kernel) (hstep : Step h.kernel op k')
    (hsafe : JoinSafe h.kernel op) {q : Slot} {i : Tidx}
    (hq : ((k'.proc q).pth i).state ≠ .unused) :
    (((h.kernel.proc q).pth i).state ≠ .unused ∧
      ((k'.proc q).pth i).tid = ((h.kernel.proc q).pth i).tid ∧
      (((h.kernel.proc q).pth i).state = .zombie → ((k'.proc q).pth i).state = .zombie)) ∨
    NewTid h.kernel q i op ∧ ((k'.proc q).pth i).tid = h.kernel.nextTid ∧
      k'.nextTid = h.kernel.nextTid + 1 := by
  cases hstep.tidKept hs q i with
  | unused hu => exact absurd hu hq
  | kept ht hz htid => exact Or.inl ⟨ht, htid, hz⟩
  | new hnew htid =>
    rcases hh.nextTid hstep hsafe with ⟨-, hnext⟩ | ⟨hno, -⟩
    · exact Or.inr ⟨hnew, htid, hnext⟩
    · exact absurd hnew (hno q i)

lemma JoinInv.nextTid_le (hh : JoinInv h) (hstep : Step h.kernel op k')
    (hsafe : JoinSafe h.kernel op) : h.kernel.nextTid ≤ k'.nextTid := by
  rcases hh.nextTid hstep hsafe with ⟨-, hnext⟩ | ⟨-, hnext⟩ <;> omega

/-- The thread that exits has not exited before, and is a zombie afterwards. -/
lemma exitEvent_zombie (hs : Shape h.kernel) (hstep : Step h.kernel op k')
    {e : Event} (he : e ∈ h.kernel.exitEvents op) :
    ∃ p i, ((h.kernel.proc p).pth i).state = .running ∧ ((h.kernel.proc p).pth i).tid = e.tid ∧
      ((k'.proc p).pth i).state = .zombie := by
  obtain ⟨p, v, rfl, hp, rfl⟩ := mem_exitEvents he
  refine ⟨p, (h.kernel.proc p).onTidx, (hs.place p (Or.inl hp)).1, rfl, ?_⟩
  obtain ⟨p', hp', -, hk'⟩ := syscall_eq_some.mp hstep
  obtain rfl := Cpu.run.inj (hp.symm.trans hp')
  obtain rfl := Option.some.inj hk'
  rw [Kernel.threadExit, setCpu_proc, updProc_self, Proc.threadExit_pth, wakeup1_proc,
    if_pos (Proc.wakeup1_onTidx _ _).symm]

/-- The thread that is joined has exited in the process of the caller, and its slot is free
afterwards. -/
lemma JoinInv.joinEvent (hh : JoinInv h) (hs : Shape h.kernel) (hstep : Step h.kernel op k')
    (hsafe : JoinSafe h.kernel op) {e : Event} (he : e ∈ h.kernel.joinEvents op) :
    e ∈ h.exits ∧ ∃ p i, ((h.kernel.proc p).pth i).state = .zombie ∧
      ((h.kernel.proc p).pth i).tid = e.tid ∧ ((k'.proc p).pth i).state = .unused := by
  obtain ⟨p, t, havepth, r, hj, hr, rfl⟩ := mem_joinEvents he
  obtain ⟨hp, rfl⟩ := hstep.joinRound hj
  obtain ⟨q, i, htid, hz, rfl, hk'⟩ := threadJoin_fst_eq_some hr
  obtain rfl : q = p := by
    by_contra hq
    exact hsafe.1 p t havepth hj q i hq htid hz
  refine ⟨?_, q, i, hz, htid, ?_⟩
  · have := hh.zombies q i ⟨_, hs.live_current hp⟩ hz
    rwa [Proc.event, htid] at this
  · have hne : i ≠ (h.kernel.proc q).onTidx := by
      rintro rfl
      exact State.noConfusion (hz.symm.trans (hs.place q hp).1)
    rw [hk', setCpu_proc, setCont_pth, if_neg, updProc_self]
    · simp [Proc.joinPth]
    · rw [updProc_self]
      exact fun h => hne h.2

/-- One step that meets the condition keeps the invariant. -/
theorem JoinInv.step {h' : History} (hh : JoinInv h) (hs : Shape h.kernel)
    (hstep : History.Step h op h') (hsafe : JoinSafe h.kernel op) : JoinInv h' := by
  obtain ⟨k', hk', rfl⟩ := Option.map_eq_some_iff.mp hstep
  have hk : Step h.kernel op k' := hk'
  have hle := hh.nextTid_le hk hsafe
  have huse := fun {q i} => hh.inUse hs hk hsafe (q := q) (i := i)
  have hexit : ∀ e ∈ h.kernel.exitEvents op, ∃ p i,
      ((h.kernel.proc p).pth i).state = .running ∧ ((h.kernel.proc p).pth i).tid = e.tid ∧
        ((k'.proc p).pth i).state = .zombie := fun e => exitEvent_zombie hs hk
  have hjoin : ∀ e ∈ h.kernel.joinEvents op, e ∈ h.exits ∧ ∃ p i,
      ((h.kernel.proc p).pth i).state = .zombie ∧ ((h.kernel.proc p).pth i).tid = e.tid ∧
        ((k'.proc p).pth i).state = .unused := fun e => hh.joinEvent hs hk hsafe
  constructor
  · -- joins come after exits, and both happen once
    constructor
    · intro e he
      rcases List.mem_append.mp he with he | he
      · exact List.mem_append_right _ (hjoin e he).1
      · exact List.mem_append_right _ (hh.exited e he)
    · refine nodup_append (length_exitEvents_le _ _) (fun e he d hd hde => ?_) hh.exitedOnce
      obtain ⟨p, i, hrun, htid, -⟩ := hexit e he
      have hz := hh.exitedZombie d hd p i (by rw [hrun]; exact State.noConfusion) (htid.trans hde.symm)
      exact State.noConfusion (hrun.symm.trans hz)
    · refine nodup_append (length_joinEvents_le _ _) (fun e he d hd hde => ?_) hh.joinedOnce
      obtain ⟨-, p, i, hz, htid, -⟩ := hjoin e he
      exact hh.joinedGone d hd p i (by rw [hz]; exact State.noConfusion) (htid.trans hde.symm)
  · exact hh.pos.trans hle
  · intro p i hp
    rcases huse hp with ⟨hp₀, htid, -⟩ | ⟨-, htid, hnext⟩
    · rw [htid]
      exact lt_of_lt_of_le (hh.lt p i hp₀) hle
    · rw [htid, hnext]
      exact Int.lt_succ _
  · intro p i q j hp hq he
    replace he : ((k'.proc p).pth i).tid = ((k'.proc q).pth j).tid := he
    -- a new id is `nextTid`, and the ids in use are below it
    rcases huse hp with ⟨hp₀, htid, -⟩ | ⟨hnew, htid, -⟩ <;>
      rcases huse hq with ⟨hq₀, htid', -⟩ | ⟨hnew', htid', -⟩
    · exact hh.unique p i q j hp₀ hq₀ (by rw [← htid, ← htid', he])
    · have := hh.lt p i hp₀
      omega
    · have := hh.lt q j hq₀
      omega
    · exact hnew.eq hnew'
  · intro p i hl hz
    rcases hk.zombieKept hs p i hl hz with ⟨hz₀, hl₀, he⟩ | he
    · rw [he]
      exact List.mem_append_right _ (hh.zombies p i hl₀ hz₀)
    · exact List.mem_append_left _ he
  · intro e he
    refine lt_of_lt_of_le ?_ hle
    rcases List.mem_append.mp he with he | he
    · obtain ⟨p, i, hrun, htid, -⟩ := hexit e he
      rw [← htid]
      exact hh.lt p i (by rw [hrun]; exact State.noConfusion)
    · exact hh.exitedLt e he
  · intro e he p i hp htid
    replace htid : ((k'.proc p).pth i).tid = e.tid := htid
    rcases huse hp with ⟨hp₀, hsame, hzom⟩ | ⟨-, hnew, -⟩
    · rcases List.mem_append.mp he with he | he
      · -- the thread that exits is the only one with its id
        obtain ⟨q, j, hrun, htid', hz⟩ := hexit e he
        obtain ⟨rfl, rfl⟩ := hh.unique p i q j hp₀ (by rw [hrun]; exact State.noConfusion)
          (by rw [htid', ← hsame, htid])
        exact hz
      · exact hzom (hh.exitedZombie e he p i hp₀ (hsame.symm.trans htid))
    · rcases List.mem_append.mp he with he | he
      · obtain ⟨q, j, hrun, htid', -⟩ := hexit e he
        have := hh.lt q j (by rw [hrun]; exact State.noConfusion)
        omega
      · have := hh.exitedLt e he
        omega
  · intro e he p i hp htid
    replace htid : ((k'.proc p).pth i).tid = e.tid := htid
    rcases huse hp with ⟨hp₀, hsame, -⟩ | ⟨-, hnew, -⟩
    · rcases List.mem_append.mp he with he | he
      · -- the thread that is joined gives its slot back
        obtain ⟨-, q, j, hz, htid', hun⟩ := hjoin e he
        obtain ⟨rfl, rfl⟩ := hh.unique p i q j hp₀ (by rw [hz]; exact State.noConfusion)
          (by rw [htid', ← hsame, htid])
        exact hp hun
      · exact hh.joinedGone e he p i hp₀ (hsame.symm.trans htid)
    · have hlt : e.tid < h.kernel.nextTid := by
        rcases List.mem_append.mp he with he | he
        · exact hh.exitedLt e (hjoin e he).1
        · exact hh.exitedLt e (hh.exited e he)
      omega

end

lemma joinInv_init : JoinInv History.init where
  exited _ h := absurd h List.not_mem_nil
  exitedOnce := List.nodup_nil
  joinedOnce := List.nodup_nil
  pos := le_rfl
  lt _ _ h := absurd rfl h
  unique _ _ _ _ h := absurd rfl h
  zombies _ _ _ h := State.noConfusion h
  exitedLt _ h := absurd h List.not_mem_nil
  exitedZombie _ h := absurd h List.not_mem_nil
  joinedGone _ h := absurd h List.not_mem_nil

/-- Both invariants, along the runs that meet the condition. -/
lemma JoinReach.inv {h : History} (hr : JoinReach h) : Shape h.kernel ∧ JoinInv h := by
  refine Reachable.invariant (I := fun h => Shape h.kernel ∧ JoinInv h) ?_ ?_ hr
  · rintro _ rfl
    exact ⟨shape_pinit, joinInv_init⟩
  · rintro s op s' ⟨hs, hh⟩ ⟨hstep, hsafe⟩
    obtain ⟨k', hk', rfl⟩ := Option.map_eq_some_iff.mp hstep
    exact ⟨hs.step hk', hh.step hs hstep hsafe⟩

/-! ### The runs -/

/-- **A successful join returns what the thread has passed to `thread_exit`**, in every run that
meets the condition: the thread belonged to the process of the caller, and no other join of it
has returned zero.  A round of `thread_join` changes no other process. -/
theorem joinsRight_of_joinSafe {h : History} (hr : JoinReach h) : JoinsRight h ∧
    ∀ op h', History.Step h op h' → JoinSafe h.kernel op → ∀ p t havepth,
      h.kernel.joinRound op = some (p, t, havepth) →
        ∀ q, q ≠ p → h'.kernel.proc q = h.kernel.proc q := by
  refine ⟨hr.inv.2.toJoinsRight, fun op h' hstep hsafe p t havepth hj q hq => ?_⟩
  obtain ⟨k', hk', rfl⟩ := Option.map_eq_some_iff.mp hstep
  have hk : Step h.kernel op k' := hk'
  obtain ⟨-, rfl⟩ := hk.joinRound hj
  cases hfst : (h.kernel.threadJoin p t havepth).1 with
  | none => exact threadJoin_other hq hfst
  | some r =>
    obtain ⟨r', i, htid, hz, -, hsnd⟩ := threadJoin_fst_eq_some hfst
    obtain rfl : r' = p := by
      by_contra hr'
      exact hsafe.1 p t havepth hj r' i hr' htid hz
    dsimp only
    rw [hsnd, setCpu_proc, setCont_of_ne hq, updProc_of_ne _ _ hq]

/-- No slot of another process holds the id of a thread that is a zombie. -/
def zombieFree (k : Kernel) (p : Slot) (t : ℤ) : Bool :=
  slots.all fun q => q = p || tidxs.all fun i =>
    ((k.proc q).pth i).tid ≠ t || ((k.proc q).pth i).state ≠ .zombie

/-- The condition, computed. -/
def joinSafe (k : Kernel) (op : Op) : Bool :=
  k.nextTid < 2 ^ 31 - 1 && match k.joinRound op with
    | some (p, t, _) => zombieFree k p t
    | none => true

lemma joinSafe_of_eq_true {k : Kernel} {op : Op} (h : joinSafe k op = true) : JoinSafe k op := by
  unfold joinSafe at h
  obtain ⟨hlt, hfree⟩ := Bool.and_eq_true_iff.mp h
  refine ⟨fun p t havepth hj q i hq htid hz => ?_, fun _ => by simpa using hlt⟩
  rw [hj] at hfree
  have hall := List.all_eq_true.mp hfree q (List.mem_finRange q)
  rcases Bool.or_eq_true_iff.mp hall with h | h
  · exact hq (of_decide_eq_true h)
  · have := List.all_eq_true.mp h i (List.mem_finRange i)
    simp [htid, hz] at this

/-- The first process creates a thread and joins it after it has exited. -/
def joinOps : List Op :=
  [.userinit 1, .pass, .threadCreate (some 2) 1, .threadJoin 2, .schedule, .threadExit 7,
    .schedule, .pass, .resume]

/-- The join has returned the value of the thread. -/
theorem joinsRight_of_joinSafe_thread : ∃ h, JoinReach h ∧ h.joins = [⟨0, 1, 2, 7⟩] ∧
    ⟨0, 1, 2, 7⟩ ∈ h.exits := by
  have hrun : ((run (guardedNext History.step fun h op => joinSafe h.kernel op = true)
      History.init joinOps).any fun h => decide (h.joins = [⟨0, 1, 2, 7⟩])) = true := by
    decide +kernel
  obtain ⟨h, hh, hj⟩ := (Option.any_eq_true _ _).mp hrun
  have hnext : ∀ s i s', guardedNext History.step (fun h op => joinSafe h.kernel op = true) s i =
      some s' → Guarded History.Step (fun h => JoinSafe h.kernel) s i s' := fun s i s' hs =>
    ⟨(guardedNext_eq_some.mp hs).1, joinSafe_of_eq_true (guardedNext_eq_some.mp hs).2⟩
  have hreach : JoinReach h := Reachable.run hnext (.start rfl) hh
  have hjoins := of_decide_eq_true hj
  exact ⟨h, hreach, hjoins, (joinsRight_of_joinSafe hreach).1.exited _
    (by rw [hjoins]; exact List.mem_singleton_self _)⟩

/-- The first process has a child that ends through `exit`, and joins the thread of the child. -/
def joinChildOps : List Op :=
  [.userinit 1, .pass, .forkAlloc, .forkStack (some 2), .forkCopy true, .forkDone, .timer,
    .schedule, .exitBegin] ++ List.replicate (NOFILE + 1) .exitFile ++
    [.exit, .schedule, .pass, .threadJoin 2]

/-- The join has returned zero for a thread of another process, which has not executed
`thread_exit`, and has emptied its slot. -/
theorem not_joinsRight : ∃ h, Reachable (· = History.init) History.Step h ∧
    h.joins = [⟨0, 1, 2, 0⟩] ∧ h.exits = [] ∧ (h.kernel.proc 1).state = .zombie ∧
    ((h.kernel.proc 1).pth 0).state = .unused := by
  have hrun : ((run History.step History.init joinChildOps).any fun h =>
      decide (h.joins = [⟨0, 1, 2, 0⟩] ∧ h.exits = [] ∧ (h.kernel.proc 1).state = .zombie ∧
        ((h.kernel.proc 1).pth 0).state = .unused)) = true := by
    decide +kernel
  obtain ⟨h, hh, hall⟩ := (Option.any_eq_true _ _).mp hrun
  exact ⟨h, Reachable.run (fun _ _ _ hs => hs) (.start rfl) hh, of_decide_eq_true hall⟩

end Xv6Projects.Threads
