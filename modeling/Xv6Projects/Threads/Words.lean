import Xv6Projects.Threads.Creation
import Xv6Projects.Threads.Joins

/-!
# The words that threads pass

The argument of a thread goes through the checks of `sys_thread_create` to the stack of the new
thread, and its return value through those of `sys_thread_exit` and its thread slot to the memory
of the joiner.  Both checks are made with `argptr`, which takes the word for a pointer: a word
that is not the address of four bytes of the process does not get through.
-/

namespace Xv6Projects.Threads

open Library Kernel Vm

/-! ### User memory -/

/-- User memory, by address. -/
abbrev Memory := ℕ → UInt8

/-- Byte `j` of a word, the lowest one first. -/
def byte (w : UInt32) (j : ℕ) : UInt8 := UInt8.ofNat (w.toNat / 256 ^ j)

namespace Memory

/-- The word at address `a`. -/
def word (m : Memory) (a : ℕ) : UInt32 :=
  UInt32.ofNat ((m a).toNat + 256 * (m (a + 1)).toNat + 256 ^ 2 * (m (a + 2)).toNat +
    256 ^ 3 * (m (a + 3)).toNat)

/-- Write the word at address `a`. -/
def setWord (m : Memory) (a : ℕ) (w : UInt32) : Memory := fun x =>
  if a ≤ x ∧ x < a + 4 then byte w (x - a) else m x

lemma word_setWord (m : Memory) (a : ℕ) (w : UInt32) : (m.setWord a w).word a = w := by
  have hbyte : ∀ j < 4, m.setWord a w (a + j) = byte w j := by
    intro j hj
    rw [setWord, if_pos ⟨by omega, by omega⟩, Nat.add_sub_cancel_left]
  have h0 := hbyte 0 (by decide)
  rw [Nat.add_zero] at h0
  have hw := w.toNat_lt
  rw [word, h0, hbyte 1 (by decide), hbyte 2 (by decide), hbyte 3 (by decide)]
  simp only [byte, UInt8.toNat_ofNat']
  refine UInt32.toNat_inj.mp ?_
  rw [UInt32.toNat_ofNat']
  omega

lemma word_setWord_of_apart (m : Memory) {a b : ℕ} (w : UInt32) (h : a + 4 ≤ b ∨ b + 4 ≤ a) :
    (m.setWord a w).word b = m.word b := by
  have hbyte : ∀ j < 4, m.setWord a w (b + j) = m (b + j) := by
    intro j hj
    exact if_neg (by omega)
  have h0 := hbyte 0 (by decide)
  rw [Nat.add_zero] at h0
  rw [word, word, h0, hbyte 1 (by decide), hbyte 2 (by decide), hbyte 3 (by decide)]

end Memory

/-- The four bytes at address `a` are mapped. -/
def Proc.Maps (x : Proc) (a : ℕ) : Prop :=
  x.pgdir (a / PGSIZE) = true ∧ x.pgdir ((a + 3) / PGSIZE) = true

instance (x : Proc) (a : ℕ) : Decidable (x.Maps a) := inferInstanceAs (Decidable (_ ∧ _))

/-- The fields of a trap frame that creating a thread writes. -/
structure Trapframe where
  eip : UInt32
  esp : UInt32
deriving DecidableEq, Repr

/-- The kernel, the user memory of each process, and the trap frame of each thread. -/
structure Machine where
  kernel : Kernel
  mem : Slot → Memory
  tf : Slot → Tidx → Trapframe

namespace Machine

/-- The kernel reads a word of the memory of `p`; a page fault in the kernel is a panic. -/
def load (m : Machine) (p : Slot) (a : UInt32) : Option UInt32 :=
  if (m.kernel.proc p).Maps a.toNat then some ((m.mem p).word a.toNat) else none

/-- The kernel writes a word of the memory of `p`. -/
def store (m : Machine) (p : Slot) (a w : UInt32) : Option Machine :=
  if (m.kernel.proc p).Maps a.toNat then
    some { m with mem := Function.update m.mem p ((m.mem p).setWord a.toNat w) }
  else none

/-- Write the trap frame of thread `i` of `p`. -/
def setTf (m : Machine) (p : Slot) (i : Tidx) (t : Trapframe) : Machine :=
  { m with tf := Function.update m.tf p (Function.update (m.tf p) i t) }

/-- The trap frame of the current thread of `p`. -/
def mytf (m : Machine) (p : Slot) : Trapframe := m.tf p (m.kernel.proc p).onTidx

/-! ### The arguments of a system call -/

/-- `fetchint`: `none` inside when it returns `-1`. -/
def fetchint (m : Machine) (p : Slot) (a : UInt32) : Option (Option UInt32) :=
  if (m.kernel.proc p).sz ≤ a.toNat ∨ (m.kernel.proc p).sz < (a + 4).toNat then some none
  else (m.load p a).map some

/-- `argint`. -/
def argint (m : Machine) (p : Slot) (n : UInt32) : Option (Option UInt32) :=
  m.fetchint p ((m.mytf p).esp + 4 + 4 * n)

/-- `argptr`, for a block of the size of a pointer. -/
def argptr (m : Machine) (p : Slot) (n : UInt32) : Option (Option UInt32) :=
  (m.argint p n).map fun o => o.bind fun i =>
    if (m.kernel.proc p).sz ≤ i.toNat ∨ (m.kernel.proc p).sz < (i + 4).toNat then none else some i

/-! ### The system calls -/

/-- The pages that `alloc_ustack` maps are zeroed. -/
def zeroNew (m : Machine) (p : Slot) (old : ℕ → Bool) : Machine :=
  { m with mem := Function.update m.mem p fun a =>
      if old (a / PGSIZE) = false ∧ (m.kernel.proc p).pgdir (a / PGSIZE) = true then 0
      else m.mem p a }

/-- `thread_create` by the current thread of `p`, with its return value; `start` is the address
of the function `thread_exit` of the kernel.  Without a slot or a kernel stack the code refers to
the null pointer `npth`. -/
def threadCreate (start : UInt32) (m : Machine) (p : Slot) (thread routine arg : UInt32)
    (page : Option ℕ) (avail : ℕ) : Option (ℤ × Machine) :=
  (tidxs.find? fun i => ((m.kernel.proc p).pth i).state = .unused).bind fun i =>
    page.bind fun n => (m.kernel.allocpth p i n).bind fun k =>
      ((k.proc p).allocUstack i avail).bind fun r =>
        let m₁ := { m with kernel := k.updProc p fun _ => r.2 }.setTf p i (m.mytf p)
        if r.1 then
          let sp := UInt32.ofNat (r.2.ustacks i)
          ((m₁.zeroNew p (m.kernel.proc p).pgdir).store p (sp - 4) arg).bind fun m₂ =>
            (m₂.store p (sp - 4 - 4) start).bind fun m₃ =>
              ((m₃.setTf p i ⟨routine, sp - 4 - 4⟩).store p thread
                  (UInt32.ofInt m.kernel.nextTid)).map fun m₄ =>
                (0, { m₄ with kernel := k.updProc p fun _ => r.2.createDone i })
        else some (-1, { m₁ with kernel := k.updProc p fun _ => r.2.createFail i })

/-- `sys_thread_create`. -/
def sysThreadCreate (start : UInt32) (m : Machine) (p : Slot) (page : Option ℕ) (avail : ℕ) :
    Option (ℤ × Machine) :=
  (m.argptr p 0).bind fun
    | none => some (-1, m)
    | some thread => (m.argptr p 1).bind fun
      | none => some (-1, m)
      | some routine => (m.argptr p 2).bind fun
        | none => some (-1, m)
        | some arg => m.threadCreate start p thread routine arg page avail

/-- `sys_thread_exit`, with its return value if it returns. -/
def sysThreadExit (m : Machine) (p : Slot) : Option (Option ℤ × Machine) :=
  (m.argptr p 0).map fun
    | none => (some (-1), m)
    | some v => (none, { m with kernel := m.kernel.threadExit p v })

/-- The loop of `thread_join`, up to its return or its sleep, with its return value if it
returns. -/
def threadJoin (m : Machine) (p : Slot) (t : ℤ) (retval : UInt32) (havepth : Bool) :
    Option (Option ℤ × Machine) :=
  match m.kernel.threadJoin p t havepth with
  | (some r, k) => ({ m with kernel := k }.store p retval r).map fun m => (some 0, m)
  | (none, k) => some (if k.cpu = .run p then some (-1) else none, { m with kernel := k })

/-- `sys_thread_join`, up to its return or its sleep. -/
def sysThreadJoin (m : Machine) (p : Slot) : Option (Option ℤ × Machine) :=
  (m.argint p 0).bind fun
    | none => some (some (-1), m)
    | some t => (m.argptr p 1).bind fun
      | none => some (some (-1), m)
      | some retval => m.threadJoin p t.toInt32.toInt retval false

end Machine

/-! ### The property -/

/-- The current thread of `p` runs, and can start a system call. -/
structure Calls (m : Machine) (p : Slot) : Prop where
  reach : Reach m.kernel
  cpu : m.kernel.cpu = .run p
  ready : (m.kernel.proc p).mypth.Ready

/-- The call `thread_create(thread, routine, a)`, with valid pointers, and with a slot and pages
for the new thread: `thread` is the address of a word that is mapped, and is not the word for the
argument on a stack that the slot has from an earlier thread. -/
structure CreateCall (m : Machine) (p : Slot) (thread routine a : UInt32) (i : Tidx)
    (n avail : ℕ) : Prop where
  ptr : m.argptr p 0 = some (some thread)
  start : m.argptr p 1 = some (some routine)
  arg : m.argint p 2 = some (some a)
  slot : (tidxs.find? fun i => ((m.kernel.proc p).pth i).state = .unused) = some i
  page : n ≠ 0 ∧ m.kernel.kmem n = none
  avail : 0 < avail
  mapped : (m.kernel.proc p).Maps thread.toNat
  apart : (m.kernel.proc p).ustacks i ≠ 0 →
    thread.toNat + 4 ≤ (UInt32.ofNat ((m.kernel.proc p).ustacks i) - 4).toNat ∨
      (UInt32.ofNat ((m.kernel.proc p).ustacks i) - 4).toNat + 4 ≤ thread.toNat

/-- The call succeeds, and the new thread starts at `routine` with argument `a`. -/
def CreatePasses (start : UInt32) (m : Machine) (p : Slot) (routine a : UInt32) (i : Tidx)
    (n avail : ℕ) : Prop :=
  ∃ m', m.sysThreadCreate start p (some n) avail = some (0, m') ∧
    ((m'.kernel.proc p).pth i).state = .runnable ∧ (m'.tf p i).eip = routine ∧
    m'.load p ((m'.tf p i).esp + 4) = some a

/-- The call `thread_exit(v)` ends the thread, and a join that takes the thread afterwards stores
`v` at the address that the joiner has passed. -/
def ExitPasses (m : Machine) (p : Slot) (v : UInt32) : Prop :=
  ∃ m', m.sysThreadExit p = some (none, m') ∧
    ((m'.kernel.proc p).pth (m.kernel.proc p).onTidx).state = .zombie ∧
    ∀ m₂ : Machine, Reachable (· = m'.kernel) (Guarded Step fun k _ =>
        ((k.proc p).pth (m.kernel.proc p).onTidx).state = .zombie) m₂.kernel →
      ∀ q t retval havepth m₃, m₂.kernel.joinScan t = some (p, (m.kernel.proc p).onTidx) →
        m₂.threadJoin q t retval havepth = some (some 0, m₃) → m₃.load q retval = some v

/-- The word is the address of four bytes below the size of the process. -/
def Proc.Accepts (x : Proc) (w : UInt32) : Prop := w.toNat < x.sz ∧ (w + 4).toNat ≤ x.sz

instance (x : Proc) (w : UInt32) : Decidable (x.Accepts w) :=
  inferInstanceAs (Decidable (_ ∧ _))

/-- There is room above the process for the stack of slot `i`, in a page that is not mapped; or
the slot has a stack, and its two topmost words are mapped. -/
def Proc.StackReady (x : Proc) (i : Tidx) : Prop :=
  if x.ustacks i = 0 then
    PGROUNDUP x.sz * PGSIZE + PGSIZE < KERNBASE ∧ x.pgdir (PGROUNDUP x.sz) = false
  else
    x.Maps (UInt32.ofNat (x.ustacks i) - 4).toNat ∧
      x.Maps (UInt32.ofNat (x.ustacks i) - 4 - 4).toNat

/-! ### The argument -/

section
variable {m : Machine} {p : Slot} {x y : Proc} {i : Tidx} {avail : ℕ}

/-- `argptr` takes the word for a pointer. -/
lemma argptr_eq {n w : UInt32} (h : m.argint p n = some (some w)) :
    m.argptr p n = some (if (m.kernel.proc p).Accepts w then some w else none) := by
  rw [Machine.argptr, h, Option.map_some, Option.bind_some]
  by_cases hw : (m.kernel.proc p).Accepts w
  · rw [if_pos hw, if_neg (by rw [not_or]; exact ⟨not_le.mpr hw.1, not_lt.mpr hw.2⟩)]
  · rw [if_neg hw, if_pos]
    by_contra hno
    obtain ⟨h₁, h₂⟩ := not_or.mp hno
    exact hw ⟨not_le.mp h₁, not_lt.mp h₂⟩

lemma argint_of_argptr {n w : UInt32} (h : m.argptr p n = some (some w)) :
    (m.kernel.proc p).Accepts w := by
  obtain ⟨o, ho, h⟩ := Option.map_eq_some_iff.mp h
  obtain ⟨w', rfl, hw⟩ := Option.bind_eq_some_iff.mp h
  split_ifs at hw with hno
  obtain rfl := Option.some.inj hw
  obtain ⟨h₁, h₂⟩ := not_or.mp hno
  exact ⟨not_le.mp h₁, not_lt.mp h₂⟩

/-- The top of a stack below the kernel. -/
lemma sub_four {u : ℕ} (h4 : 8 ≤ u) (hu : u < 2 ^ 32) :
    (UInt32.ofNat u - 4).toNat = u - 4 ∧ (UInt32.ofNat u - 4 - 4).toNat = u - 8 := by
  have htop : (UInt32.ofNat u).toNat = u := by
    rw [UInt32.toNat_ofNat']
    omega
  have hfour : (4 : UInt32).toNat = 4 := rfl
  have harg : (UInt32.ofNat u - 4).toNat = u - 4 := by
    rw [UInt32.toNat_sub, htop, hfour]
    omega
  refine ⟨harg, ?_⟩
  rw [UInt32.toNat_sub, harg, hfour]
  omega

/-- The process after a stack for slot `i` has been mapped above it. -/
def Proc.newStack (x : Proc) (i : Tidx) : Proc :=
  { x with
    pgdir := Function.update x.pgdir (PGROUNDUP x.sz) true
    ustacks := Function.update x.ustacks i (PGROUNDUP x.sz * PGSIZE + PGSIZE)
    sz := PGROUNDUP x.sz * PGSIZE + PGSIZE }

lemma newStack_ustacks (x : Proc) (i : Tidx) :
    (x.newStack i).ustacks i = PGROUNDUP x.sz * PGSIZE + PGSIZE :=
  Function.update_self _ _ _

lemma newStack_pgdir (x : Proc) (i : Tidx) : (x.newStack i).pgdir (PGROUNDUP x.sz) = true :=
  Function.update_self _ _ _

/-- Without a stack from an earlier thread, `alloc_ustack` maps the page above the process. -/
lemma allocUstack_new (hu : x.ustacks i = 0) (havail : 0 < avail)
    (hlt : PGROUNDUP x.sz * PGSIZE + PGSIZE < KERNBASE) :
    x.allocUstack i avail =
      if x.pgdir (PGROUNDUP x.sz) = true then none else some (true, x.newStack i) := by
  have hgrow : ¬PGROUNDUP x.sz * PGSIZE + PGSIZE < PGROUNDUP x.sz * PGSIZE := by omega
  obtain ⟨a, rfl⟩ := Nat.exists_eq_add_of_lt havail
  rw [Nat.zero_add, Proc.allocUstack, if_pos hu, allocuvm, if_neg (not_le.mpr hlt), if_neg hgrow,
    PGROUNDUP_mul_add, PGROUNDUP_mul, Nat.add_sub_cancel_left, allocLoop]
  split_ifs <;> rfl

/-- The two topmost words of a page. -/
lemma maps_top {v : ℕ} (hv : v * PGSIZE + PGSIZE < KERNBASE) (hmap : x.pgdir v = true) :
    x.Maps (UInt32.ofNat (v * PGSIZE + PGSIZE) - 4).toNat ∧
      x.Maps (UInt32.ofNat (v * PGSIZE + PGSIZE) - 4 - 4).toNat := by
  simp only [PGSIZE, KERNBASE] at hv
  obtain ⟨h4, h8⟩ := sub_four (u := v * PGSIZE + PGSIZE) (by simp only [PGSIZE]; omega)
    (by simp only [PGSIZE]; omega)
  have hpage : ∀ o, o < PGSIZE → (v * PGSIZE + o) / PGSIZE = v := by
    intro o ho
    simp only [PGSIZE] at ho ⊢
    omega
  have hmaps : ∀ o, o + 3 < PGSIZE → x.Maps (v * PGSIZE + o) := by
    intro o ho
    rw [Proc.Maps, Nat.add_assoc, hpage o (by omega), hpage (o + 3) ho]
    exact ⟨hmap, hmap⟩
  rw [h4, h8]
  exact ⟨hmaps (PGSIZE - 4) (by decide), hmaps (PGSIZE - 8) (by decide)⟩

/-- `alloc_ustack` with a stack that is ready. -/
lemma allocUstack_ready (havail : 0 < avail) (h : x.StackReady i) :
    ∃ y, x.allocUstack i avail = some (true, y) ∧
      (y.Maps (UInt32.ofNat (y.ustacks i) - 4).toNat ∧
        y.Maps (UInt32.ofNat (y.ustacks i) - 4 - 4).toNat) ∧
      (∀ v, x.pgdir v = true → y.pgdir v = true) ∧
      (x.ustacks i = 0 ∧ x.sz < KERNBASE ∧ x.sz ≤ (UInt32.ofNat (y.ustacks i) - 4).toNat ∨
        x.ustacks i ≠ 0 ∧ y.ustacks i = x.ustacks i) := by
  unfold Proc.StackReady at h
  by_cases hu : x.ustacks i = 0
  · rw [if_pos hu] at h
    obtain ⟨hlt, hfree⟩ := h
    have hy := allocUstack_new hu havail hlt
    rw [if_neg (by rw [hfree]; exact Bool.false_ne_true)] at hy
    refine ⟨_, hy, ?_, fun v hv => ?_, Or.inl ⟨hu, ?_, ?_⟩⟩
    · rw [newStack_ustacks]
      exact maps_top hlt (newStack_pgdir x i)
    · by_cases hvp : v = PGROUNDUP x.sz
      · rw [hvp, newStack_pgdir]
      · exact (Function.update_of_ne hvp _ _).trans hv
    · simp only [PGROUNDUP, PGSIZE] at hlt
      omega
    · rw [newStack_ustacks, (sub_four (by simp only [PGSIZE]; omega) (lt_trans hlt (by decide))).1]
      simp only [PGROUNDUP, PGSIZE]
      omega
  · rw [if_neg hu] at h
    exact ⟨x, by rw [Proc.allocUstack, if_neg hu], h, fun v hv => hv, Or.inr ⟨hu, rfl⟩⟩

/-- A stack whose topmost words can be written was ready. -/
lemma stackReady_of_allocUstack (havail : 0 < avail) (h : x.allocUstack i avail = some (true, y))
    (h4 : y.Maps (UInt32.ofNat (y.ustacks i) - 4).toNat)
    (h8 : y.Maps (UInt32.ofNat (y.ustacks i) - 4 - 4).toNat) : x.StackReady i := by
  unfold Proc.StackReady
  by_cases hu : x.ustacks i = 0
  · rw [if_pos hu]
    by_cases hlt : PGROUNDUP x.sz * PGSIZE + PGSIZE < KERNBASE
    · rw [allocUstack_new hu havail hlt] at h
      split_ifs at h with hmap
      exact ⟨hlt, by simpa using hmap⟩
    · obtain ⟨pgdir, hfail⟩ := Create.allocUstack_fails hu
        (Or.inr (not_lt.mp hlt))
      rw [hfail] at h
      exact absurd (congrArg Prod.fst (Option.some.inj h)) (by simp)
  · rw [if_neg hu]
    rw [Proc.allocUstack, if_neg hu] at h
    obtain rfl : x = y := congrArg Prod.snd (Option.some.inj h)
    exact ⟨h4, h8⟩

/-- Two words of a stack do not overlap. -/
lemma apart_words (s : UInt32) : (s - 4).toNat + 4 ≤ s.toNat ∨ s.toNat + 4 ≤ (s - 4).toNat := by
  have hfour : (4 : UInt32).toNat = 4 := rfl
  have hs := s.toNat_lt
  rw [UInt32.toNat_sub, hfour]
  omega

lemma store_eq_some {m m' : Machine} {a w : UInt32} : m.store p a w = some m' ↔
    (m.kernel.proc p).Maps a.toNat ∧
      m' = { m with mem := Function.update m.mem p ((m.mem p).setWord a.toNat w) } := by
  unfold Machine.store
  split_ifs with h
  · exact ⟨fun hm => ⟨h, (Option.some.inj hm).symm⟩, fun hm => congrArg some hm.2.symm⟩
  · exact ⟨fun hm => absurd hm (by simp), fun hm => absurd hm.1 h⟩

/-- The kernel reads what it has written. -/
lemma load_store {m m' : Machine} {a w : UInt32} (h : m.store p a w = some m') :
    m'.load p a = some w := by
  obtain ⟨hmaps, rfl⟩ := store_eq_some.mp h
  have hword : (Function.update m.mem p ((m.mem p).setWord a.toNat w) p).word a.toNat = w := by
    rw [Function.update_self, Memory.word_setWord]
  rw [Machine.load, if_pos hmaps, hword]

/-- Without the words, `thread_create` is that of the shared model of the process table, -/
lemma threadCreate_kernel {m m' : Machine} {start thread routine arg : UInt32}
    {page : Option ℕ} {r : ℤ}
    (h : m.threadCreate start p thread routine arg page avail = some (r, m')) :
    m.kernel.threadCreate p page avail = some m'.kernel := by
  obtain ⟨i, hi, h⟩ := Option.bind_eq_some_iff.mp h
  obtain ⟨n, hn, h⟩ := Option.bind_eq_some_iff.mp h
  obtain ⟨k, hk, h⟩ := Option.bind_eq_some_iff.mp h
  obtain ⟨⟨ok, y⟩, hy, h⟩ := Option.bind_eq_some_iff.mp h
  rw [Kernel.threadCreate, hi, Option.bind_some, hn, Option.bind_some, hk, Option.bind_some, hy,
    Option.map_some]
  cases ok with
  | false =>
    obtain rfl : _ = m' := congrArg Prod.snd (Option.some.inj h)
    rfl
  | true =>
    obtain ⟨m₂, -, h⟩ := Option.bind_eq_some_iff.mp h
    obtain ⟨m₃, -, h⟩ := Option.bind_eq_some_iff.mp h
    obtain ⟨m₄, -, h⟩ := Option.map_eq_some_iff.mp h
    obtain rfl : _ = m' := congrArg Prod.snd h
    rfl

/-- and so is a round of `thread_join`. -/
lemma threadJoin_kernel {m m' : Machine} {t : ℤ} {retval : UInt32} {havepth : Bool}
    {r : Option ℤ} (h : m.threadJoin p t retval havepth = some (r, m')) :
    m'.kernel = (m.kernel.threadJoin p t havepth).2 := by
  unfold Machine.threadJoin at h
  cases hround : m.kernel.threadJoin p t havepth with
  | mk o k =>
    rw [hround] at h
    cases o with
    | none =>
      obtain rfl : _ = m' := congrArg Prod.snd (Option.some.inj h)
      rfl
    | some v =>
      obtain ⟨m₁, hstore, h⟩ := Option.map_eq_some_iff.mp h
      obtain rfl : m₁ = m' := congrArg Prod.snd h
      obtain ⟨-, rfl⟩ := store_eq_some.mp hstore
      rfl

/-- A system call `thread_join` that returns zero at once is a round of the loop. -/
lemma threadJoin_of_sysThreadJoin {m m' : Machine}
    (h : m.sysThreadJoin p = some (some 0, m')) : ∃ t retval,
      m.argint p 0 = some (some t) ∧ m.argptr p 1 = some (some retval) ∧
        m.threadJoin p t.toInt32.toInt retval false = some (some 0, m') := by
  obtain ⟨o, ho, h⟩ := Option.bind_eq_some_iff.mp h
  cases o with
  | none =>
    have hret := congrArg Prod.fst (Option.some.inj h)
    exact absurd hret (by simp)
  | some t =>
    obtain ⟨o, ho', h⟩ := Option.bind_eq_some_iff.mp h
    cases o with
    | none =>
      have hret := congrArg Prod.fst (Option.some.inj h)
      exact absurd hret (by simp)
    | some retval => exact ⟨t, retval, ho, ho', h⟩

section
variable {start thread routine a : UInt32} {n : ℕ}

/-- `sys_thread_create` with valid pointers takes only an argument that could be one. -/
lemma sysThreadCreate_eq (h : CreateCall m p thread routine a i n avail) (page : Option ℕ) :
    m.sysThreadCreate start p page avail =
      if (m.kernel.proc p).Accepts a then m.threadCreate start p thread routine a page avail
      else some (-1, m) := by
  rw [Machine.sysThreadCreate, h.ptr, Option.bind_some]
  dsimp only
  rw [h.start, Option.bind_some]
  dsimp only
  rw [argptr_eq h.arg]
  by_cases ha : (m.kernel.proc p).Accepts a
  · rw [if_pos ha, if_pos ha]
    rfl
  · rw [if_neg ha, if_neg ha]
    rfl

/-- A thread that has been created got its stack. -/
lemma CreateCall.stackReady (h : CreateCall m p thread routine a i n avail) {m' : Machine}
    (hm : m.threadCreate start p thread routine a (some n) avail = some (0, m')) :
    (m.kernel.proc p).StackReady i := by
  unfold Machine.threadCreate at hm
  rw [h.slot, Option.bind_some, Option.bind_some] at hm
  obtain ⟨k₁, hk₁, hm⟩ := Option.bind_eq_some_iff.mp hm
  obtain ⟨k₂, hk₂, hproc, -⟩ := Create.allocpth_eq_some (p := p) (i := i) h.page.1 h.page.2
  obtain rfl : k₂ = k₁ := Option.some.inj (hk₂.symm.trans hk₁)
  obtain ⟨⟨ok, y⟩, hy, hm⟩ := Option.bind_eq_some_iff.mp hm
  cases ok with
  | false =>
    have hret := congrArg Prod.fst (Option.some.inj hm)
    exact absurd hret (by simp)
  | true =>
    obtain ⟨m₂, hm₂, hm⟩ := Option.bind_eq_some_iff.mp hm
    obtain ⟨m₃, hm₃, -⟩ := Option.bind_eq_some_iff.mp hm
    obtain ⟨h4, rfl⟩ := store_eq_some.mp hm₂
    obtain ⟨h8, -⟩ := store_eq_some.mp hm₃
    have hself : ∀ (f : Proc → Proc), (k₂.updProc p f).proc p = f (k₂.proc p) :=
      fun f => updProc_self k₂ p f
    have h4' : y.Maps (UInt32.ofNat (y.ustacks i) - 4).toNat := by
      have := h4
      rwa [Machine.zeroNew, Machine.setTf, hself] at this
    have h8' : y.Maps (UInt32.ofNat (y.ustacks i) - 4 - 4).toNat := by
      have := h8
      rwa [Machine.zeroNew, Machine.setTf, hself] at this
    rw [hproc] at hy
    exact stackReady_of_allocUstack (x := (m.kernel.proc p).allocpth i m.kernel.nextTid n) h.avail
      hy h4' h8'

/-- The place for the thread id is not the word of the argument. -/
lemma CreateCall.thread_apart (h : CreateCall m p thread routine a i n avail) {u : ℕ}
    (hu : (m.kernel.proc p).ustacks i = 0 ∧ (m.kernel.proc p).sz < KERNBASE ∧
        (m.kernel.proc p).sz ≤ (UInt32.ofNat u - 4).toNat ∨
      (m.kernel.proc p).ustacks i ≠ 0 ∧ u = (m.kernel.proc p).ustacks i) :
    thread.toNat + 4 ≤ (UInt32.ofNat u - 4).toNat ∨
      (UInt32.ofNat u - 4).toNat + 4 ≤ thread.toNat := by
  rcases hu with ⟨-, hsz, htop⟩ | ⟨hne, rfl⟩
  · obtain ⟨hlt, hle⟩ := argint_of_argptr h.ptr
    left
    have hfour : (4 : UInt32).toNat = 4 := rfl
    simp only [KERNBASE] at hsz
    rw [UInt32.toNat_add, hfour] at hle
    omega
  · exact h.apart hne

/-- A thread that gets its stack starts with its argument. -/
lemma CreateCall.passes (h : CreateCall m p thread routine a i n avail)
    (ha : (m.kernel.proc p).Accepts a) (hs : (m.kernel.proc p).StackReady i) :
    CreatePasses start m p routine a i n avail := by
  obtain ⟨k₁, hk₁, hproc, -⟩ := Create.allocpth_eq_some (p := p) (i := i) h.page.1 h.page.2
  obtain ⟨y, hy, ⟨h4, h8⟩, hgrow, hu⟩ :=
    allocUstack_ready (x := (m.kernel.proc p).allocpth i m.kernel.nextTid n) h.avail hs
  rw [← hproc] at hy
  have hthread : y.Maps thread.toNat := ⟨hgrow _ h.mapped.1, hgrow _ h.mapped.2⟩
  have hapart := h.thread_apart hu
  set sp := UInt32.ofNat (y.ustacks i) with hsp
  have hself : ∀ f : Proc → Proc, (k₁.updProc p f).proc p = f (k₁.proc p) :=
    fun f => updProc_self k₁ p f
  set m₁ := (({ m with kernel := k₁.updProc p fun _ => y }.setTf p i (m.mytf p)).zeroNew p
    (m.kernel.proc p).pgdir) with hm₁
  have hm₁p : m₁.kernel.proc p = y := hself fun _ => y
  obtain ⟨m₂, hm₂⟩ : ∃ m₂, m₁.store p (sp - 4) a = some m₂ :=
    ⟨_, store_eq_some.mpr ⟨by rwa [hm₁p], rfl⟩⟩
  obtain ⟨-, he₂⟩ := store_eq_some.mp hm₂
  have hm₂p : m₂.kernel.proc p = y := by rw [he₂]; exact hm₁p
  obtain ⟨m₃, hm₃⟩ : ∃ m₃, m₂.store p (sp - 4 - 4) start = some m₃ :=
    ⟨_, store_eq_some.mpr ⟨by rwa [hm₂p], rfl⟩⟩
  obtain ⟨-, he₃⟩ := store_eq_some.mp hm₃
  have hm₃p : m₃.kernel.proc p = y := by rw [he₃]; exact hm₂p
  obtain ⟨m₄, hm₄⟩ : ∃ m₄, (m₃.setTf p i ⟨routine, sp - 4 - 4⟩).store p thread
      (UInt32.ofInt m.kernel.nextTid) = some m₄ :=
    ⟨_, store_eq_some.mpr ⟨by rw [Machine.setTf, hm₃p]; exact hthread, rfl⟩⟩
  obtain ⟨-, he₄⟩ := store_eq_some.mp hm₄
  have htf : m₄.tf p i = ⟨routine, sp - 4 - 4⟩ := by
    rw [he₄, Machine.setTf]
    simp only [Function.update_self]
  refine ⟨{ m₄ with kernel := k₁.updProc p fun _ => y.createDone i }, ?_, ?_, ?_, ?_⟩
  · rw [sysThreadCreate_eq h, if_pos ha, Machine.threadCreate, h.slot, Option.bind_some,
      Option.bind_some, hk₁, Option.bind_some, hy, Option.bind_some]
    dsimp only
    rw [if_pos rfl, ← hm₁, ← hsp, hm₂, Option.bind_some, hm₃, Option.bind_some, hm₄]
    rfl
  · rw [hself]
    exact congrArg Pthread.state
      (Proc.updPth_self y i fun t => { t with state := .runnable, retval := 0 })
  · rw [htf]
  · -- the other two stores leave the word of the argument
    have hmaps : (y.createDone i).Maps (sp - 4).toNat := h4
    have hword : (m₄.mem p).word (sp - 4).toNat = a := by
      rw [he₄, he₃, he₂]
      simp only [Machine.setTf, Function.update_self]
      rw [Memory.word_setWord_of_apart _ _ hapart,
        Memory.word_setWord_of_apart _ _ (apart_words (sp - 4)), Memory.word_setWord]
    rw [htf]
    show Machine.load _ p (sp - 4 - 4 + 4) = some a
    rw [UInt32.sub_add_cancel, Machine.load, hself, if_pos hmaps, hword]

end

end

/-! ### The value of a zombie -/

section
variable {k : Kernel} {q : Slot} {op : Op}

/-- A slot that is not unused does not get a new thread. -/
lemma not_newTid (hk : Shape k) {i : Tidx} (h : ((k.proc q).pth i).state ≠ .unused) :
    ¬NewTid k q i op := by
  intro hnew
  cases op with
  | userinit | forkAlloc => exact h ((hk.proc q).unused (unusedSlot_state hnew.1) i)
  | threadCreate => exact h (by simpa using List.find?_some hnew.2)
  | _ => exact hnew.elim

/-- An elementary change that leaves a zombie keeps its value. -/
lemma Major.retval {x y : Proc} (hk : Shape k) (h : Major k q op x y) {i : Tidx}
    (hx : (x.pth i).state = .zombie) (hy : (y.pth i).state = .zombie) :
    (y.pth i).retval = (x.pth i).retval := by
  cases h with
  | grow h =>
    obtain ⟨r, -, rfl⟩ := Option.map_eq_some_iff.mp h
    rfl
  | commit | forkImage => rfl
  | initAllpth =>
    rw [Proc.initAllpth_pth]
    split_ifs <;> rfl
  | fsOp | sleeplocks =>
    rw [Proc.updMypth_pth]
    split_ifs with hi
    · rw [hi]
      rfl
    · rfl
  | exit =>
    dsimp only [Proc.exit]
    split_ifs <;> rfl
  | threadExit c hp _ =>
    have hwoken := calmProc_wakeup1 (k.proc q) c
    rw [Proc.threadExit_pth]
    split_ifs with hi
    · rw [hi, hwoken.onTidx] at hx
      exact absurd hx ((hwoken.pth _).live_iff.mpr (hk.live_current (Or.inl hp))).ne_zombie
    · rfl
  | allocSlot =>
    by_cases hi : i = 0
    · subst hi
      rw [Proc.allocSlot_first] at hy
      exact State.noConfusion hy
    · rw [Proc.allocSlot_pth hi]
  | allocStack =>
    by_cases hi : i = 0
    · subst hi
      rw [Proc.allocStack_first]
    · rw [Proc.allocStack_pth hi]
  | userinit =>
    by_cases hi : i = 0
    · subst hi
      rw [Proc.userinit_first] at hy
      exact State.noConfusion hy
    · rw [Proc.userinit_pth hi]
  | allocFail =>
    by_cases hi : i = 0
    · subst hi
      rw [Proc.allocFail_first] at hy
      exact State.noConfusion hy
    · rw [Proc.allocFail_pth hi]
  | forkFail =>
    by_cases hi : i = 0
    · subst hi
      rw [Proc.forkFail_first] at hy
      exact State.noConfusion hy
    · rw [Proc.forkFail_pth hi]
  | forkDone =>
    by_cases hi : i = 0
    · subst hi
      rw [Proc.forkDone_first] at hy
      exact State.noConfusion hy
    · rw [Proc.forkDone_pth hi]
  | reap => exact State.noConfusion hy
  | @created j n avail ok _ y hp hc =>
    rw [hc.pth]
    split_ifs with hi
    · subst hi
      have hu : ((k.proc q).pth i).state = .unused := by simpa using List.find?_some hc.find
      exact State.noConfusion (hu.symm.trans hx)
    · rfl
  | @joinPth _ j =>
    by_cases hi : i = j
    · subst hi
      rw [Proc.joinPth, Proc.updPth_self] at hy
      exact State.noConfusion hy
    · rw [Proc.joinPth, Proc.updPth_of_ne _ _ hi]

/-- A step that leaves a zombie keeps its value. -/
lemma Step.retval {k' : Kernel} (hk : Shape k) (h : Step k op k') {i : Tidx}
    (hz : ((k.proc q).pth i).state = .zombie) (hz' : ((k'.proc q).pth i).state = .zombie) :
    ((k'.proc q).pth i).retval = ((k.proc q).pth i).retval := by
  have hnew : ¬NewTid k q i op := not_newTid hk (by rw [hz]; decide)
  refine (Changes.lift (R := fun x y => TidKept k q i op (x.pth i) (y.pth i) ∧
    ((x.pth i).state = .zombie → (y.pth i).state = .zombie →
      (y.pth i).retval = (x.pth i).retval)) ?_ ?_ ?_ (h.changes hk q)).2 hz hz'
  · exact fun x => ⟨tidKept_of_eq rfl rfl, fun _ _ => rfl⟩
  · rintro x y z ⟨ht, hxy⟩ ⟨ht', hyz⟩
    refine ⟨ht.trans ht', fun hx hz => ?_⟩
    -- in between the slot is a zombie too, since it cannot be used anew
    have hy : (y.pth i).state = .zombie := by
      cases ht with
      | kept _ hzom _ => exact hzom hx
      | new hn _ => exact absurd hn hnew
      | unused hu =>
        cases ht' with
        | unused hu' => exact State.noConfusion (hu'.symm.trans hz)
        | kept hne _ _ => exact absurd hu hne
        | new hn _ => exact absurd hn hnew
    exact (hyz hy hz).trans (hxy hx hy)
  · intro x y hxy
    rcases hxy.still_or hk with h | h
    · exact ⟨(h.pth i).tidKept, fun _ _ => (h.pth i).retval⟩
    · exact ⟨h.tidKept hk i, fun hx hy => h.retval hk hx hy⟩

end

/-! ### The return value -/

section
variable {m : Machine} {p : Slot} {v : UInt32}

/-- The thread that exits is a zombie with its value. -/
lemma threadExit_self (k : Kernel) (p : Slot) (v : UInt32) :
    (((k.threadExit p v).proc p).pth (k.proc p).onTidx).state = .zombie ∧
      (((k.threadExit p v).proc p).pth (k.proc p).onTidx).retval = v := by
  have hself : (k.threadExit p v).proc p =
      ((k.proc p).wakeup1 (.word (k.proc p).mypth.tid)).threadExit v :=
    updProc_self (k.wakeup1 (.word (k.proc p).mypth.tid)) p fun x => x.threadExit v
  have hon : ((k.proc p).wakeup1 (.word (k.proc p).mypth.tid)).onTidx = (k.proc p).onTidx :=
    Proc.wakeup1_onTidx _ _
  rw [hself, Proc.threadExit_pth, if_pos hon.symm]
  exact ⟨rfl, rfl⟩

/-- As long as the thread is not joined it keeps its value. -/
lemma zombie_run {k₀ k : Kernel} (hk₀ : Shape k₀) {i : Tidx}
    (hv : ((k₀.proc p).pth i).retval = v)
    (h : Reachable (· = k₀) (Guarded Step fun k _ => ((k.proc p).pth i).state = .zombie) k) :
    ((k.proc p).pth i).state = .zombie → ((k.proc p).pth i).retval = v := by
  refine (Reachable.invariant (I := fun k => Shape k ∧
    (((k.proc p).pth i).state = .zombie → ((k.proc p).pth i).retval = v)) ?_ ?_ h).2
  · rintro _ rfl
    exact ⟨hk₀, fun _ => hv⟩
  · rintro s op s' ⟨hs, hsv⟩ ⟨hstep, hz⟩
    exact ⟨hs.step hstep, fun hz' => (hstep.retval hs hz hz').trans (hsv hz)⟩

/-- A join that returns zero stores the value of the zombie it has found. -/
lemma threadJoin_load {m₂ m₃ : Machine} {q : Slot} {t : ℤ} {retval : UInt32} {havepth : Bool}
    {i : Tidx} (hscan : m₂.kernel.joinScan t = some (p, i))
    (hjoin : m₂.threadJoin q t retval havepth = some (some 0, m₃)) :
    ((m₂.kernel.proc p).pth i).state = .zombie ∧
      m₃.load q retval = some ((m₂.kernel.proc p).pth i).retval := by
  unfold Machine.threadJoin at hjoin
  cases hround : m₂.kernel.threadJoin q t havepth with
  | mk o k =>
    rw [hround] at hjoin
    have hfst : (m₂.kernel.threadJoin q t havepth).1 = o := congrArg Prod.fst hround
    cases o with
    | none =>
      have hret := congrArg Prod.fst (Option.some.inj hjoin)
      dsimp only at hret
      split_ifs at hret
      exact absurd hret (by simp)
    | some r =>
      obtain ⟨m', hstore, he⟩ := Option.map_eq_some_iff.mp hjoin
      obtain rfl : m' = m₃ := congrArg Prod.snd he
      rw [Kernel.threadJoin, hscan] at hfst
      dsimp only at hfst
      split_ifs at hfst with hz
      obtain rfl := Option.some.inj hfst
      exact ⟨hz, load_store hstore⟩

/-- `thread_exit` of a value that could be an address. -/
lemma Calls.exitPasses (h : Calls m p) (hv : m.argint p 0 = some (some v))
    (ha : (m.kernel.proc p).Accepts v) : ExitPasses m p v := by
  have hsys : m.sysThreadExit p = some (none, { m with kernel := m.kernel.threadExit p v }) := by
    rw [Machine.sysThreadExit, argptr_eq hv, if_pos ha]
    rfl
  obtain ⟨hz, hretval⟩ := threadExit_self m.kernel p v
  have hstep : Step m.kernel (.threadExit v) (m.kernel.threadExit p v) :=
    syscall_eq_some.mpr ⟨p, h.cpu, h.ready, rfl⟩
  refine ⟨_, hsys, hz, fun m₂ hm₂ q t retval havepth m₃ hscan hjoin => ?_⟩
  obtain ⟨hz₂, hload⟩ := threadJoin_load hscan hjoin
  rw [hload, zombie_run (h.reach.shape.step hstep) hretval hm₂ hz₂]

/-- `thread_exit` of any other value returns. -/
lemma sysThreadExit_rejects (hv : m.argint p 0 = some (some v))
    (ha : ¬(m.kernel.proc p).Accepts v) : m.sysThreadExit p = some (some (-1), m) := by
  rw [Machine.sysThreadExit, argptr_eq hv, if_neg ha]
  rfl

/-- **When the words pass**: a new thread gets its argument if and only if the argument could be
the address of four bytes of the process and there is a stack for the thread; and a thread ends
with its return value if and only if the value could be such an address. -/
theorem words_pass_iff (h : Calls m p) :
    (∀ start thread routine a i n avail, CreateCall m p thread routine a i n avail →
      (CreatePasses start m p routine a i n avail ↔
        (m.kernel.proc p).Accepts a ∧ (m.kernel.proc p).StackReady i)) ∧
    ∀ v, m.argint p 0 = some (some v) → (ExitPasses m p v ↔ (m.kernel.proc p).Accepts v) := by
  refine ⟨fun start thread routine a i n avail hcall => ⟨?_, fun ha => hcall.passes ha.1 ha.2⟩,
    fun v hv => ⟨?_, h.exitPasses hv⟩⟩
  · rintro ⟨m', hm', -⟩
    rw [sysThreadCreate_eq hcall] at hm'
    split_ifs at hm' with ha
    · exact ⟨ha, hcall.stackReady hm'⟩
    · have hret := congrArg Prod.fst (Option.some.inj hm')
      exact absurd hret (by simp)
  · rintro ⟨m', hm', -⟩
    by_contra ha
    rw [sysThreadExit_rejects hv ha] at hm'
    have hret := congrArg Prod.fst (Option.some.inj hm')
    exact absurd hret (by simp)

end

/-! ### Two calls -/

/-- A machine whose processes have the memory `mem`, and whose stack pointers are zero. -/
def Machine.sample (k : Kernel) (mem : Memory) : Machine :=
  ⟨k, fun _ => mem, fun _ _ => ⟨0, 0⟩⟩

/-- The first process runs, with one page. -/
structure FirstRuns (k : Kernel) : Prop where
  reach : Reach k
  cpu : k.cpu = .run 0
  ready : (k.proc 0).mypth.Ready
  slot : (tidxs.find? fun i => ((k.proc 0).pth i).state = .unused) = some 1
  page : k.kmem 2 = none
  ustack : (k.proc 0).ustacks 1 = 0
  sz : (k.proc 0).sz = PGSIZE
  low : (k.proc 0).pgdir 0 = true
  high : (k.proc 0).pgdir 1 = false

lemma exists_firstRuns : ∃ k, FirstRuns k := by
  have hrun : ((run step Kernel.pinit [.userinit 1, .pass]).any fun k =>
      decide (k.cpu = .run 0 ∧ (k.proc 0).mypth.Ready ∧
        (tidxs.find? fun i => ((k.proc 0).pth i).state = .unused) = some 1 ∧ k.kmem 2 = none ∧
        (k.proc 0).ustacks 1 = 0 ∧ (k.proc 0).sz = PGSIZE ∧ (k.proc 0).pgdir 0 = true ∧
        (k.proc 0).pgdir 1 = false)) = true := by
    decide +kernel
  obtain ⟨k, hk, hall⟩ := (Option.any_eq_true _ _).mp hrun
  obtain ⟨h₁, h₂, h₃, h₄, h₅, h₆, h₇, h₈⟩ := of_decide_eq_true hall
  exact ⟨k, Reachable.run (fun _ _ _ hs => hs) (.start rfl) hk, h₁, h₂, h₃, h₄, h₅, h₆, h₇, h₈⟩

/-- An argument of a system call in the first page. -/
lemma FirstRuns.argint {k : Kernel} (h : FirstRuns k) (mem : Memory) {n : UInt32} (hn : n < 3) :
    (Machine.sample k mem).argint 0 n = some (some (mem.word (4 + 4 * n).toNat)) := by
  have hlt : n.toNat < 3 := hn
  have hfour : (4 : UInt32).toNat = 4 := rfl
  have haddr : (4 + 4 * n).toNat = 4 + 4 * n.toNat := by
    rw [UInt32.toNat_add, UInt32.toNat_mul, hfour]
    omega
  have hnext : (4 + 4 * n + 4).toNat = 8 + 4 * n.toNat := by
    rw [UInt32.toNat_add, haddr, hfour]
    omega
  have hmaps : (k.proc 0).Maps (4 + 4 * n).toNat := by
    have hpage : ∀ a < PGSIZE, (k.proc 0).pgdir (a / PGSIZE) = true := by
      intro a ha
      rw [Nat.div_eq_of_lt ha, h.low]
    simp only [PGSIZE] at hpage
    rw [haddr]
    exact ⟨hpage _ (by omega), hpage _ (by omega)⟩
  have hload : (Machine.sample k mem).load 0 (4 + 4 * n) =
      some (mem.word (4 + 4 * n).toNat) := if_pos hmaps
  have hbound : ¬((k.proc 0).sz ≤ (4 + 4 * n).toNat ∨ (k.proc 0).sz < (4 + 4 * n + 4).toNat) := by
    rw [h.sz, haddr, hnext]
    simp only [PGSIZE]
    omega
  have hesp : ((Machine.sample k mem).mytf 0).esp + 4 + 4 * n = 4 + 4 * n := by
    show 0 + 4 + 4 * n = 4 + 4 * n
    rw [UInt32.zero_add]
  rw [Machine.argint, hesp]
  exact (if_neg hbound).trans (by rw [hload, Option.map_some])

lemma FirstRuns.calls {k : Kernel} (h : FirstRuns k) (mem : Memory) :
    Calls (Machine.sample k mem) 0 :=
  ⟨h.reach, h.cpu, h.ready⟩

/-- The arguments `100`, `200` and `7`. -/
def argMem : Memory := fun a => if a = 4 then 100 else if a = 8 then 200 else if a = 12 then 7 else 0

/-- The argument `-1`. -/
def minusOneMem : Memory := fun _ => 255

/-- The first process creates a thread with argument 7; or it exits with value 100. -/
theorem words_pass_iff_first : ∃ m, Calls m 0 ∧ CreateCall m 0 100 200 7 1 2 1 ∧
    CreatePasses 0 m 0 200 7 1 2 1 ∧ m.argint 0 0 = some (some 100) ∧ ExitPasses m 0 100 := by
  obtain ⟨k, hk⟩ := exists_firstRuns
  have hcalls := hk.calls argMem
  have hargs : (Machine.sample k argMem).argint 0 0 = some (some 100) ∧
      (Machine.sample k argMem).argint 0 1 = some (some 200) ∧
      (Machine.sample k argMem).argint 0 2 = some (some 7) := by
    refine ⟨?_, ?_, ?_⟩
    · rw [hk.argint _ (by decide)]
      decide
    · rw [hk.argint _ (by decide)]
      decide
    · rw [hk.argint _ (by decide)]
      decide
  have haccepts : ∀ w : UInt32, w.toNat < 4000 → (k.proc 0).Accepts w := by
    intro w hw
    have hfour : (4 : UInt32).toNat = 4 := rfl
    rw [Proc.Accepts, hk.sz, UInt32.toNat_add, hfour]
    simp only [PGSIZE]
    omega
  have hcreate : CreateCall (Machine.sample k argMem) 0 100 200 7 1 2 1 := by
    refine ⟨?_, ?_, hargs.2.2, hk.slot, ⟨by decide, hk.page⟩, by decide, ?_, ?_⟩
    · rw [argptr_eq hargs.1]
      exact congrArg some (if_pos (haccepts 100 (by decide)))
    · rw [argptr_eq hargs.2.1]
      exact congrArg some (if_pos (haccepts 200 (by decide)))
    · exact ⟨hk.low, hk.low⟩
    · exact fun hne => absurd hk.ustack hne
  have hstack : (k.proc 0).StackReady 1 := by
    rw [Proc.StackReady, if_pos hk.ustack, hk.sz]
    exact ⟨by decide, hk.high⟩
  have hiff := words_pass_iff hcalls
  exact ⟨_, hcalls, hcreate,
    (hiff.1 0 100 200 7 1 2 1 hcreate).mpr ⟨haccepts 7 (by decide), hstack⟩, hargs.1,
    (hiff.2 100 hargs.1).mpr (haccepts 100 (by decide))⟩

/-- `thread_exit` of `-1` returns. -/
theorem not_words_pass : ¬∀ m p, Calls m p →
    (∀ start thread routine a i n avail, CreateCall m p thread routine a i n avail →
      CreatePasses start m p routine a i n avail) ∧
    ∀ v, m.argint p 0 = some (some v) → ExitPasses m p v := by
  intro hall
  obtain ⟨k, hk⟩ := exists_firstRuns
  have harg : (Machine.sample k minusOneMem).argint 0 0 = some (some 0xffffffff) := by
    rw [hk.argint _ (by decide)]
    decide
  obtain ⟨m', hm', -⟩ := (hall _ 0 (hk.calls minusOneMem)).2 _ harg
  have hrejects : ¬(k.proc 0).Accepts 0xffffffff := by
    rw [Proc.Accepts, hk.sz]
    decide
  rw [sysThreadExit_rejects harg hrejects] at hm'
  have hret := congrArg Prod.fst (Option.some.inj hm')
  exact absurd hret (by simp)

end Xv6Projects.Threads
