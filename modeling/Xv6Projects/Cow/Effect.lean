import Xv6Projects.Cow.Spec

/-!
# What an operation does

The effect of an operation on the processes and on the pages that they hold.  The invariants of
the runs are kept by each effect, and so by each operation but an access, which is a loop of page
faults.
-/

namespace Xv6Projects.Cow

open Library Vm

/-- The process whose page table the page table of process `i` goes back to, when an operation
returns `r`: after a successful `exec` it is a new one. -/
def origin (k : Kernel) (op : Op) (r : Reply) (i : Slot) : Option Slot :=
  match op with
  | .exec c _ _ => if i = c ∧ r = .value 0 then none else some i
  | .fork c => if (k.proc i).state = .unused then some c else some i
  | _ => some i

variable [Layout]

/-- **The effect** of an operation other than an access. -/
inductive Effect (k k' : Kernel) : Op → Reply → Prop
  /-- The processes are the same, and no page in use gets a holder. -/
  | same {op : Op} {r : Reply} (horigin : ∀ i, origin k op r i = some i) (hproc : k'.proc = k.proc)
      (hle : ∀ g, 0 < k.holders g → k'.holders g ≤ k.holders g) : Effect k k' op r
  /-- The first process. -/
  | booted {init : List UInt8} (i : Slot) (f : ℕ) (d : PageDir) (m' : Mem Kmem)
      (hi : (k.proc i).state = .unused) (hk : k' = k.booted i f d m')
      (hg : Grows k.holders k'.holders k.mem m')
      (hown : Private k'.holders d (Space.initial init)) : Effect k k' (.userinit init) .nothing
  /-- A child. -/
  | forked {c : Slot} (i : Slot) (f : ℕ) (d d' child : PageDir) (m' : Mem Kmem)
      (hi : (k.proc i).state = .unused) (hfork : Forked k k' c i f d d' child m') :
      Effect k k' (.fork c) (.value k.nextpid)
  /-- A new address space, in pages that nobody held. -/
  | image {c : Slot} {file : Option Elf} {argv : List (List UInt8)} (elf : Elf) (s : Space)
      (d d' : PageDir) (m' : Mem Kmem) (himage : Space.image elf argv = some s)
      (hd : (k.proc c).pgdir = some d) (hk : k' = k.setSpace c m' d' s.sz) (hshows : Shows m' d' s)
      (hown : Private k'.holders d' s) (hfresh : ∀ g, 0 < k.holders g → holds d' g = 0) :
      Effect k k' (.exec c file argv) (.value 0)
  /-- An address space of another size. -/
  | resized {c : Slot} {n r : ℤ} (d d' : PageDir) (sz' : ℕ) (m' : Mem Kmem)
      (hd : (k.proc c).pgdir = some d) (hk : k' = k.setSpace c m' d' sz')
      (hr : Resized n k.holders k'.holders d d' (k.proc c).sz sz' k.mem m' r) :
      Effect k k' (.sbrk c n) (.value r)
  /-- A zombie. -/
  | exited {c : Slot} (hk : k' = k.exited c) : Effect k k' (.exit c) .nothing
  /-- A zombie is gone. -/
  | reaped {c : Slot} {r : Reply} (i : Slot) (m' : Mem Kmem) (hk : k' = k.reaped i m') :
      Effect k k' (.wait c) r

variable {R : Set ℕ} {k : Kernel}

omit [Layout] in
lemma Op.access_or (op : Op) : (∃ c va user a n, op = .access c va user a n) ∨
    ∀ c va user a n, op ≠ .access c va user a n := by
  cases op with
  | access c va user a n => exact Or.inl ⟨c, va, user, a, n, rfl⟩
  | _ => exact Or.inr fun _ _ _ _ _ => nofun

omit [Layout] in
lemma setSpace_same {c : Slot} {d : PageDir} (hd : (k.proc c).pgdir = some d) (m : Mem Kmem) :
    (k.setSpace c m d (k.proc c).sz).proc = k.proc := by
  have hp : ({ k.proc c with pgdir := some d, sz := (k.proc c).sz } : Proc) = k.proc c := by
    rw [← hd]
  rw [Kernel.setSpace, Kernel.setProc_proc]
  exact (congrArg _ hp).trans (Function.update_eq_self c k.proc)

/-- **Every operation** but an access keeps the invariant, and has its effect. -/
theorem perform_effect (hR : ∀ f ∈ R, Kmem.Usable f) (h : Inv R k) {op : Op} (he : Enabled k op)
    (hop : ∀ c va user a n, op ≠ .access c va user a n) :
    Wp (perform op) Clean (fun r k' => Inv R k' ∧ Effect k k' op r) k := by
  have hclean : ∀ e, NoPage e → Clean e := fun _ => NoPage.clean
  have hnull : Clean .nullDeref := by simp [Clean, Err.FromAllocator]
  have hpanic : ∀ msg, ¬(Err.panic msg).FromAllocator → Clean (.panic msg) :=
    fun msg hmsg hf => absurd hf hmsg
  cases op with
  | kvmalloc =>
    refine ((kvmalloc_spec hR h he).mono (fun _ _ h => h) hclean).bind fun _ k' hk' => wp_pure ?_
    obtain ⟨hinv, hproc, -, -, hg⟩ := hk'
    exact ⟨hinv, .same (fun _ => rfl) hproc fun g hg' => (hg.count g hg').le⟩
  | userinit init =>
    refine (userinit_spec hR hclean h init (fun _ => hpanic _ ?_) fun _ => hnull).bind
      fun _ k' hk' => wp_pure ?_
    · simp [Err.FromAllocator]
    · obtain ⟨hinv, i, f, d, m', hi, hk, hg, -, hown⟩ := hk'
      exact ⟨hinv, .booted i f d m' (slots_find hi) hk hg hown⟩
  | fork c =>
    obtain ⟨f, d, -, hd, -⟩ := h.live (c := c) (by rw [he]; simp)
    refine (fork_spec hR h he hd ⟨hclean, fun _ _ => id⟩).bind fun r k' hk' => wp_pure ?_
    obtain ⟨hinv, ⟨rfl, hnone, rfl⟩ | ⟨i, f', d', child, m', rfl, hi, hfork⟩⟩ := hk'
    · -- no slot is unused
      exact ⟨hinv, .same (fun i => if_neg (slots_find_none hnone i)) rfl fun _ _ => le_rfl⟩
    · exact ⟨hinv, .forked i f' d d' child m' (slots_find hi) hfork⟩
  | exec c file argv =>
    refine (exec_spec hR hclean h he file argv fun _ _ _ => hnull).bind
      fun r k' hk' => wp_pure ?_
    obtain ⟨hinv, d, d', sz', m', hd, hk, himage⟩ := hk'
    cases hb : file.bind fun elf => Space.image elf argv with
    | none =>
      rw [hb] at himage
      obtain ⟨rfl, rfl, rfl, hg⟩ := himage
      refine ⟨hinv, .same (fun i => if_neg fun hc => ?_) (hk ▸ setSpace_same hd m')
        fun g hg' => (hg.count g hg').le⟩
      exact absurd hc.2 (by simp)
    | some s =>
      rw [hb] at himage
      obtain ⟨rfl, rfl, hshows, hown, -, hfresh⟩ := himage
      obtain ⟨elf, -, hs⟩ := Option.bind_eq_some_iff.mp hb
      exact ⟨hinv, .image elf s d d' m' hs hd hk hshows hown hfresh⟩
  | sbrk c n =>
    refine ((growproc_spec hR h he.1 he.2.1 he.2.2).mono (fun _ _ h => h) hclean).bind
      fun r k' hk' => wp_pure ?_
    obtain ⟨hinv, d, d', sz', m', hd, hk, hr⟩ := hk'
    exact ⟨hinv, .resized d d' sz' m' hd hk hr⟩
  | access c va user a n => exact absurd rfl (hop c va user a n)
  | pipealloc c files =>
    refine ((pipealloc_spec hR h files).mono (fun _ _ h => h) hclean).bind
      fun _ k' hk' => wp_pure ?_
    obtain ⟨hinv, hproc, -, -, hg⟩ := hk'
    exact ⟨hinv, .same (fun _ => rfl) hproc fun g hg' => (hg.count g hg').le⟩
  | pipeclose c f writable =>
    obtain ⟨-, p, hp, -⟩ := he
    refine ((pipeclose_spec hR h hp writable).mono (fun _ _ h => h) hclean).bind
      fun _ k' hk' => wp_pure ?_
    obtain ⟨hinv, hproc, -, -, hs⟩ := hk'
    exact ⟨hinv, .same (fun _ => rfl) hproc fun g _ => hs.count g⟩
  | exit c =>
    refine (exit_spec h he fun _ => hpanic _ ?_).bind fun _ k' hk' => wp_pure ?_
    · simp [Err.FromAllocator]
    · exact ⟨hk'.1, .exited hk'.2⟩
  | wait c =>
    refine ((wait_spec hR h).mono (fun _ _ h => h) hclean).bind fun r k' hk' => wp_pure ?_
    obtain ⟨hinv, ⟨rfl, -, rfl⟩ | ⟨i, m', rfl, -, hk, -⟩⟩ := hk'
    · exact ⟨hinv, .same (fun _ => rfl) rfl fun _ _ => le_rfl⟩
    · exact ⟨hinv, .reaped i m' hk⟩

end Xv6Projects.Cow
