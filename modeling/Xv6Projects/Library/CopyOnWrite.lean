import Mathlib.Data.Finset.Card

/-!
# Copies of a shared value

A group shares a value.  A member that writes for the first time gets a copy, unless no other
member has the original: then it keeps the original.  Members may leave at any time.  When all
have written before anyone leaves, there is one copy less than there are members, and the last
one to write has the original.
-/

namespace Xv6Projects.Library

/-- A value that a group shares. -/
structure Shared (α : Type*) where
  /-- Who has not left. -/
  members : Finset α
  /-- Who has the original. -/
  owners : Finset α
  /-- Who has written, the last first write in front. -/
  writers : List α
  copies : ℕ

variable {α : Type*} {A : Finset α} {s : Shared α} {c : α}

namespace Shared

/-- The group before the first write. -/
def start (A : Finset α) : Shared α := ⟨A, A, [], 0⟩

/-- **The invariant** of a group that was `A`: who has not written has the original; a writer that
has it is the only one, and the last that wrote; and while nobody has left, the copies are those of
the members that do not have the original. -/
structure Sound (A : Finset α) (s : Shared α) : Prop where
  group : s.members ⊆ A
  owners : s.owners ⊆ s.members
  fresh : ∀ i ∈ s.members, i ∉ s.writers → i ∈ s.owners
  last : ∀ i ∈ s.owners, i ∈ s.writers → s.owners = {i} ∧ s.writers.head? = some i
  count : s.members = A → s.copies + s.owners.card = A.card
  kept : A.Nonempty → s.members = A → s.owners.Nonempty

lemma Sound.start (A : Finset α) : (start A).Sound A :=
  ⟨Finset.Subset.rfl, Finset.Subset.rfl, fun _ hi _ => hi,
    fun _ _ hi => absurd hi List.not_mem_nil, fun _ => Nat.zero_add _, fun hA _ => hA⟩

/-- **When all have written before anyone left**, one of them has the original: the last that wrote
for the first time. -/
theorem Sound.all_written (h : s.Sound A) (hA : A.Nonempty) (hall : s.members = A)
    (hw : ∀ i ∈ A, i ∈ s.writers) :
    s.copies = A.card - 1 ∧ ∃ i, s.writers.head? = some i ∧ s.owners = {i} := by
  obtain ⟨i, hi⟩ := h.kept hA hall
  obtain ⟨hsingle, hhead⟩ := h.last i hi (hw i (h.group (h.owners hi)))
  have hcount := h.count hall
  rw [hsingle, Finset.card_singleton] at hcount
  exact ⟨by omega, i, hhead, hsingle⟩

variable [DecidableEq α]

/-- The first write of `c`, while another member has the original. -/
def Copies (s : Shared α) (c : α) : Prop := c ∉ s.writers ∧ (s.owners.erase c).Nonempty

instance (s : Shared α) (c : α) : Decidable (s.Copies c) := inferInstanceAs (Decidable (_ ∧ _))

/-- Member `c` writes. -/
def write (s : Shared α) (c : α) : Shared α where
  members := s.members
  owners := if s.Copies c then s.owners.erase c else s.owners
  writers := if c ∈ s.writers then s.writers else c :: s.writers
  copies := if s.Copies c then s.copies + 1 else s.copies

/-- The members outside `keep` leave. -/
def stay (s : Shared α) (keep : Finset α) : Shared α :=
  { s with members := s.members ∩ keep, owners := s.owners ∩ keep }

/-- A later write changes nothing. -/
lemma write_again (hold : c ∈ s.writers) : s.write c = s := by
  have hno : ¬s.Copies c := fun h => h.1 hold
  simp only [write, if_neg hno, if_pos hold]

lemma write_copy (h : s.Copies c) : s.write c =
    ⟨s.members, s.owners.erase c, c :: s.writers, s.copies + 1⟩ := by
  simp only [write, if_pos h, if_neg h.1]

lemma write_alone (h : ¬s.Copies c) (hnew : c ∉ s.writers) : s.write c =
    ⟨s.members, s.owners, c :: s.writers, s.copies⟩ := by
  simp only [write, if_neg h, if_neg hnew]

/-- A member that writes for the first time, and no other has the original. -/
lemma Sound.owners_eq (h : s.Sound A) (hc : c ∈ s.members) (hnew : c ∉ s.writers)
    (halone : ¬s.Copies c) : s.owners = {c} := by
  have hempty : s.owners.erase c = ∅ :=
    Finset.not_nonempty_iff_eq_empty.mp fun hne => halone ⟨hnew, hne⟩
  rw [← Finset.insert_erase (h.fresh c hc hnew), hempty]
  rfl

lemma Sound.write (h : s.Sound A) (hc : c ∈ s.members) : (s.write c).Sound A := by
  by_cases hold : c ∈ s.writers
  · rw [write_again hold]
    exact h
  have howner := h.fresh c hc hold
  by_cases hcopies : s.Copies c
  · rw [write_copy hcopies]
    refine ⟨h.group, (Finset.erase_subset _ _).trans h.owners, fun i hi hnew => ?_,
      fun i hi hw => ?_, fun hall => ?_, fun _ _ => hcopies.2⟩
    · obtain ⟨hne, hnew⟩ := not_or.mp (List.mem_cons.not.mp hnew)
      exact Finset.mem_erase.mpr ⟨hne, h.fresh i hi hnew⟩
    · -- the others that have the original have not written
      obtain ⟨hne, hi⟩ := Finset.mem_erase.mp hi
      have hsingle := (h.last i hi ((List.mem_cons.mp hw).resolve_left hne)).1
      rw [hsingle, Finset.mem_singleton] at howner
      exact absurd howner.symm hne
    · have hcount := h.count hall
      have hcard := Finset.card_erase_add_one howner
      show s.copies + 1 + (s.owners.erase c).card = A.card
      omega
  · have hsingle := h.owners_eq hc hold hcopies
    rw [write_alone hcopies hold]
    refine ⟨h.group, h.owners, fun i hi hnew => ?_, fun i hi hw => ?_, h.count, h.kept⟩
    · exact h.fresh i hi (not_or.mp (List.mem_cons.not.mp hnew)).2
    · rw [hsingle, Finset.mem_singleton] at hi
      subst hi
      exact ⟨hsingle, rfl⟩

lemma Sound.stay (h : s.Sound A) (keep : Finset α) : (s.stay keep).Sound A := by
  -- who has left does not come back
  have hall : s.members ∩ keep = A → s.members = A ∧ s.owners ∩ keep = s.owners := fun heq => by
    have hkeep : A ⊆ keep := heq ▸ Finset.inter_subset_right
    have hmembers : s.members = A := h.group.antisymm (heq ▸ Finset.inter_subset_left)
    exact ⟨hmembers, Finset.inter_eq_left.mpr ((h.owners.trans h.group).trans hkeep)⟩
  refine ⟨Finset.inter_subset_left.trans h.group, Finset.inter_subset_inter_right h.owners,
    fun i hi hnew => ?_, fun i hi hw => ?_, fun heq => ?_, fun hA heq => ?_⟩
  · obtain ⟨hi, hkeep⟩ := Finset.mem_inter.mp hi
    exact Finset.mem_inter.mpr ⟨h.fresh i hi hnew, hkeep⟩
  · obtain ⟨hown, hkeep⟩ := Finset.mem_inter.mp hi
    obtain ⟨hsingle, hhead⟩ := h.last i hown hw
    refine ⟨?_, hhead⟩
    show s.owners ∩ keep = {i}
    rw [hsingle, Finset.singleton_inter_of_mem hkeep]
  · obtain ⟨hmembers, howners⟩ := hall heq
    show s.copies + (s.owners ∩ keep).card = A.card
    rw [howners]
    exact h.count hmembers
  · obtain ⟨hmembers, howners⟩ := hall heq
    show (s.owners ∩ keep).Nonempty
    rw [howners]
    exact h.kept hA hmembers

end Shared

end Xv6Projects.Library
