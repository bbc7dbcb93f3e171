import Mathlib.Algebra.Order.BigOperators.Group.Finset

/-!
# Sums that change at one index

Counting over a finite table whose entries are updated one at a time: the sum changes by
what the updated entry contributed before and contributes now.
-/

namespace Xv6Projects.Library

open Finset

variable {ι M : Type*} [DecidableEq ι] [AddCommMonoid M]

/-- Two functions that agree outside `i` have sums that differ as the functions do at `i`. -/
theorem sum_add_of_eq_off {s : Finset ι} {i : ι} (hi : i ∈ s) {f g : ι → M}
    (h : ∀ j ∈ s, j ≠ i → f j = g j) : ∑ j ∈ s, f j + g i = ∑ j ∈ s, g j + f i := by
  have herase : ∑ j ∈ s.erase i, f j = ∑ j ∈ s.erase i, g j := by
    refine sum_congr rfl fun j hj => ?_
    obtain ⟨hne, hmem⟩ := mem_erase.mp hj
    exact h j hmem hne
  calc ∑ j ∈ s, f j + g i
      = f i + ∑ j ∈ s.erase i, f j + g i := by rw [add_sum_erase s f hi]
    _ = f i + (g i + ∑ j ∈ s.erase i, g j) := by rw [herase, add_assoc, add_comm (g i)]
    _ = ∑ j ∈ s, g j + f i := by rw [add_sum_erase s g hi, add_comm]

/-- The same over a whole finite type. -/
theorem sum_univ_add_of_eq_off [Fintype ι] {f g : ι → M} (i : ι) (h : ∀ j, j ≠ i → f j = g j) :
    ∑ j, f j + g i = ∑ j, g j + f i :=
  sum_add_of_eq_off (mem_univ i) fun j _ hj => h j hj

/-- Two entries of a table of numbers are at most the sum. -/
theorem add_le_sum_univ [Fintype ι] (f : ι → ℕ) {i j : ι} (h : i ≠ j) : f i + f j ≤ ∑ k, f k := by
  rw [← sum_pair h]
  exact sum_le_sum_of_subset (subset_univ _)

omit [DecidableEq ι] in
/-- An entry of a table of numbers is at most the sum. -/
theorem le_sum_univ [Fintype ι] (f : ι → ℕ) (i : ι) : f i ≤ ∑ k, f k :=
  single_le_sum (fun k _ => Nat.zero_le (f k)) (mem_univ i)

end Xv6Projects.Library
