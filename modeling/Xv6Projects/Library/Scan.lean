import Mathlib.Data.Prod.Lex
import Mathlib.Data.List.Basic
import Mathlib.Order.Basic

/-!
# Scanning a list for its best element

A loop that runs once over a list and keeps the best element seen so far, replacing it
only by a strictly better one.  When "better" compares a key in a linear order, the loop
returns an element of least key, and among those the first one.
-/

namespace Xv6Projects.Library

variable {α κ : Type*}

/-- Keep the best element so far: `x` replaces it only when it is strictly better. -/
def keepBest (better : α → α → Bool) : Option α → α → Option α
  | none, x => some x
  | some b, x => if better x b then some x else some b

@[simp] lemma keepBest_none (better : α → α → Bool) (x : α) :
    keepBest better none x = some x := rfl

@[simp] lemma keepBest_some (better : α → α → Bool) (b x : α) :
    keepBest better (some b) x = if better x b then some x else some b := rfl

variable [LinearOrder α] [LinearOrder κ] {better : α → α → Bool} {key : α → κ}

/-- Scanning an increasing list that starts above the best element so far. -/
lemma foldl_keepBest_some (hbetter : ∀ x b, better x b = true ↔ key x < key b) (l : List α) :
    ∀ b, (∀ x ∈ l, b < x) → l.Pairwise (· < ·) →
      ∃ r ∈ b :: l, l.foldl (keepBest better) (some b) = some r ∧
        ∀ x ∈ b :: l, toLex (key r, r) ≤ toLex (key x, x) := by
  induction l with
  | nil => exact fun b _ _ => ⟨b, by simp, rfl, by simp⟩
  | cons x l ih =>
    intro b hb hl
    obtain ⟨hxl, hl'⟩ := List.pairwise_cons.mp hl
    have hbx : b < x := hb x (by simp)
    simp only [List.foldl_cons, keepBest_some]
    by_cases hkey : key x < key b
    · -- `x` becomes the best element
      rw [if_pos ((hbetter x b).mpr hkey)]
      obtain ⟨r, hr, hfold, hmin⟩ := ih x hxl hl'
      refine ⟨r, List.mem_cons_of_mem _ hr, hfold, ?_⟩
      intro y hy
      rcases List.mem_cons.mp hy with rfl | hy
      · refine (hmin x (by simp)).trans ?_
        exact Prod.Lex.toLex_le_toLex.mpr (Or.inl hkey)
      · exact hmin y hy
    · -- `b` stays
      rw [if_neg (by simpa [hbetter] using hkey)]
      obtain ⟨r, hr, hfold, hmin⟩ := ih b (fun y hy => hbx.trans (hxl y hy)) hl'
      refine ⟨r, ?_, hfold, ?_⟩
      · rcases List.mem_cons.mp hr with rfl | hr
        · simp
        · simp [hr]
      · intro y hy
        rcases List.mem_cons.mp hy with rfl | hy
        · exact hmin _ (by simp)
        · rcases List.mem_cons.mp hy with rfl | hy
          · refine (hmin b (by simp)).trans ?_
            refine Prod.Lex.toLex_le_toLex.mpr ?_
            rcases (not_lt.mp hkey).lt_or_eq with h | h
            · exact Or.inl h
            · exact Or.inr ⟨h, hbx.le⟩
          · exact hmin y (List.mem_cons_of_mem _ hy)

variable (key) in
/-- What the scan of an increasing list returns is the least element in the order of the
keys, the earlier element first among equal keys. -/
theorem isLeast_of_foldl_keepBest (hbetter : ∀ x b, better x b = true ↔ key x < key b)
    {l : List α} (hl : l.Pairwise (· < ·)) {r : α} (hr : l.foldl (keepBest better) none = some r) :
    r ∈ l ∧ ∀ x ∈ l, toLex (key r, r) ≤ toLex (key x, x) := by
  cases l with
  | nil => exact absurd hr (by simp)
  | cons b l =>
    obtain ⟨hb, hl'⟩ := List.pairwise_cons.mp hl
    obtain ⟨r', hmem, hfold, hmin⟩ := foldl_keepBest_some hbetter l b hb hl'
    have hrr : r' = r := Option.some.inj (hfold.symm.trans hr)
    subst hrr
    exact ⟨hmem, hmin⟩

omit [LinearOrder α] in
/-- The scan returns nothing only on the empty list. -/
theorem foldl_keepBest_eq_none {l : List α} (h : l.foldl (keepBest better) none = none) :
    l = [] := by
  have hsome : ∀ (l : List α) b, l.foldl (keepBest better) (some b) ≠ none := by
    intro l
    induction l with
    | nil => simp
    | cons x l ih =>
      intro b
      simp only [List.foldl_cons, keepBest_some]
      split_ifs
      · exact ih x
      · exact ih b
  cases l with
  | nil => rfl
  | cons x l => exact absurd h (hsome l x)

end Xv6Projects.Library
