import Mathlib.Data.List.Range
import Mathlib.Tactic

/-!
# Ring buffers with counters that wrap around

A ring buffer has `N` slots and two counters that are never reset: entry `k` is in slot `k % N`,
and the buffer holds the entries from the first counter to the second.  The counters are machine
words.  As `N` divides the number of words, they may wrap around and still say which slots are in
use, so the buffer is best described by the counters that would not.
-/

namespace Xv6Projects.Library

section Window

variable {α : Type*} {N r w : ℕ} {data : ℕ → α}

/-- The entries of a ring buffer of `N` slots, from number `r` to before number `w`. -/
def window (N : ℕ) (data : ℕ → α) (r w : ℕ) : List α :=
  (List.range' r (w - r)).map fun k => data (k % N)

@[simp] lemma length_window : (window N data r w).length = w - r := by
  rw [window, List.length_map, List.length_range']

/-- The entry that is taken next. -/
lemma window_cons (h : r < w) : window N data r w = data (r % N) :: window N data (r + 1) w := by
  have hw : w - r = w - (r + 1) + 1 := by omega
  rw [window, hw, List.range'_succ, List.map_cons, window]

/-- The entry that was put last. -/
lemma window_concat (h : r ≤ w) :
    window N data r (w + 1) = window N data r w ++ [data (w % N)] := by
  have hw : w + 1 - r = w - r + 1 := by omega
  have hlast : r + (w - r) = w := by omega
  rw [window, hw, List.range'_1_concat, List.map_append, hlast]
  rfl

/-- A slot that is not in use may be written. -/
lemma window_update (h : w < r + N) (a : α) :
    window N (Function.update data (w % N) a) r w = window N data r w := by
  refine List.map_congr_left fun k hk => ?_
  obtain ⟨hrk, hkw⟩ := List.mem_range'_1.mp hk
  have hlt : k < w := by omega
  refine Function.update_of_ne (fun he => ?_) ..
  -- two numbers with one slot are at least `N` apart
  have hdvd : N ∣ w - k := (Nat.modEq_iff_dvd' hlt.le).mp he
  have := Nat.le_of_dvd (by omega) hdvd
  omega

/-- An entry is put into the buffer, which is not full. -/
lemma window_put (hr : r ≤ w) (h : w < r + N) (a : α) :
    window N (Function.update data (w % N) a) r (w + 1) = window N data r w ++ [a] := by
  rw [window_concat hr, window_update h, Function.update_self]

end Window

/-! ### The counters -/

section Counters

variable {N r w : ℕ}

lemma ofNat_succ (k : ℕ) : UInt32.ofNat k + 1 = UInt32.ofNat (k + 1) :=
  (UInt32.ofNat_add k 1).symm

/-- Counters that are less than the number of words apart are equal when their words are. -/
lemma ofNat_inj (h : r ≤ w) (hlt : w < r + UInt32.size) :
    UInt32.ofNat w = UInt32.ofNat r ↔ w = r := by
  refine ⟨fun he => ?_, fun he => by rw [he]⟩
  have hmod := congrArg UInt32.toNat he
  rw [UInt32.toNat_ofNat', UInt32.toNat_ofNat'] at hmod
  have hdvd : 2 ^ 32 ∣ w - r := (Nat.modEq_iff_dvd' h).mp hmod.symm
  have hs : UInt32.size = 2 ^ 32 := rfl
  by_contra hne
  have := Nat.le_of_dvd (by omega) hdvd
  omega

/-- The test for a full buffer. -/
lemma ofNat_eq_add (h : r ≤ w) (hle : w ≤ r + N) (hN : N < UInt32.size) :
    UInt32.ofNat w = UInt32.ofNat r + UInt32.ofNat N ↔ w = r + N := by
  rw [← UInt32.ofNat_add, eq_comm, ofNat_inj hle (by omega), eq_comm]

/-- The word of a counter says which slot it is at. -/
lemma toNat_ofNat_mod (hN : N ∣ UInt32.size) (k : ℕ) : (UInt32.ofNat k).toNat % N = k % N := by
  rw [UInt32.toNat_ofNat']
  exact Nat.mod_mod_of_dvd k hN

end Counters

end Xv6Projects.Library
