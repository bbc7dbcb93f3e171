import Xv6Projects.Fs.Log

/-!
# What recovery makes of a disk

The header block on disk says which blocks are in the log.  `recover_from_log` copies them to where
they belong: what a crash leaves behind is the disk with the log replayed over it.
-/

namespace Xv6Projects.Fs

open Library

/-! ### The header block -/

lemma setBlocks_word (d : Data) (l : List ℕ) (i a : ℕ) (h : a + 4 ≤ 4 + 4 * i) :
    (setBlocks d l i).word a = d.word a := by
  induction l generalizing d i with
  | nil => rfl
  | cons b l ih =>
    rw [setBlocks, ih _ _ (by omega), Threads.Memory.word_setWord_of_apart _ _ (by omega)]

lemma setBlocks_word_get (d : Data) (l : List ℕ) (i k : ℕ) (h : k < l.length) :
    (setBlocks d l i).word (4 + 4 * (i + k)) = UInt32.ofNat l[k] := by
  induction l generalizing d i k with
  | nil => exact absurd h (Nat.not_lt_zero k)
  | cons b l ih =>
    rw [setBlocks]
    cases k with
    | zero =>
      rw [setBlocks_word _ _ _ _ (by omega)]
      exact Threads.Memory.word_setWord ..
    | succ k =>
      have hk : 4 + 4 * (i + (k + 1)) = 4 + 4 * (i + 1 + k) := by omega
      rw [hk, ih _ _ _ (Nat.lt_of_succ_lt_succ h)]
      rfl

/-- **The header block holds the numbers that are put into it.** -/
theorem getHead_putHead {l : List ℕ} (d : Data) (hlen : l.length ≤ LOGSIZE)
    (hl : ∀ b ∈ l, b < FSSIZE) : getHead (putHead l d) = l := by
  have hn : (UInt32.ofNat l.length).toInt32.toInt.toNat = l.length := by
    have hlt : l.length < 2 ^ 31 := lt_of_le_of_lt hlen (by decide)
    have hofNat : (UInt32.ofNat l.length).toInt32 = Int32.ofNat l.length := rfl
    rw [hofNat, Int32.toInt_ofNat_of_lt hlt, Int.toNat_natCast]
  have hword : (putHead l d).word 0 = UInt32.ofNat l.length := by
    rw [putHead, setBlocks_word _ _ _ _ (by omega), Threads.Memory.word_setWord]
  rw [getHead, hword, hn]
  refine List.ext_getElem (by simp) fun i h₁ h₂ => ?_
  rw [List.getElem_map, List.getElem_range]
  have hget := setBlocks_word_get (d.setWord 0 (UInt32.ofNat l.length)) l 0 i h₂
  rw [Nat.zero_add] at hget
  have hlt : l[i] < 2 ^ 32 := lt_trans (hl _ (List.getElem_mem h₂)) (by decide)
  rw [putHead, hget, UInt32.toNat_ofNat_of_lt' hlt]

/-- The header of a log of blocks of files, with room for them in the log. -/
structure ValidHead (start size : ℕ) (l : List ℕ) : Prop where
  nodup : l.Nodup
  home : ∀ b ∈ l, Home start size b
  room : l.length ≤ size - 1
  le_logsize : l.length ≤ LOGSIZE

lemma ValidHead.nil {start size : ℕ} : ValidHead start size [] where
  nodup := List.nodup_nil
  home _ hb := absurd hb List.not_mem_nil
  room := Nat.zero_le _
  le_logsize := Nat.zero_le _

lemma ValidHead.getHead_putHead {start size : ℕ} {l : List ℕ} (h : ValidHead start size l)
    (d : Data) : getHead (putHead l d) = l :=
  Fs.getHead_putHead d h.le_logsize fun b hb => (h.home b hb).2

/-- `log_write` keeps the header valid. -/
lemma ValidHead.absorb {start size b : ℕ} {l : List ℕ} (h : ValidHead start size l)
    (hb : Home start size b) (hlen : l.length < LOGSIZE) (hsize : l.length < size - 1) :
    ValidHead start size (absorb l b) := by
  rw [Fs.absorb]
  split_ifs with hin
  · exact h
  · refine ⟨List.nodup_append.mpr ⟨h.nodup, List.nodup_singleton b, fun x hx y hy => ?_⟩,
      fun x hx => ?_, ?_, ?_⟩
    · rw [List.mem_singleton] at hy
      rintro rfl
      exact hin (hy ▸ hx)
    · rcases List.mem_append.mp hx with hx | hx
      · exact h.home x hx
      · rw [List.mem_singleton.mp hx]
        exact hb
    · rw [List.length_append, List.length_singleton]
      omega
    · rw [List.length_append, List.length_singleton]
      omega

/-! ### The log on disk -/

variable {start size : ℕ} {disk disk' : ℕ → Data} {b : ℕ}

/-- The blocks in the log on disk, with their numbers. -/
def entries (start : ℕ) (disk : ℕ → Data) : List (ℕ × Data) :=
  (getHead (disk start)).zipIdx.map fun p => (p.1, disk (start + 1 + p.2))

/-- The disk after recovery. -/
def recovered (start : ℕ) (disk : ℕ → Data) : ℕ → Data := replay (entries start disk) disk

lemma map_fst_entries : (entries start disk).map Prod.fst = getHead (disk start) := by
  rw [entries, List.map_map]
  exact List.zipIdx_map_fst ..

/-- Without blocks in the log, recovery changes nothing. -/
lemma recovered_of_nil (h : getHead (disk start) = []) : recovered start disk = disk := by
  rw [recovered, entries, h]
  rfl

lemma recovered_of_notMem (h : b ∉ getHead (disk start)) : recovered start disk b = disk b :=
  replay_of_notMem (map_fst_entries ▸ h) _

/-- A block in the log is recovered from there. -/
lemma recovered_getElem {i : ℕ} (hn : (getHead (disk start)).Nodup)
    (hi : i < (getHead (disk start)).length) :
    recovered start disk (getHead (disk start))[i] = disk (start + 1 + i) := by
  refine replay_of_nodup (by rwa [map_fst_entries]) ?_ disk
  rw [entries, List.mem_map]
  exact ⟨((getHead (disk start))[i], i), List.mem_zipIdx_iff_getElem?.mpr (by simp [hi]), rfl⟩

/-- The log on disk lies between its header and the blocks of the files. -/
lemma entries_congr (h : (getHead (disk start)).length ≤ size - 1) (hsize : 0 < size)
    (hd : ∀ b, start ≤ b → b < start + size → disk' b = disk b) :
    entries start disk' = entries start disk := by
  rw [entries, entries, hd start le_rfl (by omega)]
  refine List.map_congr_left fun p hp => ?_
  have hlt : p.2 < (getHead (disk start)).length := (List.mem_zipIdx' hp).1
  rw [hd _ (by omega) (by omega)]

/-- A block that is in the log may be written without any effect on what is recovered. -/
lemma recovered_update (h : ValidHead start size (getHead (disk start))) (hsize : 0 < size)
    (hb : b ∈ getHead (disk start)) (d : Data) :
    recovered start (Function.update disk b d) = recovered start disk := by
  have hhome := (h.home b hb).1
  rw [recovered, entries_congr h.room hsize fun c _ hc => Function.update_of_ne (by omega) ..]
  exact replay_update (by rwa [map_fst_entries]) d disk

end Xv6Projects.Fs
