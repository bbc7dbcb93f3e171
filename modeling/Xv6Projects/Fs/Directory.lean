import Xv6Projects.Fs.Icache

/-!
# Directories

`dirlookup` and `dirlink` search a directory through `readi` and write it through `writei`, entry
by entry; what they do is searching and writing a list of entries.
-/

namespace Xv6Projects.Fs

open Library Disk

namespace Sys

variable (sb : Superblock)

/-- A loop over the entries of a directory, which ends at the first one that satisfies `stop`, when
`n` entries are left from `off` on. -/
def scan (dp : ℕ) (stop : Dirent → Bool) : ℕ → ℕ → SM (Option (Dirent × ℕ))
  | 0, _ => return none
  | n + 1, off => do
    let r ← onDisk (readi sb dp (UInt32.ofNat off) (UInt32.ofNat DESIZE))
    if r.1 ≠ DESIZE then throw .dirRead
    else if stop (Dirent.decode r.2) then return some (Dirent.decode r.2, off)
    else scan dp stop n (off + DESIZE)

/-- `for(off = start; off < dp->size; off += sizeof(de))`. -/
def scanFrom (dp : ℕ) (stop : Dirent → Bool) (off : ℕ) : SM (Option (Dirent × ℕ)) := do
  let ip ← inode dp
  scan sb dp stop ((ip.size - off + (DESIZE - 1)) / DESIZE) off

/-- Look for a directory entry in a directory: its inode, to which there is a new reference, and its
offset. -/
def dirlookup (dp : ℕ) (name : List UInt8) : SM (Option (ℕ × ℕ)) := do
  let ip ← inode dp
  if ip.type ≠ T_DIR then throw .notDir
  else do
    let r ← scanFrom sb dp (fun de => decide (de.inum ≠ 0 ∧ strncmp name de.name DIRSIZ = 0)) 0
    match r with
    | none => return none
    | some (de, off) => do
        iget de.inum.toNat
        return some (de.inum.toNat, off)

/-- Write an entry of a directory, with the panic of the caller when it is not written. -/
def writeEntry (err : Panic) (dp : ℕ) (de : Dirent) (off : ℕ) : SM Unit := do
  let r ← onDisk (writei sb dp (fun j => de.bytes.getD j 0) (UInt32.ofNat off)
    (UInt32.ofNat DESIZE))
  if r ≠ DESIZE then throw err
  else pure ()

/-- Write a new directory entry into a directory. -/
def dirlink (dp : ℕ) (name : List UInt8) (inum : ℕ) : SM ℤ := do
  -- the name must not be present
  let r ← dirlookup sb dp name
  match r with
  | some (i, _) => do
      iput sb i
      return -1
  | none => do
      let ip ← inode dp
      let r ← scanFrom sb dp (fun de => decide (de.inum = 0)) 0
      let off := (r.map Prod.snd).getD ((ip.size + (DESIZE - 1)) / DESIZE * DESIZE)
      writeEntry sb .dirWrite dp (Dirent.link name inum) off
      return 0

/-- Is a directory empty except for `.` and `..`? -/
def isdirempty (dp : ℕ) : SM Bool := do
  let r ← scanFrom sb dp (fun de => decide (de.inum ≠ 0)) (2 * DESIZE)
  return r.isNone

end Sys

/-! ### Reading and writing at an offset -/

section Next

variable {sb : Superblock} {fs : Files} {i off : ℕ} {f : File}

lemma toNat_ofNat_of_le {n : ℕ} (h : n ≤ MAXFILE * BSIZE) : (UInt32.ofNat n).toNat = n := by
  have hM : MAXFILE * BSIZE < 2 ^ 32 := by decide
  exact UInt32.toNat_ofNat_of_lt' (h.trans_lt hM)

lemma Files.next_readi {n : ℕ} (hf : fs i = some f) (hle : off + n ≤ f.bytes.length)
    (hM : f.bytes.length ≤ MAXFILE * BSIZE) :
    (fs.next sb (.readi i (UInt32.ofNat off) (UInt32.ofNat n))).1 =
      ((n : ℤ), (f.bytes.drop off).take n) := by
  have hoff := toNat_ofNat_of_le (show off ≤ MAXFILE * BSIZE by omega)
  have hn := toNat_ofNat_of_le (show n ≤ MAXFILE * BSIZE by omega)
  have hadd : (UInt32.ofNat off + UInt32.ofNat n).toNat = off + n := by
    have hM' : MAXFILE * BSIZE < 2 ^ 32 := by decide
    rw [UInt32.toNat_add, hoff, hn, Nat.mod_eq_of_lt (by omega)]
  have hin : ¬(f.bytes.length < (UInt32.ofNat off).toNat ∨
      UInt32.ofNat off + UInt32.ofNat n < UInt32.ofNat off) := by
    rw [UInt32.lt_iff_toNat_lt, hadd, hoff]
    omega
  simp only [Files.next, hf]
  rw [if_neg hin, hoff, hn, List.length_take, List.length_drop, Nat.min_eq_left (by omega)]

lemma Files.next_writei {n : ℕ} {e : List UInt8} (he : e.length = n) (hf : fs i = some f)
    (hoff : off ≤ f.bytes.length) (hM : off + n ≤ MAXFILE * BSIZE) :
    fs.next sb (.writei i (fun j => e.getD j 0) (UInt32.ofNat off) (UInt32.ofNat n)) =
      (((n : ℤ), []), Function.update fs i (some (f.write off e))) := by
  subst he
  have ho := toNat_ofNat_of_le (show off ≤ MAXFILE * BSIZE by omega)
  have hn := toNat_ofNat_of_le (show e.length ≤ MAXFILE * BSIZE by omega)
  have hadd : (UInt32.ofNat off + UInt32.ofNat e.length).toNat = off + e.length := by
    have hM' : MAXFILE * BSIZE < 2 ^ 32 := by decide
    rw [UInt32.toNat_add, ho, hn, Nat.mod_eq_of_lt (by omega)]
  have hin : ¬(f.bytes.length < (UInt32.ofNat off).toNat ∨
      UInt32.ofNat off + UInt32.ofNat e.length < UInt32.ofNat off ∨
      MAXFILE * BSIZE < (UInt32.ofNat off + UInt32.ofNat e.length).toNat) := by
    rw [UInt32.lt_iff_toNat_lt, hadd, ho]
    omega
  have he : (List.range e.length).map (fun j => e.getD j 0) = e := by
    refine List.ext_getElem (by rw [List.length_map, List.length_range]) fun j h₁ h₂ => ?_
    rw [List.getElem_map, List.getElem_range, List.getD_eq_getElem _ _ h₂]
  simp only [Files.next, hf]
  rw [if_neg hin, ho, hn, he]
  rfl

/-- There is no room for the bytes. -/
lemma Files.next_writei_full {src : ℕ → UInt8} {n : ℕ} (hf : fs i = some f)
    (hoff : off ≤ MAXFILE * BSIZE) (hn : n ≤ MAXFILE * BSIZE) (hM : MAXFILE * BSIZE < off + n) :
    (fs.next sb (.writei i src (UInt32.ofNat off) (UInt32.ofNat n))).1 = (-1, []) := by
  have hadd : (UInt32.ofNat off + UInt32.ofNat n).toNat = off + n := by
    have hM' : MAXFILE * BSIZE < 2 ^ 31 := by decide
    rw [UInt32.toNat_add, toNat_ofNat_of_le hoff, toNat_ofNat_of_le hn, Nat.mod_eq_of_lt (by omega)]
  simp only [Files.next, hf, hadd]
  rw [if_pos (Or.inr (Or.inr hM))]

end Next

/-- A file that is a directory: a number of whole entries. -/
structure IsDir (f : File) : Prop where
  type : f.type = T_DIR
  whole : f.bytes.length = DESIZE * (dirents f.bytes).length

/-- An entry is written to a directory. -/
def File.putEntry (f : File) (k : ℕ) (e : Dirent) : File := f.write (DESIZE * k) e.bytes

/-- The bytes of an entry. -/
lemma decode_take {c : List UInt8} {k : ℕ} (hk : k < (dirents c).length) :
    Dirent.decode ((c.drop (DESIZE * k)).take DESIZE) = (dirents c)[k] := by
  rw [Dirent.decode_take, getElem_dirents]

namespace IsDir

variable {f : File} {k : ℕ}

lemma dirents_putEntry (h : IsDir f) (e : Dirent) (hk : k ≤ (dirents f.bytes).length) :
    dirents (f.putEntry k e).bytes = Fs.putEntry (dirents f.bytes) k e :=
  dirents_overwrite e h.whole hk

lemma putEntry (h : IsDir f) (e : Dirent) (hk : k ≤ (dirents f.bytes).length) :
    IsDir (f.putEntry k e) := by
  refine ⟨h.type, ?_⟩
  have hle := Nat.mul_le_mul_left DESIZE hk
  rw [h.dirents_putEntry e hk, length_putEntry e hk, File.putEntry, File.write,
    length_overwrite (by rw [h.whole]; exact hle), e.length_bytes, h.whole, ← Nat.mul_max_mul_left,
    Nat.mul_add, Nat.mul_one]

end IsDir

namespace Sys

variable {sb : Superblock} {s : Sys} {v : Store} {dp : ℕ} {f : File}

/-- The loop finds the first entry. -/
lemma wp_scan (hl : dp ∈ v.locks) (hf : v.files dp = some f) (hd : IsDir f)
    (stop : Dirent → Bool) (n : ℕ) : ∀ k s, Shows sb s v → k + n = (dirents f.bytes).length →
    Wp (scan sb dp stop n (DESIZE * k)) Full
      (fun r s' =>
        r = (first stop ((dirents f.bytes).drop k) k).map (fun p => (p.1, DESIZE * p.2)) ∧
          Shows sb s' v) s := by
  induction n with
  | zero =>
    intro k s h hk
    rw [List.drop_eq_nil_of_le (by omega)]
    exact wp_pure ⟨rfl, h⟩
  | succ n ih =>
    intro k s h hk
    have hlt : k < (dirents f.bytes).length := by omega
    have hle : DESIZE * k + DESIZE ≤ f.bytes.length := by
      rw [hd.whole, ← Nat.mul_succ]
      exact Nat.mul_le_mul_left _ hlt
    have hM : f.bytes.length ≤ MAXFILE * BSIZE := h.ok.length_le (h.files ▸ hf)
    rw [scan]
    refine (wp_readi h hl).bind fun r s₁ h₁ => ?_
    obtain ⟨hr, h₁⟩ := h₁
    rw [Files.next_readi hf hle hM] at hr
    have hde : Dirent.decode r.2 = (dirents f.bytes)[k] := by
      rw [hr]
      exact decode_take hlt
    rw [List.drop_eq_getElem_cons hlt, first, hde]
    refine wp_ite (fun hc => absurd (congrArg Prod.fst hr) hc) fun _ => wp_ite (fun hstop => ?_)
      fun hstop => ?_
    · rw [if_pos hstop]
      exact wp_pure ⟨rfl, h₁⟩
    · rw [if_neg hstop]
      exact ih (k + 1) s₁ h₁ (by omega)

/-- The loop from an entry on. -/
lemma wp_scanFrom (h : Shows sb s v) (hl : dp ∈ v.locks) (hf : v.files dp = some f) (hd : IsDir f)
    (stop : Dirent → Bool) {k : ℕ} (hk : k ≤ (dirents f.bytes).length) :
    Wp (scanFrom sb dp stop (DESIZE * k)) Full
      (fun r s' =>
        r = (first stop ((dirents f.bytes).drop k) k).map (fun p => (p.1, DESIZE * p.2)) ∧
          Shows sb s' v) s := by
  refine wp_bind (wp_bind (wp_get (wp_pure ?_)))
  have hn : ((s.disk.inode dp).size - DESIZE * k + (DESIZE - 1)) / DESIZE =
      (dirents f.bytes).length - k := by
    rw [(h.inode_eq hl hf).2.2, hd.whole, ← Nat.mul_sub, Nat.add_div_of_dvd_right ⟨_, rfl⟩,
      Nat.mul_div_cancel_left _ (by decide)]
    rfl
  rw [hn]
  exact wp_scan hl hf hd stop _ k s h (by omega)

/-- What `dirlookup` does, for a directory. -/
lemma wp_dirlookup (h : Shows sb s v) (hl : dp ∈ v.locks) (hf : v.files dp = some f) (hd : IsDir f)
    (name : List UInt8) :
    Wp (dirlookup sb dp name) Full (fun r s' => match lookup (dirents f.bytes) name with
      | none => r = none ∧ Shows sb s' v
      | some (e, k) => r = some (e.inum.toNat, DESIZE * k) ∧
          Shows sb s' { v with refs := e.inum.toNat ::ₘ v.refs }) s := by
  refine wp_bind (wp_bind (wp_get (wp_pure (wp_ite (fun hc => ?_) fun _ => ?_))))
  · exact absurd ((h.inode_eq hl hf).1.trans hd.type) hc
  · refine (wp_scanFrom h hl hf hd _ (Nat.zero_le _)).bind fun r s₁ hr => ?_
    obtain ⟨rfl, h₁⟩ := hr
    rw [List.drop_zero]
    change Wp (match (lookup (dirents f.bytes) name).map (fun p => (p.1, DESIZE * p.2)) with
      | none => _
      | some (de, off) => _) _ _ _
    cases lookup (dirents f.bytes) name with
    | none => exact wp_pure ⟨rfl, h₁⟩
    | some r => exact (wp_iget h₁).bind fun _ s₂ h₂ => wp_pure ⟨rfl, h₂⟩

/-- An entry is written, if there is room for it. -/
lemma wp_writeEntry (h : Shows sb s v) (hl : dp ∈ v.locks) (hf : v.files dp = some f)
    (hd : IsDir f) (e : Dirent) {k : ℕ} (hk : k ≤ (dirents f.bytes).length) {err : Panic}
    (herr : MAXFILE * BSIZE < DESIZE * k + DESIZE → Full err) :
    Wp (writeEntry sb err dp e (DESIZE * k)) Full
      (fun _ s' => Shows sb s' (v.setFile dp (f.putEntry k e))) s := by
  have hM : f.bytes.length ≤ MAXFILE * BSIZE := h.ok.length_le (h.files ▸ hf)
  have hoff : DESIZE * k ≤ f.bytes.length := by
    rw [hd.whole]
    exact Nat.mul_le_mul_left _ hk
  refine (wp_writei h hl).bind fun r s₁ h₁ => ?_
  obtain ⟨hr, h₁⟩ := h₁
  by_cases hroom : DESIZE * k + DESIZE ≤ MAXFILE * BSIZE
  · rw [Files.next_writei e.length_bytes hf hoff hroom] at hr h₁
    exact wp_ite (fun hc => absurd (congrArg Prod.fst hr) hc) fun _ => wp_pure h₁
  · rw [Files.next_writei_full hf (hoff.trans hM) (by decide) (by omega)] at hr
    obtain rfl : r = -1 := congrArg Prod.fst hr
    exact wp_ite (fun _ => wp_throw (herr (by omega))) fun hc => absurd (by decide) hc

end Sys

/-- A reference to a file with links comes and goes. -/
lemma Store.put_cons {sb : Superblock} {v : Store} {i : ℕ} {g : File} (hg : v.files i = some g)
    (hn : g.nlink ≠ 0) : ({ v with refs := i ::ₘ v.refs } : Store).put sb i = v := by
  have hfiles : (v.files.next sb (.iput i)).2 = v.files := by rw [Files.next_iput hg, if_neg hn]
  rw [Store.put, hfiles, ite_self, Multiset.erase_cons_head]

namespace Sys

variable {sb : Superblock} {s : Sys} {v : Store} {dp : ℕ} {f : File}

/-- What `dirlink` does.  It waits for the lock of the directory, which it holds, when the name is
there and is one of the directory itself. -/
lemma wp_dirlink (h : Shows sb s v) (hl : dp ∈ v.locks) (hf : v.files dp = some f) (hd : IsDir f)
    (name : List UInt8) (inum : ℕ)
    (hold : ∀ e k, lookup (dirents f.bytes) name = some (e, k) → e.inum.toNat ∉ v.locks ∧
      ∃ g, v.files e.inum.toNat = some g ∧ g.nlink ≠ 0) :
    Wp (dirlink sb dp name inum) Full (fun r s' =>
      if (lookup (dirents f.bytes) name).isSome then r = -1 ∧ Shows sb s' v
      else r = 0 ∧ Shows sb s'
        (v.setFile dp (f.putEntry (freeEntry (dirents f.bytes)) (.link name inum)))) s := by
  refine (wp_dirlookup h hl hf hd name).bind fun r s₁ hr => ?_
  cases hlook : lookup (dirents f.bytes) name with
  | some p =>
    rw [hlook] at hr
    obtain ⟨rfl, h₁⟩ := hr
    obtain ⟨hnl, g, hg, hn⟩ := hold p.1 p.2 hlook
    refine (wp_iput h₁ (Multiset.mem_cons_self ..) hnl hg).bind fun _ s₂ h₂ => wp_pure ⟨rfl, ?_⟩
    rwa [Store.put_cons hg hn] at h₂
  | none =>
    rw [hlook] at hr
    obtain ⟨rfl, h₁⟩ := hr
    refine wp_bind (wp_bind (wp_get (wp_pure ?_)))
    rw [(h₁.inode_eq hl hf).2.2]
    refine (wp_scanFrom h₁ hl hf hd _ (Nat.zero_le _)).bind fun r s₂ hr => ?_
    obtain ⟨rfl, h₂⟩ := hr
    have hoff : (((first (fun de => decide (de.inum = 0)) ((dirents f.bytes).drop 0) 0).map
        fun p => (p.1, DESIZE * p.2)).map Prod.snd).getD
          ((f.bytes.length + (DESIZE - 1)) / DESIZE * DESIZE) =
        DESIZE * freeEntry (dirents f.bytes) := by
      rw [List.drop_zero, freeEntry]
      cases first (fun de => decide (de.inum = 0)) (dirents f.bytes) 0 with
      | none =>
        show (f.bytes.length + (DESIZE - 1)) / DESIZE * DESIZE = DESIZE * (dirents f.bytes).length
        rw [hd.whole, Nat.add_div_of_dvd_right ⟨_, rfl⟩, Nat.mul_div_cancel_left _ (by decide),
          show (DESIZE - 1) / DESIZE = 0 by rfl, Nat.add_zero, Nat.mul_comm]
      | some p => rfl
    rw [hoff]
    exact (wp_writeEntry h₂ hl hf hd _ (freeEntry_spec _).1
      fun _ => Or.inr (Or.inr (Or.inr rfl))).bind fun _ s₃ h₃ => wp_pure ⟨rfl, h₃⟩

/-- A name that leads from a directory to the directory itself: `dirlink` waits for the lock that
the process holds. -/
lemma wp_dirlink_self (h : Shows sb s v) (hl : dp ∈ v.locks) (hf : v.files dp = some f)
    (hd : IsDir f) {name : List UInt8} {de : Dirent} {k : ℕ}
    (hlook : lookup (dirents f.bytes) name = some (de, k)) (hde : de.inum.toNat = dp) (inum : ℕ)
    {E : Panic → Prop} (hE : ∀ e, Full e → E e) (hwait : E .deadlock) :
    Wp (dirlink sb dp name inum) E (fun _ _ => False) s := by
  refine (wp_dirlookup h hl hf hd name).bind_errors hE fun r s₁ hr => ?_
  rw [hlook] at hr
  obtain ⟨rfl, h₁⟩ := hr
  refine wp_bind (wp_bind (wp_get (wp_ite (fun _ => wp_throw hwait) fun hc => absurd ?_ hc)))
  rw [h₁.locks, hde]
  exact hl

lemma wp_isdirempty (h : Shows sb s v) (hl : dp ∈ v.locks) (hf : v.files dp = some f)
    (hd : IsDir f) (h2 : 2 ≤ (dirents f.bytes).length) :
    Wp (isdirempty sb dp) Full (fun r s' => r = (kids (dirents f.bytes)).isEmpty ∧
      Shows sb s' v) s := by
  rw [isdirempty, Nat.mul_comm]
  refine (wp_scanFrom h hl hf hd _ h2).bind fun r s₁ hr => wp_pure ?_
  obtain ⟨rfl, h₁⟩ := hr
  refine ⟨?_, h₁⟩
  rw [Option.isNone_map, Bool.eq_iff_iff, Option.isNone_iff_eq_none, first_eq_none,
    List.isEmpty_iff, kids, List.filter_eq_nil_iff]
  simp

end Sys

end Xv6Projects.Fs
