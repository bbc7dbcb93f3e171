import Xv6Projects.Fs.Tree

/-!
# Looking up paths

`namex` follows a path with a reference to one inode at a time, which it locks to look at it.  It
finds the inode to which the names of the path lead, or the directory of the last name, and leaves
the files as they are.
-/

namespace Xv6Projects.Fs

open Library Disk

namespace Sys

variable (sb : Superblock)

/-- The loop of `namex` at inode `ip`, with the rest of the path and the last element. -/
def namexLoop (nameiparent : Bool) (ip : ℕ) (path name : List UInt8) :
    SM (Option (ℕ × List UInt8)) :=
  match _h : skipelem path with
  | none =>
    if nameiparent = true then do
      iput sb ip
      return none
    else return some (ip, name)
  | some (name, rest) => do
    ilock ip
    let x ← inode ip
    if x.type ≠ T_DIR then do
      iunlockput sb ip
      return none
    else if nameiparent = true ∧ rest.headD 0 = 0 then do
      -- stop one level early
      iunlock ip
      return some (ip, name)
    else do
      let r ← dirlookup sb ip name
      match r with
      | none => do
        iunlockput sb ip
        return none
      | some (next, _) => do
        iunlockput sb ip
        namexLoop nameiparent next rest name
termination_by path.length
decreasing_by exact length_of_skipelem _h

/-- Look up the inode for a path name, or the inode of its parent and the last element. -/
def namex (cwd : ℕ) (path : List UInt8) (nameiparent : Bool) : SM (Option (ℕ × List UInt8)) :=
  if path.headD 0 = slash then do
    iget ROOTINO
    namexLoop sb nameiparent ROOTINO path []
  else do
    idup cwd
    namexLoop sb nameiparent cwd path []

def namei (cwd : ℕ) (path : List UInt8) : SM (Option ℕ) := do
  let r ← namex sb cwd path false
  return r.map Prod.fst

def nameiparent (cwd : ℕ) (path : List UInt8) : SM (Option (ℕ × List UInt8)) :=
  namex sb cwd path true

end Sys

namespace Files

variable (fs : Files)

/-- What `namex` finds. -/
def namex (nameiparent : Bool) : ℕ → List (List UInt8) → List UInt8 → Option (ℕ × List UInt8)
  | i, [], name => if nameiparent = true then none else some (i, name)
  | i, a :: l, _ =>
    if nameiparent = true ∧ l = [] then if fs.isDir i then some (i, a) else none
    else (fs.child i a).bind fun j => namex nameiparent j l a

lemma namex_true (l : List (List UInt8)) : ∀ i name, fs.namex true i l name = fs.parent i l := by
  induction l with
  | nil => exact fun _ _ => rfl
  | cons a l ih =>
    intro i name
    rw [namex, parent]
    by_cases hl : l = []
    · rw [if_pos ⟨rfl, hl⟩, if_pos hl]
    · rw [if_neg fun hc => hl hc.2, if_neg hl]
      exact congrArg _ (funext fun j => ih j a)

lemma namex_false (l : List (List UInt8)) :
    ∀ i name, (fs.namex false i l name).map Prod.fst = fs.walk i l := by
  induction l with
  | nil => exact fun _ _ => rfl
  | cons a l ih =>
    intro i name
    rw [namex, walk, if_neg fun hc => absurd hc.1 (by decide), Option.map_bind]
    exact congrArg _ (funext fun j => ih j a)

end Files

namespace Sys

variable {sb : Superblock} {s : Sys} {fs : Files} {refs : Multiset ℕ} {i : ℕ} {f : File}

/-- A reference to a file with links is dropped. -/
lemma wp_iput_linked {locks : Finset ℕ} (h : Shows sb s ⟨fs, i ::ₘ refs, locks⟩) (hl : i ∉ locks)
    (hi : fs.Linked i) :
    Wp (iput sb i) Full (fun _ s' => Shows sb s' ⟨fs, refs, locks⟩) s := by
  obtain ⟨f, hf, hn⟩ := hi
  refine (wp_iput h (Multiset.mem_cons_self ..) hl hf).post fun _ s' h' => ?_
  have hput : (⟨fs, i ::ₘ refs, locks⟩ : Store).put sb i = ⟨fs, refs, locks⟩ :=
    Store.put_cons (v := ⟨fs, refs, locks⟩) hf hn.ne'
  rwa [hput] at h'

lemma wp_iunlock_insert {locks : Finset ℕ} (h : Shows sb s ⟨fs, refs, insert i locks⟩)
    (hl : i ∉ locks) : Wp (iunlock i) Full (fun _ s' => Shows sb s' ⟨fs, refs, locks⟩) s := by
  refine (wp_iunlock h (Finset.mem_insert_self ..)).post fun _ s' h' => ?_
  have hlocks : (insert i locks).erase i = locks := Finset.erase_insert hl
  have hstore : ({ (⟨fs, refs, insert i locks⟩ : Store) with
      locks := (insert i locks).erase i } : Store) = ⟨fs, refs, locks⟩ := by rw [hlocks]
  rwa [hstore] at h'

lemma wp_iunlockput_linked {locks : Finset ℕ}
    (h : Shows sb s ⟨fs, i ::ₘ refs, insert i locks⟩) (hl : i ∉ locks) (hi : fs.Linked i) :
    Wp (iunlockput sb i) Full (fun _ s' => Shows sb s' ⟨fs, refs, locks⟩) s :=
  (wp_iunlock_insert h hl).bind fun _ _ h₁ => wp_iput_linked h₁ hl hi

/-- What the loop of `namex` does. -/
lemma wp_namexLoop (ht : Walkable fs) (par : Bool) (n : ℕ) : ∀ path name i s, path.length = n →
    Shows sb s ⟨fs, i ::ₘ refs, ∅⟩ → fs.Linked i →
    Wp (namexLoop sb par i path name) Full (fun r s' => r = fs.namex par i (elems path) name ∧
      Shows sb s' ⟨fs, r.elim refs fun p => p.1 ::ₘ refs, ∅⟩) s := by
  induction n using Nat.strong_induction_on with
  | _ n ih =>
  intro path name i s hn h hi
  have hempty : ∀ j : ℕ, j ∉ (∅ : Finset ℕ) := Finset.notMem_empty
  rw [namexLoop]
  split
  · next hskip =>
    rw [elems_of_none hskip]
    refine wp_ite (fun hpar => ?_) fun hpar => wp_pure ?_
    · refine (wp_iput_linked h (hempty i) hi).bind fun _ s₁ h₁ => wp_pure ⟨?_, h₁⟩
      rw [Files.namex, if_pos hpar]
    · rw [Files.namex, if_neg hpar]
      exact ⟨rfl, h⟩
  · next name' rest hskip =>
    have ha := isName_of_skipelem hskip
    have hrest := elems_rest hskip
    rw [elems_of_some hskip, Files.namex]
    obtain ⟨f, hf, hnl⟩ := hi
    refine (wp_ilock h (Multiset.mem_cons_self ..) (hempty i) hf).bind fun _ s₁ h₁ => ?_
    have hl : i ∈ (insert i ∅ : Finset ℕ) := Finset.mem_insert_self ..
    refine wp_bind (wp_bind (wp_get (wp_pure ?_)))
    rw [(h₁.inode_eq hl hf).1]
    refine wp_ite (fun hd => ?_) fun hd => wp_ite (fun hc => ?_) fun hc => ?_
    · -- not a directory
      refine (wp_iunlockput_linked h₁ (hempty i) ⟨f, hf, hnl⟩).bind fun _ s₂ h₂ => wp_pure ⟨?_, h₂⟩
      rw [Files.child, Files.find_of_not_dir hf hd, Files.isDir_eq hf, decide_eq_false hd]
      by_cases hc : par = true ∧ elems rest = []
      · rw [if_pos hc, if_neg Bool.false_ne_true]
      · rw [if_neg hc]
        rfl
    · refine (wp_iunlock_insert h₁ (hempty i)).bind fun _ s₂ h₂ => wp_pure ?_
      rw [if_pos ⟨hc.1, hrest.mp hc.2⟩, Files.isDir_eq hf, if_pos (decide_eq_true (not_not.mp hd))]
      exact ⟨rfl, h₂⟩
    · have hd := not_not.mp hd
      rw [if_neg fun hc' => hc ⟨hc'.1, hrest.mpr hc'.2⟩, Files.child, Files.find_of_dir hf hd]
      refine (wp_dirlookup h₁ hl hf (ht.isDir hf hd) name').bind fun r s₂ hr => ?_
      cases hlook : lookup (dirents f.bytes) name' with
      | none =>
        rw [hlook] at hr
        obtain ⟨rfl, h₂⟩ := hr
        exact (wp_iunlockput_linked h₂ (hempty i) ⟨f, hf, hnl⟩).bind
          fun _ s₃ h₃ => wp_pure ⟨rfl, h₃⟩
      | some p =>
        rw [hlook] at hr
        obtain ⟨rfl, h₂⟩ := hr
        have hnext := ht.linked hf hd hnl ha hlook
        rw [show ({ (⟨fs, i ::ₘ refs, insert i ∅⟩ : Store) with
          refs := p.1.inum.toNat ::ₘ i ::ₘ refs } : Store) =
            ⟨fs, i ::ₘ p.1.inum.toNat ::ₘ refs, insert i ∅⟩ by rw [Multiset.cons_swap]] at h₂
        refine (wp_iunlockput_linked h₂ (hempty i) ⟨f, hf, hnl⟩).bind fun _ s₃ h₃ => ?_
        exact ih rest.length (hn ▸ length_of_skipelem hskip) rest name' _ s₃ rfl h₃ hnext

/-- The inode at which a path begins. -/
def start (cwd : ℕ) (path : List UInt8) : ℕ := if path.headD 0 = slash then ROOTINO else cwd

lemma wp_namex (ht : Walkable fs) (h : Shows sb s ⟨fs, refs, ∅⟩) {cwd : ℕ} {path : List UInt8}
    (hcwd : fs.Linked (start cwd path)) (par : Bool) :
    Wp (namex sb cwd path par) Full (fun r s' =>
      r = fs.namex par (start cwd path) (elems path) [] ∧
        Shows sb s' ⟨fs, r.elim refs fun p => p.1 ::ₘ refs, ∅⟩) s := by
  rw [start] at *
  refine wp_ite (fun hc => ?_) fun hc => ?_
  · rw [if_pos hc] at *
    exact (wp_iget h).bind fun _ s₁ h₁ => wp_namexLoop ht par _ path [] _ s₁ rfl h₁ hcwd
  · rw [if_neg hc] at *
    exact (wp_idup h).bind fun _ s₁ h₁ => wp_namexLoop ht par _ path [] _ s₁ rfl h₁ hcwd

/-- **`namei` finds what the names of the path lead to**, and has a reference to it. -/
lemma wp_namei (ht : Walkable fs) (h : Shows sb s ⟨fs, refs, ∅⟩) {cwd : ℕ} {path : List UInt8}
    (hcwd : fs.Linked (start cwd path)) :
    Wp (namei sb cwd path) Full (fun r s' => r = fs.walk (start cwd path) (elems path) ∧
      Shows sb s' ⟨fs, r.elim refs (· ::ₘ refs), ∅⟩) s := by
  refine (wp_namex ht h hcwd false).bind fun r s' hr => wp_pure ?_
  obtain ⟨rfl, h'⟩ := hr
  refine ⟨Files.namex_false fs _ _ _, ?_⟩
  cases hx : fs.namex false (start cwd path) (elems path) [] with
  | none => rwa [hx] at h'
  | some p => rwa [hx] at h'

/-- **`nameiparent` finds the directory of the last name**, and has a reference to it. -/
lemma wp_nameiparent (ht : Walkable fs) (h : Shows sb s ⟨fs, refs, ∅⟩) {cwd : ℕ} {path : List UInt8}
    (hcwd : fs.Linked (start cwd path)) :
    Wp (nameiparent sb cwd path) Full (fun r s' => r = fs.parent (start cwd path) (elems path) ∧
      Shows sb s' ⟨fs, r.elim refs fun p => p.1 ::ₘ refs, ∅⟩) s := by
  refine (wp_namex ht h hcwd true).post fun r s' hr => ?_
  rw [Files.namex_true] at hr
  exact hr

end Sys

end Xv6Projects.Fs
