import Xv6Projects.Fs.Namei

/-!
# System calls on names

`link`, `unlink`, `open`, `mkdir`, `mknod` and `chdir`, each one as a transaction of the process in
the kernel, and what each of them is for: it looks up the names of its paths and adds or removes one
name.
-/

namespace Xv6Projects.Fs

open Library Disk

/-! ### The calls -/

def O_RDONLY : UInt32 := 0

def O_WRONLY : UInt32 := 1

def O_RDWR : UInt32 := 2

def O_CREATE : UInt32 := 0x200

namespace Sys

variable (sb : Superblock)

/-- A transaction begins: it has not logged a block. -/
def begin_op : SM Unit := onDisk (modify fun d => { d with logged := ∅ })

/-- The end of `sys_link` when there is no new name. -/
def linkBad (ip : ℕ) : SM ℤ := do
  ilock ip
  addNlink sb ip (-1)
  iunlockput sb ip
  return -1

/-- Create the path `new` as a link to the same inode as `old`. -/
def sysLink (cwd : ℕ) (old new : List UInt8) : SM ℤ := do
  begin_op
  let r ← namei sb cwd old
  match r with
  | none => return -1
  | some ip => do
    ilock ip
    let x ← inode ip
    if x.type = T_DIR then do
      iunlockput sb ip
      return -1
    else do
      addNlink sb ip 1
      iunlock ip
      let r ← nameiparent sb cwd new
      match r with
      | none => linkBad sb ip
      | some (dp, name) => do
        ilock dp
        let r ← dirlink sb dp name ip
        if r < 0 then do
          iunlockput sb dp
          linkBad sb ip
        else do
          iunlockput sb dp
          iput sb ip
          return 0

def sysUnlink (cwd : ℕ) (path : List UInt8) : SM ℤ := do
  begin_op
  let r ← nameiparent sb cwd path
  match r with
  | none => return -1
  | some (dp, name) => do
    ilock dp
    -- cannot unlink `.` or `..`
    if strncmp name dot DIRSIZ = 0 ∨ strncmp name dotdot DIRSIZ = 0 then do
      iunlockput sb dp
      return -1
    else do
      let r ← dirlookup sb dp name
      match r with
      | none => do
        iunlockput sb dp
        return -1
      | some (ip, off) => do
        ilock ip
        let x ← inode ip
        if x.nlink < 1 then throw .nlink
        else do
          let empty ← (if x.type = T_DIR then isdirempty sb ip else pure true)
          if empty = false then do
            iunlockput sb ip
            iunlockput sb dp
            return -1
          else do
            writeEntry sb .unlinkWrite dp .zero off
            (if x.type = T_DIR then addNlink sb dp (-1) else pure ())
            iunlockput sb dp
            addNlink sb ip (-1)
            iunlockput sb ip
            return 0

/-- Create the entries `.` and `..` of a new directory. -/
def createDots (ip dp : ℕ) : SM Unit := do
  addNlink sb dp 1
  let r ← dirlink sb ip dot ip
  if r < 0 then throw .dots
  else do
    let r ← dirlink sb ip dotdot dp
    if r < 0 then throw .dots else pure ()

/-- A new inode with a name, or an old file with it: it is locked, with a reference to it. -/
def create (cwd : ℕ) (path : List UInt8) (type : ℤ) : SM (Option ℕ) := do
  let r ← nameiparent sb cwd path
  match r with
  | none => return none
  | some (dp, name) => do
    ilock dp
    let r ← dirlookup sb dp name
    match r with
    | some (ip, _) => do
      iunlockput sb dp
      ilock ip
      let x ← inode ip
      if type = T_FILE ∧ x.type = T_FILE then return some ip
      else do
        iunlockput sb ip
        return none
    | none => do
      let ip ← ialloc sb type
      ilock ip
      setNlink sb ip 1
      (if type = T_DIR then createDots sb ip dp else pure ())
      let r ← dirlink sb dp name ip
      if r < 0 then throw .createLink
      else do
        iunlockput sb dp
        return some ip

/-- The inode that `sys_open` opens. -/
def openInode (cwd : ℕ) (path : List UInt8) (omode : UInt32) : SM (Option ℕ) :=
  if omode &&& O_CREATE ≠ 0 then create sb cwd path T_FILE
  else do
    let r ← namei sb cwd path
    match r with
    | none => return none
    | some ip => do
      ilock ip
      let x ← inode ip
      if x.type = T_DIR ∧ omode ≠ O_RDONLY then do
        iunlockput sb ip
        return none
      else return some ip

/-- Open a file: its inode, when there is room for it in the tables of files and descriptors. -/
def sysOpen (cwd : ℕ) (path : List UInt8) (omode : UInt32) (room : Bool) : SM (Option ℕ) := do
  begin_op
  let r ← openInode sb cwd path omode
  match r with
  | none => return none
  | some ip =>
    if room = false then do
      iunlockput sb ip
      return none
    else do
      iunlock ip
      return some ip

/-- `sys_mkdir` and `sys_mknod`. -/
def sysCreate (cwd : ℕ) (path : List UInt8) (type : ℤ) : SM ℤ := do
  begin_op
  let r ← create sb cwd path type
  match r with
  | none => return -1
  | some ip => do
    iunlockput sb ip
    return 0

def sysMkdir (cwd : ℕ) (path : List UInt8) : SM ℤ := sysCreate sb cwd path T_DIR

def sysMknod (cwd : ℕ) (path : List UInt8) : SM ℤ := sysCreate sb cwd path T_DEV

/-- Change the directory of a process: the new one. -/
def sysChdir (cwd : ℕ) (path : List UInt8) : SM (Option ℕ) := do
  begin_op
  let r ← namei sb cwd path
  match r with
  | none => return none
  | some ip => do
    ilock ip
    let x ← inode ip
    if x.type ≠ T_DIR then do
      iunlockput sb ip
      return none
    else do
      iunlock ip
      iput sb cwd
      return some ip

end Sys

/-! ### What they are for -/

namespace Files

variable (fs : Files)

/-- A directory that is not empty. -/
def occupied (i : ℕ) : Bool :=
  (fs i).any fun f => decide (f.type = T_DIR) && !(kids (dirents f.bytes)).isEmpty

/-- The file at the end of the path `old` from `i` gets the name at the end of `new` from `j`. -/
def sysLink (i : ℕ) (old : List (List UInt8)) (j : ℕ) (new : List (List UInt8)) : ℤ × Files :=
  match fs.walk i old with
  | none => (-1, fs)
  | some ip =>
    if fs.isDir ip then (-1, fs)
    else
      match fs.parent j new with
      | none => (-1, fs)
      | some (dp, a) => if (fs.child dp a).isSome then (-1, fs) else (0, fs.link dp a ip)

/-- The new name of a link is there, and leads from its directory to the directory itself. -/
def LinksSelf (i : ℕ) (old : List (List UInt8)) (j : ℕ) (new : List (List UInt8)) : Prop :=
  ∃ ip dp a, fs.walk i old = some ip ∧ fs.isDir ip = false ∧ fs.parent j new = some (dp, a) ∧
    fs.child dp a = some dp

/-- The name at the end of a path goes, and with it a file that has no other one. -/
def sysUnlink (refs : Multiset ℕ) (i : ℕ) (path : List (List UInt8)) : ℤ × Files :=
  match fs.parent i path with
  | none => (-1, fs)
  | some (dp, a) =>
    if a = dot ∨ a = dotdot then (-1, fs)
    else
      match fs.find dp a with
      | none => (-1, fs)
      | some (e, k) =>
        if fs.occupied e.inum.toNat then (-1, fs)
        else (0, (fs.unlink dp k e.inum.toNat).sweep refs)

/-- A new file in directory `dp`. -/
def newFile (type : ℤ) (ip dp : ℕ) : File :=
  if type = T_DIR then ((⟨T_DIR, 0, []⟩ : File).addEntry dot ip).addEntry dotdot dp
  else ⟨type, 0, []⟩

/-- The first number without a file. -/
def unused (sb : Superblock) : Option ℕ :=
  ((List.range sb.ninodes).drop 1).find? fun i => (fs i).isNone

/-- There is a file at the end of the path, which is a new one if there was none. -/
def create (sb : Superblock) (i : ℕ) (path : List (List UInt8)) (type : ℤ) : Option ℕ × Files :=
  match fs.parent i path with
  | none => (none, fs)
  | some (dp, a) =>
    match fs.child dp a with
    | some ip =>
      (if type = T_FILE ∧ (fs ip).any fun f => decide (f.type = T_FILE) then some ip else none, fs)
    | none =>
      match fs.unused sb with
      | none => (none, fs)
      | some ip =>
        (some ip, Files.link (Function.update fs ip (some (newFile type ip dp))) dp a ip)

end Files

/-! ### A file with one more link -/

namespace Files

variable {fs fs' : Files} {dp i j : ℕ} {f g : File} {a : List UInt8}

/-- Paths depend on names and kinds only. -/
lemma parent_congr (hchild : ∀ i a, fs'.child i a = fs.child i a)
    (hdir : ∀ i, fs'.isDir i = fs.isDir i) (l : List (List UInt8)) :
    ∀ i, fs'.parent i l = fs.parent i l := by
  induction l with
  | nil => exact fun _ => rfl
  | cons a l ih =>
    intro i
    rw [parent, parent, hdir, hchild]
    exact congrArg (fun x => if l = [] then _ else (fs.child i a).bind x) (funext ih)

lemma modify_eq {g : File → File} (hf : fs i = some f) :
    fs.modify i g = Function.update fs i (some (g f)) := by rw [modify, hf, Option.map_some]

lemma parent_addNlink (n : ℤ) (l : List (List UInt8)) (j : ℕ) :
    (fs.modify i (·.addNlink n)).parent j l = fs.parent j l := by
  have hfile : ∀ m, fs.modify i (·.addNlink n) m = fs m ∨
      fs.modify i (·.addNlink n) m = (fs m).map (·.addNlink n) := by
    intro m
    by_cases hm : m = i
    · rw [hm]
      exact Or.inr (Function.update_self ..)
    · exact Or.inl (modify_of_ne hm)
  refine parent_congr (fun m a => ?_) (fun m => ?_) l j
  · rw [child, child, find, find]
    obtain hm | hm := hfile m
    · rw [hm]
    · rw [hm, Option.bind_map]
      rfl
  · rw [isDir, isDir]
    obtain hm | hm := hfile m
    · rw [hm]
    · rw [hm]
      cases fs m with
      | none => rfl
      | some f => rfl

/-- The two files that a new name changes. -/
lemma link_eq (hf : fs dp = some f) (hg : fs i = some g) (hne : dp ≠ i) :
    fs.link dp a i = Function.update (Function.update fs dp (some
      ((f.addEntry a i).addNlink (if fs.isDir i then 1 else 0)))) i (some (g.addNlink 1)) := by
  rw [link, modify_eq hf, modify_eq ((Function.update_of_ne hne.symm ..).trans hg)]

/-- The two files that a name changes when it goes. -/
lemma unlink_eq {k : ℕ} (hf : fs dp = some f) (hg : fs i = some g) (hne : dp ≠ i) :
    fs.unlink dp k i = Function.update (Function.update fs dp (some
      ((f.putEntry k .zero).addNlink (if fs.isDir i then -1 else 0)))) i
        (some (g.addNlink (-1))) := by
  rw [unlink, modify_eq hf, modify_eq ((Function.update_of_ne hne.symm ..).trans hg)]

end Files

lemma File.addNlink_zero (f : File) : f.addNlink 0 = f := by
  rw [addNlink, Int.add_zero]

/-- One more link does not matter for paths. -/
lemma Walkable.addLink {fs : Files} {i : ℕ} (h : Walkable fs) (hi : fs.Linked i) :
    Walkable (fs.modify i (·.addNlink 1)) ∧
      ∀ j, fs.Linked j → (fs.modify i (·.addNlink 1)).Linked j := by
  obtain ⟨g, hg, hn⟩ := hi
  have hself : fs.modify i (·.addNlink 1) i = some (g.addNlink 1) := Files.modify_self hg
  have hlinked : ∀ j, fs.Linked j → (fs.modify i (·.addNlink 1)).Linked j := by
    rintro j ⟨f, hf, hfn⟩
    by_cases hj : j = i
    · subst hj
      refine ⟨_, hself, ?_⟩
      show 0 < g.nlink + 1
      omega
    · exact ⟨f, (Files.modify_of_ne hj).trans hf, hfn⟩
  refine ⟨⟨fun {j f} hf hd => ?_, fun {j f a e k} hf hd hfn ha he => hlinked _ ?_⟩, hlinked⟩
  · by_cases hj : j = i
    · subst hj
      obtain rfl := Option.some.inj (hself.symm.trans hf)
      have hdir := h.isDir hg hd
      exact ⟨hdir.type, hdir.whole⟩
    · exact h.isDir ((Files.modify_of_ne hj).symm.trans hf) hd
  · by_cases hj : j = i
    · subst hj
      obtain rfl := Option.some.inj (hself.symm.trans hf)
      exact h.linked hg hd hn ha he
    · exact h.linked ((Files.modify_of_ne hj).symm.trans hf) hd hfn ha he

namespace Walkable

variable {fs fs' : Files} {i j : ℕ} {r : ℤ}

/-- What `link` does when it returns. -/
lemma sysLink_cases (h : Walkable fs) {old new : List (List UInt8)} (hi : fs.Linked i)
    (hold : ∀ a ∈ old, IsName a) (hj : fs.Linked j) (hnew : ∀ a ∈ new, IsName a)
    (hs : fs.sysLink i old j new = (r, fs')) :
    (r = -1 ∧ fs' = fs) ∨ r = 0 ∧ ∃ ip dp a f g, fs.walk i old = some ip ∧
      fs.parent j new = some (dp, a) ∧ fs dp = some f ∧ f.type = T_DIR ∧ 0 < f.nlink ∧
      fs ip = some g ∧ g.type ≠ T_DIR ∧ IsName a ∧ lookup (dirents f.bytes) a = none ∧
      fs' = fs.link dp a ip := by
  cases hw : fs.walk i old with
  | none =>
    simp only [Files.sysLink, hw] at hs
    obtain ⟨rfl, rfl⟩ := Prod.mk.inj hs
    exact Or.inl ⟨rfl, rfl⟩
  | some ip =>
    cases hd : fs.isDir ip with
    | true =>
      simp only [Files.sysLink, hw, hd, if_true] at hs
      obtain ⟨rfl, rfl⟩ := Prod.mk.inj hs
      exact Or.inl ⟨rfl, rfl⟩
    | false =>
      cases hp : fs.parent j new with
      | none =>
        simp only [Files.sysLink, hw, hd, Bool.false_eq_true, if_false, hp] at hs
        obtain ⟨rfl, rfl⟩ := Prod.mk.inj hs
        exact Or.inl ⟨rfl, rfl⟩
      | some p =>
        obtain ⟨dp, a⟩ := p
        cases hc : fs.child dp a with
        | some x =>
          simp only [Files.sysLink, hw, hd, Bool.false_eq_true, if_false, hp, hc,
            Option.isSome_some, if_true] at hs
          obtain ⟨rfl, rfl⟩ := Prod.mk.inj hs
          exact Or.inl ⟨rfl, rfl⟩
        | none =>
          simp only [Files.sysLink, hw, hd, Bool.false_eq_true, if_false, hp, hc,
            Option.isSome_none] at hs
          obtain ⟨rfl, rfl⟩ := Prod.mk.inj hs
          obtain ⟨g, hg, -⟩ := h.linked_of_walk _ _ hi hold hw
          obtain ⟨⟨f, hf, hfn⟩, hdir, ha⟩ := h.linked_of_parent _ _ hj hnew hp
          have hfd : f.type = T_DIR := of_decide_eq_true ((Files.isDir_eq hf).symm.trans hdir)
          have hgd : g.type ≠ T_DIR := of_decide_eq_false ((Files.isDir_eq hg).symm.trans hd)
          rw [Files.child, Files.find_of_dir hf hfd, Option.map_eq_none_iff] at hc
          exact Or.inr ⟨rfl, ip, dp, a, f, g, rfl, rfl, hf, hfd, hfn, hg, hgd, ha, hc, rfl⟩

/-- What `unlink` does when it returns. -/
lemma sysUnlink_cases (h : Walkable fs) {refs : Multiset ℕ} {path : List (List UInt8)}
    (hi : fs.Linked i) (hpath : ∀ a ∈ path, IsName a) (hs : fs.sysUnlink refs i path = (r, fs')) :
    (r = -1 ∧ fs' = fs) ∨ r = 0 ∧ ∃ dp a e k f g, fs.parent i path = some (dp, a) ∧
      fs dp = some f ∧ f.type = T_DIR ∧ 0 < f.nlink ∧ IsName a ∧ a ≠ dot ∧ a ≠ dotdot ∧
      lookup (dirents f.bytes) a = some (e, k) ∧ fs e.inum.toNat = some g ∧
      (g.type = T_DIR → kids (dirents g.bytes) = []) ∧
      fs' = (fs.unlink dp k e.inum.toNat).sweep refs := by
  cases hp : fs.parent i path with
  | none =>
    simp only [Files.sysUnlink, hp] at hs
    obtain ⟨rfl, rfl⟩ := Prod.mk.inj hs
    exact Or.inl ⟨rfl, rfl⟩
  | some p =>
    obtain ⟨dp, a⟩ := p
    obtain ⟨⟨f, hf, hfn⟩, hdir, ha⟩ := h.linked_of_parent _ _ hi hpath hp
    have hd : f.type = T_DIR := of_decide_eq_true ((Files.isDir_eq hf).symm.trans hdir)
    by_cases hdots : a = dot ∨ a = dotdot
    · simp only [Files.sysUnlink, hp, hdots, if_true] at hs
      obtain ⟨rfl, rfl⟩ := Prod.mk.inj hs
      exact Or.inl ⟨rfl, rfl⟩
    cases hfind : fs.find dp a with
    | none =>
      simp only [Files.sysUnlink, hp, hdots, if_false, hfind] at hs
      obtain ⟨rfl, rfl⟩ := Prod.mk.inj hs
      exact Or.inl ⟨rfl, rfl⟩
    | some p =>
      obtain ⟨e, k⟩ := p
      have hlook : lookup (dirents f.bytes) a = some (e, k) := by
        rwa [Files.find_of_dir hf hd] at hfind
      obtain ⟨g, hg, -⟩ := h.linked hf hd hfn ha hlook
      cases hocc : fs.occupied e.inum.toNat with
      | true =>
        simp only [Files.sysUnlink, hp, hdots, if_false, hfind, hocc, if_true] at hs
        obtain ⟨rfl, rfl⟩ := Prod.mk.inj hs
        exact Or.inl ⟨rfl, rfl⟩
      | false =>
        simp only [Files.sysUnlink, hp, hdots, if_false, hfind, hocc, Bool.false_eq_true] at hs
        obtain ⟨rfl, rfl⟩ := Prod.mk.inj hs
        obtain ⟨hdot, hdotdot⟩ := not_or.mp hdots
        have hempty : g.type = T_DIR → kids (dirents g.bytes) = [] := fun hgd => by
          simpa [Files.occupied, hg, hgd] using hocc
        exact Or.inr ⟨rfl, dp, a, e, k, f, g, rfl, hf, hd, hfn, ha, hdot, hdotdot, hlook, hg,
          hempty, rfl⟩

end Walkable

namespace Sys

variable {sb : Superblock} {s : Sys} {fs : Files} {refs : Multiset ℕ} {i cwd : ℕ} {f g : File}

lemma wp_begin_op {v : Store} (h : Shows sb s v) :
    Wp begin_op Full (fun _ s' => Shows sb s' v) s := by
  rw [begin_op]
  exact wp_zoom (wp_modify ⟨h.ok.begin_op, h.files, h.refs, h.locks, h.locked, h.orphan⟩)

lemma wp_linkBad (h : Shows sb s ⟨fs.modify i (·.addNlink 1), i ::ₘ refs, ∅⟩) (hg : fs i = some g)
    (hn : 0 < g.nlink) :
    Wp (linkBad sb i) Full (fun r s' => r = -1 ∧ Shows sb s' ⟨fs, refs, ∅⟩) s := by
  have hself : fs.modify i (·.addNlink 1) i = some (g.addNlink 1) := Files.modify_self hg
  refine (wp_ilock h (Multiset.mem_cons_self ..) (Finset.notMem_empty i) hself).bind
    fun _ s₁ h₁ => ?_
  refine (wp_addNlink h₁ (Finset.mem_insert_self ..) hself (-1)).bind fun _ s₂ h₂ => ?_
  have hback : Function.update (fs.modify i (·.addNlink 1)) i
      (some { g.addNlink 1 with nlink := (g.addNlink 1).nlink + -1 }) = fs := by
    have hg' : ({ g.addNlink 1 with nlink := (g.addNlink 1).nlink + -1 } : File) = g := by
      show (⟨g.type, g.nlink + 1 + -1, g.bytes⟩ : File) = g
      rw [Int.add_neg_cancel_right]
    rw [hg', Files.modify, Function.update_idem, ← hg, Function.update_eq_self]
  have h₂ : Shows sb s₂ ⟨fs, i ::ₘ refs, insert i ∅⟩ := by
    rw [← hback]
    exact h₂
  exact (wp_iunlockput_linked h₂ (Finset.notMem_empty i) ⟨g, hg, hn⟩).bind
    fun _ s₃ h₃ => wp_pure ⟨rfl, h₃⟩

/-- **What `sys_link` does.**  It waits for the lock of a directory, which it holds, when the new
name is one of the directory itself. -/
lemma wp_sysLink (ht : Tidy sb fs) (h : Shows sb s ⟨fs, refs, ∅⟩) {old new : List UInt8}
    (hold : fs.Linked (start cwd old)) (hnew : fs.Linked (start cwd new))
    {E : Panic → Prop} (hE : ∀ e, Full e → E e)
    (hself : fs.LinksSelf (start cwd old) (elems old) (start cwd new) (elems new) → E .deadlock) :
    Wp (sysLink sb cwd old new) E (fun r s' =>
      ¬fs.LinksSelf (start cwd old) (elems old) (start cwd new) (elems new) ∧
        ∃ fs', fs.sysLink (start cwd old) (elems old) (start cwd new) (elems new) = (r, fs') ∧
          Shows sb s' ⟨fs', refs, ∅⟩) s := by
  have hnone : ∀ j : ℕ, j ∉ (∅ : Finset ℕ) := Finset.notMem_empty
  have hwalk := ht.walkable
  refine (wp_begin_op h).bind_errors hE fun _ s₀ h₀ =>
    (wp_namei hwalk h₀ hold).bind_errors hE fun r s₁ hr => ?_
  obtain ⟨rfl, h₁⟩ := hr
  cases hw : fs.walk (start cwd old) (elems old) with
  | none =>
    rw [hw] at h₁
    refine wp_pure ⟨?_, fs, by simp only [Files.sysLink, hw], h₁⟩
    rintro ⟨_, _, _, hw', -⟩
    exact absurd (hw.symm.trans hw') (by simp)
  | some ip =>
    rw [hw] at h₁
    obtain ⟨g, hg, hgn⟩ := hwalk.linked_of_walk _ _ hold (fun a ha => isName_of_mem_elems old ha) hw
    refine (wp_ilock h₁ (Multiset.mem_cons_self ..) (hnone ip) hg).bind_errors hE fun _ s₂ h₂ => ?_
    have hl : ip ∈ (insert ip ∅ : Finset ℕ) := Finset.mem_insert_self ..
    refine wp_bind (wp_bind (wp_get (wp_pure ?_)))
    rw [(h₂.inode_eq hl hg).1]
    refine wp_ite (fun hd => ?_) fun hd => ?_
    · refine (wp_iunlockput_linked h₂ (hnone ip) ⟨g, hg, hgn⟩).bind_errors hE fun _ s₃ h₃ => ?_
      have hdir : fs.isDir ip = true := (Files.isDir_eq hg).trans (decide_eq_true hd)
      refine wp_pure ⟨?_, fs, by simp only [Files.sysLink, hw, hdir, if_true], h₃⟩
      rintro ⟨_, _, _, hw', hnd, -⟩
      obtain rfl := Option.some.inj (hw.symm.trans hw')
      exact absurd (hdir.symm.trans hnd) (by decide)
    have hnd : fs.isDir ip = false := (Files.isDir_eq hg).trans (decide_eq_false hd)
    refine (wp_addNlink h₂ hl hg 1).bind_errors hE fun _ s₃ h₃ => ?_
    have h₃ : Shows sb s₃ ⟨fs.modify ip (·.addNlink 1), ip ::ₘ refs, insert ip ∅⟩ := by
      rw [Files.modify_eq hg]
      exact h₃
    refine (wp_iunlock_insert h₃ (hnone ip)).bind_errors hE fun _ s₄ h₄ => ?_
    obtain ⟨hwalk₁, hlinked₁⟩ := hwalk.addLink ⟨g, hg, hgn⟩
    refine (wp_nameiparent hwalk₁ h₄ (hlinked₁ _ hnew)).bind_errors hE fun r s₅ hr => ?_
    obtain ⟨rfl, h₅⟩ := hr
    rw [Files.parent_addNlink] at h₅ ⊢
    cases hp : fs.parent (start cwd new) (elems new) with
    | none =>
      rw [hp] at h₅
      refine (wp_linkBad h₅ hg hgn).mono (fun r s₆ hr => ⟨?_, fs, ?_, hr.2⟩) hE
      · rintro ⟨_, _, _, -, -, hp', -⟩
        exact absurd (hp.symm.trans hp') (by simp)
      · simp only [Files.sysLink, hw, hnd, Bool.false_eq_true, if_false, hp, hr.1]
    | some p =>
      obtain ⟨dp, a⟩ := p
      rw [hp] at h₅
      obtain ⟨⟨f, hf, hfn⟩, hdir, ha⟩ :=
        hwalk.linked_of_parent _ _ hnew (fun a ha => isName_of_mem_elems new ha) hp
      have hfd : f.type = T_DIR := of_decide_eq_true ((Files.isDir_eq hf).symm.trans hdir)
      have hne : dp ≠ ip := by
        rintro rfl
        exact absurd (hnd.symm.trans hdir) (by decide)
      have hf₁ : fs.modify ip (·.addNlink 1) dp = some f := (Files.modify_of_ne hne).trans hf
      have hchild : fs.child dp a = (lookup (dirents f.bytes) a).map fun r => r.1.inum.toNat := by
        rw [Files.child, Files.find_of_dir hf hfd]
      refine (wp_ilock h₅ (Multiset.mem_cons_self ..) (hnone dp) hf₁).bind_errors hE
        fun _ s₆ h₆ => ?_
      have hl' : dp ∈ (insert dp ∅ : Finset ℕ) := Finset.mem_insert_self ..
      by_cases hc : fs.child dp a = some dp
      · -- `dirlookup` takes a reference to the directory, and `iput` waits for its lock
        obtain ⟨⟨de, k⟩, hlook, hde⟩ := Option.map_eq_some_iff.mp (hchild.symm.trans hc)
        exact (wp_dirlink_self h₆ hl' hf₁ (hwalk.isDir hf hfd) hlook hde ip hE
          (hself ⟨ip, dp, a, hw, hnd, hp, hc⟩)).bind fun _ _ hr => hr.elim
      have hno : ¬fs.LinksSelf (start cwd old) (elems old) (start cwd new) (elems new) := by
        rintro ⟨_, _, _, -, -, hp', hc'⟩
        obtain ⟨rfl, rfl⟩ := Prod.mk.inj (Option.some.inj (hp.symm.trans hp'))
        exact hc hc'
      refine (wp_dirlink h₆ hl' hf₁ (hwalk.isDir hf hfd) a ip fun e k he =>
        ⟨fun hmem => ?_, ?_⟩).bind_errors hE fun r s₇ hr => ?_
      · have hdp : e.inum.toNat = dp := by simpa using hmem
        exact hc (by rw [hchild, he, Option.map_some, hdp])
      · obtain ⟨x, hx, hxn⟩ := hwalk₁.linked hf₁ hfd hfn ha he
        exact ⟨x, hx, hxn.ne'⟩
      · cases hlook : lookup (dirents f.bytes) a with
        | some r =>
          rw [hlook] at hr hchild
          obtain ⟨rfl, h₇⟩ := hr
          refine wp_ite (fun _ => ?_) fun hc => absurd (by decide) hc
          refine (wp_iunlockput_linked h₇ (hnone dp) ⟨f, hf₁, hfn⟩).bind_errors hE fun _ s₈ h₈ => ?_
          refine (wp_linkBad h₈ hg hgn).mono (fun r s₉ hr => ⟨hno, fs, ?_, hr.2⟩) hE
          simp only [Files.sysLink, hw, hnd, Bool.false_eq_true, if_false, hp, hchild,
            Option.map_some, Option.isSome_some, if_true, hr.1]
        | none =>
          rw [hlook] at hr hchild
          obtain ⟨rfl, h₇⟩ := hr
          refine wp_ite (fun hc => absurd hc (by decide)) fun _ => ?_
          have hlink : Function.update (fs.modify ip (·.addNlink 1)) dp
              (some (f.putEntry (freeEntry (dirents f.bytes)) (.link a ip))) = fs.link dp a ip := by
            rw [Files.link_eq hf hg hne, Files.modify_eq hg, hnd, if_neg Bool.false_ne_true,
              File.addNlink_zero]
            exact Function.update_comm hne.symm ..
          have h₇ : Shows sb s₇ ⟨fs.link dp a ip, dp ::ₘ ip ::ₘ refs, insert dp ∅⟩ := by
            rw [← hlink]
            exact h₇
          have hdp' : (fs.link dp a ip).Linked dp := by
            rw [← hlink]
            exact ⟨_, Function.update_self .., hfn⟩
          have hip' : (fs.link dp a ip).Linked ip := by
            refine ⟨g.addNlink 1, ?_, ?_⟩
            · rw [Files.link_eq hf hg hne, Function.update_self]
            · show 0 < g.nlink + 1
              omega
          refine (wp_iunlockput_linked h₇ (hnone dp) hdp').bind_errors hE fun _ s₈ h₈ => ?_
          refine (wp_iput_linked h₈ (hnone ip) hip').bind_errors hE fun _ s₉ h₉ =>
            wp_pure ⟨hno, _, ?_, h₉⟩
          simp only [Files.sysLink, hw, hnd, Bool.false_eq_true, if_false, hp, hchild,
            Option.map_none, Option.isSome_none]

end Sys

/-- Dropping a reference leaves the files that have links or references. -/
lemma Store.put_eq_sweep {sb : Superblock} {fs : Files} {refs : Multiset ℕ} {locks : Finset ℕ}
    {i : ℕ} {f : File} (hf : fs i = some f)
    (hoff : ∀ j g, j ≠ i → fs j = some g → g.nlink = 0 → j ∈ refs) :
    (⟨fs, i ::ₘ refs, locks⟩ : Store).put sb i = ⟨fs.sweep refs, refs, locks⟩ := by
  have hcount : (i ::ₘ refs).count i = 1 ↔ i ∉ refs := by
    rw [Multiset.count_cons_self, Nat.add_eq_right, Multiset.count_eq_zero]
  rw [Store.put, Files.sweep_eq hf hoff, Multiset.erase_cons_head, Files.next_iput hf]
  simp only [hcount]
  by_cases hr : i ∈ refs
  · simp [hr]
  · simp [hr]

lemma strncmp_name {a b : List UInt8} (ha : IsName a) (hb : IsName b) :
    strncmp a b DIRSIZ = 0 ↔ a = b := by
  rw [strncmp_eq_zero, ha.cstr, hb.cstr]

lemma isName_dot : IsName dot := ⟨by decide, by decide, by decide, by decide⟩

lemma isName_dotdot : IsName dotdot := ⟨by decide, by decide, by decide, by decide⟩

namespace Sys

variable {sb : Superblock} {s : Sys} {fs : Files} {refs : Multiset ℕ} {i cwd : ℕ} {f g : File}

/-- Whether a directory may go. -/
lemma wp_empty {locks : Finset ℕ} (ht : Tidy sb fs) (h : Shows sb s ⟨fs, refs, locks⟩)
    (hl : i ∈ locks) (hg : fs i = some g) :
    Wp (if g.type = T_DIR then isdirempty sb i else pure true) Full
      (fun r s' => r = !fs.occupied i ∧ Shows sb s' ⟨fs, refs, locks⟩) s := by
  have hocc : fs.occupied i = (decide (g.type = T_DIR) && !(kids (dirents g.bytes)).isEmpty) := by
    rw [Files.occupied, hg, Option.any_some]
  rw [hocc]
  refine wp_ite (fun hd => ?_) fun hd => wp_pure ?_
  · have hdir := ht.directory hg hd
    refine (wp_isdirempty h hl hg hdir.toIsDir hdir.two_le).post fun r s' hr => ⟨?_, hr.2⟩
    rw [hr.1, decide_eq_true hd, Bool.true_and, Bool.not_not]
  · rw [decide_eq_false hd]
    exact ⟨rfl, h⟩

/-- A link that is only counted for directories. -/
lemma wp_addNlink_if {locks : Finset ℕ} {c : Prop} [Decidable c]
    (h : Shows sb s ⟨fs, refs, locks⟩) (hl : i ∈ locks) (hf : fs i = some f) (n : ℤ) :
    Wp (if c then addNlink sb i n else pure ()) Full (fun _ s' => Shows sb s'
      ⟨Function.update fs i (some (f.addNlink (if c then n else 0))), refs, locks⟩) s := by
  refine wp_ite (fun hc => ?_) fun hc => wp_pure ?_
  · rw [if_pos hc]
    exact wp_addNlink h hl hf n
  · rw [if_neg hc, File.addNlink_zero, ← hf, Function.update_eq_self]
    exact h

/-- A reference is dropped, and the file may go. -/
lemma wp_iput_sweep {locks : Finset ℕ} (h : Shows sb s ⟨fs, i ::ₘ refs, locks⟩) (hl : i ∉ locks)
    (hf : fs i = some f) (hoff : ∀ j g, j ≠ i → fs j = some g → g.nlink = 0 → j ∈ refs) :
    Wp (iput sb i) Full (fun _ s' => Shows sb s' ⟨fs.sweep refs, refs, locks⟩) s := by
  refine (wp_iput h (Multiset.mem_cons_self ..) hl hf).post fun _ s₁ h₁ => ?_
  rwa [Store.put_eq_sweep hf hoff] at h₁

lemma wp_iunlockput_sweep {locks : Finset ℕ} (h : Shows sb s ⟨fs, i ::ₘ refs, insert i locks⟩)
    (hl : i ∉ locks) (hf : fs i = some f)
    (hoff : ∀ j g, j ≠ i → fs j = some g → g.nlink = 0 → j ∈ refs) :
    Wp (iunlockput sb i) Full (fun _ s' => Shows sb s' ⟨fs.sweep refs, refs, locks⟩) s :=
  (wp_iunlock_insert h hl).bind fun _ _ h₁ => wp_iput_sweep h₁ hl hf hoff

/-- **What `sys_unlink` does.** -/
lemma wp_sysUnlink (ht : Tidy sb fs) (h : Shows sb s ⟨fs, refs, ∅⟩) {path : List UInt8}
    (hcwd : fs.Linked (start cwd path)) :
    Wp (sysUnlink sb cwd path) Full (fun r s' =>
      ∃ fs', fs.sysUnlink refs (start cwd path) (elems path) = (r, fs') ∧
        Shows sb s' ⟨fs', refs, ∅⟩) s := by
  have hnone : ∀ j : ℕ, j ∉ (∅ : Finset ℕ) := Finset.notMem_empty
  have hwalk := ht.walkable
  refine (wp_begin_op h).bind fun _ s₀ h₀ => (wp_nameiparent hwalk h₀ hcwd).bind fun r s₁ hr => ?_
  obtain ⟨rfl, h₁⟩ := hr
  cases hp : fs.parent (start cwd path) (elems path) with
  | none =>
    rw [hp] at h₁
    exact wp_pure ⟨fs, by simp only [Files.sysUnlink, hp], h₁⟩
  | some p =>
    obtain ⟨dp, a⟩ := p
    rw [hp] at h₁
    obtain ⟨⟨f, hf, hfn⟩, hdir, ha⟩ :=
      hwalk.linked_of_parent _ _ hcwd (fun a ha => isName_of_mem_elems path ha) hp
    have hd : f.type = T_DIR := of_decide_eq_true ((Files.isDir_eq hf).symm.trans hdir)
    have hl : dp ∈ (insert dp ∅ : Finset ℕ) := Finset.mem_insert_self ..
    refine (wp_ilock h₁ (Multiset.mem_cons_self ..) (hnone dp) hf).bind fun _ s₂ h₂ => ?_
    refine wp_ite (fun hdots => ?_) fun hdots => ?_
    · rw [strncmp_name ha isName_dot, strncmp_name ha isName_dotdot] at hdots
      refine (wp_iunlockput_linked h₂ (hnone dp) ⟨f, hf, hfn⟩).bind fun _ s₃ h₃ => wp_pure ?_
      exact ⟨fs, by simp only [Files.sysUnlink, hp, hdots, if_true], h₃⟩
    rw [strncmp_name ha isName_dot, strncmp_name ha isName_dotdot] at hdots
    refine (wp_dirlookup h₂ hl hf (hwalk.isDir hf hd) a).bind fun r s₃ hr => ?_
    have hfind := Files.find_of_dir (a := a) hf hd
    cases hlook : lookup (dirents f.bytes) a with
    | none =>
      rw [hlook] at hr hfind
      obtain ⟨rfl, h₃⟩ := hr
      refine (wp_iunlockput_linked h₃ (hnone dp) ⟨f, hf, hfn⟩).bind fun _ s₄ h₄ => wp_pure ?_
      exact ⟨fs, by simp only [Files.sysUnlink, hp, hdots, if_false, hfind], h₄⟩
    | some p =>
      obtain ⟨e, k⟩ := p
      rw [hlook] at hr hfind
      obtain ⟨rfl, h₃⟩ := hr
      obtain ⟨g, hg, -⟩ := hwalk.linked hf hd hfn ha hlook
      obtain ⟨h2, hne, hgn, hone⟩ := ht.kid hf hd hfn ha hlook (fun hc => hdots (Or.inl hc))
        (fun hc => hdots (Or.inr hc)) hg
      have hk : k < (dirents f.bytes).length :=
        (List.getElem?_eq_some_iff.mp (lookup_eq_some hlook).1).1
      have hroom : DESIZE * k + DESIZE ≤ MAXFILE * BSIZE := by
        refine le_trans ?_ (h.ok.length_le ((congrFun h.files dp).trans hf))
        rw [(hwalk.isDir hf hd).whole, ← Nat.mul_succ]
        exact Nat.mul_le_mul_left _ hk
      show Wp (ilock e.inum.toNat >>= _) _ _ _
      generalize hi : e.inum.toNat = ip at *
      have hip : ip ∉ (insert dp ∅ : Finset ℕ) := by simpa using hne.symm
      have hdp : dp ∉ (insert ip ∅ : Finset ℕ) := by simpa using hne
      refine (wp_ilock h₃ (Multiset.mem_cons_self ..) hip hg).bind fun _ s₄ h₄ => ?_
      have hl₁ : ip ∈ (insert ip (insert dp ∅) : Finset ℕ) := Finset.mem_insert_self ..
      have hl₂ : dp ∈ (insert ip (insert dp ∅) : Finset ℕ) := Finset.mem_insert_of_mem hl
      refine wp_bind (wp_bind (wp_get (wp_pure ?_)))
      rw [(h₄.inode_eq hl₁ hg).1, (h₄.inode_eq hl₁ hg).2.1]
      refine wp_ite (fun hc => absurd hc (by omega)) fun _ => ?_
      refine (wp_empty ht h₄ hl₁ hg).bind fun r s₅ hr => ?_
      obtain ⟨rfl, h₅⟩ := hr
      refine wp_ite (fun hocc => ?_) fun hocc => ?_
      · have hocc : fs.occupied ip = true := by simpa using hocc
        refine (wp_iunlockput_linked h₅ hip ⟨g, hg, hgn⟩).bind fun _ s₆ h₆ => ?_
        refine (wp_iunlockput_linked h₆ (hnone dp) ⟨f, hf, hfn⟩).bind
          fun _ s₇ h₇ => wp_pure ⟨fs, ?_, h₇⟩
        simp only [Files.sysUnlink, hp, hdots, if_false, hfind, hi, hocc, if_true]
      have hocc : fs.occupied ip = false := by simpa using hocc
      have hempty : g.type = T_DIR → kids (dirents g.bytes) = [] := fun hgd => by
        simpa [Files.occupied, hg, hgd] using hocc
      refine (wp_writeEntry h₅ hl₂ hf (hwalk.isDir hf hd) .zero hk.le
        fun hfull => absurd hroom hfull.not_ge).bind fun _ s₆ h₆ => ?_
      have hf₆ : Function.update fs dp (some (f.putEntry k .zero)) dp =
        some (f.putEntry k .zero) := Function.update_self ..
      refine (wp_addNlink_if (c := g.type = T_DIR) h₆ hl₂ hf₆ (-1)).bind fun _ s₇ h₇ => ?_
      -- the directory, whose name is gone
      generalize hF : (f.putEntry k .zero).addNlink (if g.type = T_DIR then -1 else 0) = F at h₇
      have hFn : 0 < F.nlink := by
        rw [← hF]
        show 0 < f.nlink + if g.type = T_DIR then -1 else 0
        by_cases hgd : g.type = T_DIR
        · have := (hone hgd (hempty hgd)).2.2.2
          rw [if_pos hgd]
          omega
        · rw [if_neg hgd]
          omega
      have hFdp : Function.update fs dp (some F) dp = some F := Function.update_self ..
      have hgip : Function.update fs dp (some F) ip = some g :=
        (Function.update_of_ne hne.symm ..).trans hg
      have h₇ : Shows sb s₇ ⟨Function.update fs dp (some F), dp ::ₘ ip ::ₘ refs,
          insert dp (insert ip ∅)⟩ := by
        rw [Function.update_idem] at h₇
        rw [Multiset.cons_swap, Finset.insert_comm]
        exact h₇
      refine (wp_iunlockput_linked h₇ hdp ⟨F, hFdp, hFn⟩).bind fun _ s₈ h₈ => ?_
      refine (wp_addNlink h₈ (Finset.mem_insert_self ..) hgip (-1)).bind fun _ s₉ h₉ => ?_
      have hunlink : Function.update (Function.update fs dp (some F)) ip (some (g.addNlink (-1))) =
          fs.unlink dp k ip := by
        rw [Files.unlink_eq hf hg hne, ← hF, Files.isDir_eq hg]
        simp only [decide_eq_true_eq]
      have h₉ : Shows sb s₉ ⟨fs.unlink dp k ip, ip ::ₘ refs, insert ip ∅⟩ := by
        rw [← hunlink]
        exact h₉
      have hself : fs.unlink dp k ip ip = some (g.addNlink (-1)) := by
        rw [← hunlink, Function.update_self]
      refine (wp_iunlockput_sweep h₉ (hnone ip) hself fun j x hj hx hxn => ?_).bind
        fun _ s₁₀ h₁₀ => wp_pure ⟨_, ?_, h₁₀⟩
      · rw [← hunlink, Function.update_of_ne hj] at hx
        by_cases hjd : j = dp
        · rw [hjd, hFdp] at hx
          rw [← Option.some.inj hx] at hxn
          exact absurd hxn hFn.ne'
        · rw [Function.update_of_ne hjd] at hx
          exact (h.orphan hx hxn).1
      · simp only [Files.sysUnlink, hp, hdots, if_false, hfind, hi, hocc, Bool.false_eq_true]

end Sys

/-! ### New files -/

lemma dirents_nil : dirents [] = [] := rfl

lemma isDir_empty (n : ℤ) : IsDir (⟨T_DIR, n, []⟩ : File) := by
  refine ⟨rfl, ?_⟩
  show 0 = DESIZE * (dirents []).length
  rw [dirents_nil, List.length_nil, Nat.mul_zero]

/-- The first entry of a new directory. -/
lemma dirents_dot (n : ℤ) (ip : ℕ) :
    dirents ((⟨T_DIR, n, []⟩ : File).addEntry dot ip).bytes = [.link dot ip] := by
  have h := (isDir_empty n).dirents_putEntry (.link dot ip) (freeEntry_spec _).1
  have hnil : dirents (⟨T_DIR, n, []⟩ : File).bytes = [] := dirents_nil
  rw [hnil] at h
  rw [File.addEntry, hnil, h]
  rfl

lemma isDir_dot (n : ℤ) (ip : ℕ) : IsDir ((⟨T_DIR, n, []⟩ : File).addEntry dot ip) :=
  (isDir_empty n).putEntry _ (freeEntry_spec _).1

lemma lookup_dotdot (ip : ℕ) : lookup [.link dot ip] dotdot = none := by
  rw [lookup_eq_none]
  intro e he _
  rw [List.mem_singleton.mp he, Dirent.key_link]
  decide

namespace Files

lemma update_twice (fs : Files) (i : ℕ) (x y : Option File) :
    Function.update (Function.update fs i x) i y = Function.update fs i y :=
  Function.update_idem ..

lemma type_newFile (type : ℤ) (ip dp : ℕ) : (newFile type ip dp).type = type := by
  rw [newFile]
  split_ifs with hd
  · exact hd.symm
  · rfl

lemma unused_spec {sb : Superblock} {fs : Files} {i : ℕ} (h : fs.unused sb = some i) :
    fs i = none ∧ i ≠ 0 ∧ i < sb.ninodes := by
  have hmem := List.mem_of_find?_eq_some h
  have hnone : (fs i).isNone = true := List.find?_some (p := fun i => (fs i).isNone) h
  have hlt : i < sb.ninodes := List.mem_range.mp (List.mem_of_mem_drop hmem)
  refine ⟨Option.isNone_iff_eq_none.mp hnone, ?_, hlt⟩
  rintro rfl
  obtain ⟨k, hk⟩ := List.mem_iff_getElem?.mp hmem
  rw [List.getElem?_drop] at hk
  obtain ⟨hlen, hk⟩ := List.getElem?_eq_some_iff.mp hk
  rw [List.getElem_range] at hk
  omega

end Files

namespace Sys

variable {sb : Superblock} {s : Sys} {fs : Files} {refs : Multiset ℕ} {cwd dp ip : ℕ} {f : File}

lemma wp_createDots {locks : Finset ℕ} {n : ℤ} (h : Shows sb s ⟨fs, refs, locks⟩) (hl : ip ∈ locks)
    (hl' : dp ∈ locks) (hip : fs ip = some ⟨T_DIR, n, []⟩) (hdp : fs dp = some f) (hne : dp ≠ ip) :
    Wp (createDots sb ip dp) Full (fun _ s' => Shows sb s'
      ⟨Function.update (Function.update fs dp (some (f.addNlink 1))) ip
        (some (((⟨T_DIR, n, []⟩ : File).addEntry dot ip).addEntry dotdot dp)), refs, locks⟩) s := by
  refine (wp_addNlink h hl' hdp 1).bind fun _ s₁ h₁ => ?_
  have hip₁ : Function.update fs dp (some (f.addNlink 1)) ip = some ⟨T_DIR, n, []⟩ :=
    (Function.update_of_ne hne.symm ..).trans hip
  have hlook₁ : lookup (dirents (⟨T_DIR, n, []⟩ : File).bytes) dot = none := by
    show lookup (dirents []) dot = none
    rw [dirents_nil]
    rfl
  refine (wp_dirlink h₁ hl hip₁ (isDir_empty n) dot ip fun e k he => ?_).bind fun r s₂ hr => ?_
  · rw [hlook₁] at he
    exact absurd he (by simp)
  rw [hlook₁] at hr
  obtain ⟨rfl, h₂⟩ := hr
  refine wp_ite (fun hc => absurd hc (by decide)) fun _ => ?_
  have hip₂ : Function.update (Function.update fs dp (some (f.addNlink 1))) ip
      (some ((⟨T_DIR, n, []⟩ : File).addEntry dot ip)) ip =
        some ((⟨T_DIR, n, []⟩ : File).addEntry dot ip) := Function.update_self ..
  have hlook₂ : lookup (dirents ((⟨T_DIR, n, []⟩ : File).addEntry dot ip).bytes) dotdot = none := by
    rw [dirents_dot, lookup_dotdot]
  refine (wp_dirlink h₂ hl hip₂ (isDir_dot n ip) dotdot dp fun e k he => ?_).bind fun r s₃ hr => ?_
  · rw [hlook₂] at he
    exact absurd he (by simp)
  rw [hlook₂] at hr
  obtain ⟨rfl, h₃⟩ := hr
  refine wp_ite (fun hc => absurd hc (by decide)) fun _ => wp_pure ?_
  rw [← Files.update_twice _ ip (some ((⟨T_DIR, n, []⟩ : File).addEntry dot ip))]
  exact h₃

/-- The entries of a new file. -/
lemma wp_dots_if {locks : Finset ℕ} {type : ℤ} (h : Shows sb s ⟨fs, refs, locks⟩) (hl : ip ∈ locks)
    (hl' : dp ∈ locks) (hip : fs ip = some ⟨type, 1, []⟩) (hdp : fs dp = some f) (hne : dp ≠ ip) :
    Wp (if type = T_DIR then createDots sb ip dp else pure ()) Full (fun _ s' => Shows sb s'
      ⟨Function.update
          (Function.update fs dp (some (f.addNlink (if type = T_DIR then 1 else 0)))) ip
          (some ((Files.newFile type ip dp).addNlink 1)), refs, locks⟩) s := by
  refine wp_ite (fun hd => ?_) fun hd => wp_pure ?_
  · subst hd
    rw [if_pos rfl, Files.newFile, if_pos rfl]
    exact wp_createDots h hl hl' hip hdp hne
  · have hnew : (Files.newFile type ip dp).addNlink 1 = ⟨type, 1, []⟩ := by
      rw [Files.newFile, if_neg hd]
      rfl
    rw [if_neg hd, File.addNlink_zero, ← hdp, Function.update_eq_self, hnew, ← hip,
      Function.update_eq_self]
    exact h

/-- **What `create` does.** -/
lemma wp_create (ht : Tidy sb fs) (h : Shows sb s ⟨fs, refs, ∅⟩) {path : List UInt8} {type : ℤ}
    (hcwd : fs.Linked (start cwd path)) (htype : type ≠ 0) :
    Wp (create sb cwd path type) Full (fun r s' =>
      ∃ fs', fs.create sb (start cwd path) (elems path) type = (r, fs') ∧
        Shows sb s' ⟨fs', r.elim refs (· ::ₘ refs), r.elim ∅ (insert · ∅)⟩) s := by
  have hnone : ∀ j : ℕ, j ∉ (∅ : Finset ℕ) := Finset.notMem_empty
  have hwalk := ht.walkable
  refine (wp_nameiparent hwalk h hcwd).bind fun r s₁ hr => ?_
  obtain ⟨rfl, h₁⟩ := hr
  cases hp : fs.parent (start cwd path) (elems path) with
  | none =>
    rw [hp] at h₁
    exact wp_pure ⟨fs, by simp only [Files.create, hp], h₁⟩
  | some p =>
    obtain ⟨dp, a⟩ := p
    rw [hp] at h₁
    obtain ⟨⟨f, hf, hfn⟩, hdir, ha⟩ :=
      hwalk.linked_of_parent _ _ hcwd (fun a ha => isName_of_mem_elems path ha) hp
    have hd : f.type = T_DIR := of_decide_eq_true ((Files.isDir_eq hf).symm.trans hdir)
    have hl : dp ∈ (insert dp ∅ : Finset ℕ) := Finset.mem_insert_self ..
    refine (wp_ilock h₁ (Multiset.mem_cons_self ..) (hnone dp) hf).bind fun _ s₂ h₂ => ?_
    refine (wp_dirlookup h₂ hl hf (hwalk.isDir hf hd) a).bind fun r s₃ hr => ?_
    have hchild : fs.child dp a = (lookup (dirents f.bytes) a).map fun r => r.1.inum.toNat := by
      rw [Files.child, Files.find_of_dir hf hd]
    cases hlook : lookup (dirents f.bytes) a with
    | some r =>
      obtain ⟨e, k⟩ := r
      rw [hlook] at hr hchild
      obtain ⟨rfl, h₃⟩ := hr
      obtain ⟨g, hg, hgn⟩ := hwalk.linked hf hd hfn ha hlook
      rw [Option.map_some] at hchild
      show Wp (iunlockput sb dp >>= fun _ => ilock e.inum.toNat >>= _) _ _ _
      generalize e.inum.toNat = ip at *
      have h₃ : Shows sb s₃ ⟨fs, dp ::ₘ ip ::ₘ refs, insert dp ∅⟩ := by
        rw [Multiset.cons_swap]
        exact h₃
      refine (wp_iunlockput_linked h₃ (hnone dp) ⟨f, hf, hfn⟩).bind fun _ s₄ h₄ => ?_
      refine (wp_ilock h₄ (Multiset.mem_cons_self ..) (hnone ip) hg).bind fun _ s₅ h₅ => ?_
      refine wp_bind (wp_bind (wp_get (wp_pure ?_)))
      rw [(h₅.inode_eq (Finset.mem_insert_self ..) hg).1]
      have hany : ((fs ip).any fun f => decide (f.type = T_FILE)) = decide (g.type = T_FILE) := by
        rw [hg, Option.any_some]
      refine wp_ite (fun hc => wp_pure ⟨fs, ?_, h₅⟩) fun hc => ?_
      · simp only [Files.create, hp, hchild, hany, decide_eq_true_eq, hc, and_self, if_true]
      · refine (wp_iunlockput_linked h₅ (hnone ip) ⟨g, hg, hgn⟩).bind fun _ s₆ h₆ =>
          wp_pure ⟨fs, ?_, h₆⟩
        simp only [Files.create, hp, hchild, hany, decide_eq_true_eq, hc, if_false]
    | none =>
      rw [hlook] at hr hchild
      obtain ⟨rfl, h₃⟩ := hr
      refine wp_ialloc_ilock h₃ htype fun ip s₄ hfind h₄ => ?_
      have hunused : fs.unused sb = some ip := hfind
      have hip := (Files.unused_spec hunused).1
      have hne : dp ≠ ip := by
        rintro rfl
        exact absurd (hip.symm.trans hf) (by simp)
      have hself : ∀ x : File, Function.update fs ip (some x) ip = some x :=
        fun x => Function.update_self ..
      have hother : ∀ x : File, Function.update fs ip (some x) dp = some f :=
        fun x => (Function.update_of_ne hne ..).trans hf
      have hdp : dp ∉ (insert ip ∅ : Finset ℕ) := by simpa using hne
      have hl₁ : ip ∈ (insert ip (insert dp ∅) : Finset ℕ) := Finset.mem_insert_self ..
      have hl₂ : dp ∈ (insert ip (insert dp ∅) : Finset ℕ) := Finset.mem_insert_of_mem hl
      refine (wp_setNlink h₄ hl₁ (hself _) 1).bind fun _ s₅ h₅ => ?_
      have h₅ : Shows sb s₅ ⟨Function.update fs ip (some ⟨type, 1, []⟩), ip ::ₘ dp ::ₘ refs,
          insert ip (insert dp ∅)⟩ := by
        rw [← Files.update_twice fs ip (some ⟨type, 0, []⟩)]
        exact h₅
      refine (wp_dots_if h₅ hl₁ hl₂ (hself _) (hother _) hne).bind fun _ s₆ h₆ => ?_
      -- the directory and the new file, without the name
      have hFn : 0 < (f.addNlink (if type = T_DIR then 1 else 0)).nlink := by
        show 0 < f.nlink + if type = T_DIR then 1 else 0
        split_ifs <;> omega
      have hdirF : IsDir (f.addNlink (if type = T_DIR then 1 else 0)) :=
        ⟨hd, (hwalk.isDir hf hd).whole⟩
      have hlink : Files.link (Function.update fs ip (some (Files.newFile type ip dp))) dp a ip =
          Function.update (Function.update fs dp (some
            ((f.addNlink (if type = T_DIR then 1 else 0)).addEntry a ip))) ip
              (some ((Files.newFile type ip dp).addNlink 1)) := by
        rw [Files.link_eq (hother _) (hself _) hne, Files.isDir_eq (hself _), Files.type_newFile,
          Function.update_comm hne.symm, Function.update_idem]
        simp only [decide_eq_true_eq]
        rfl
      have hlookF : lookup (dirents (f.addNlink (if type = T_DIR then 1 else 0)).bytes) a = none :=
        hlook
      generalize f.addNlink (if type = T_DIR then 1 else 0) = F at *
      generalize (Files.newFile type ip dp).addNlink 1 = N at *
      have h₆ : Shows sb s₆ ⟨Function.update (Function.update fs dp (some F)) ip (some N),
          ip ::ₘ dp ::ₘ refs, insert ip (insert dp ∅)⟩ := by
        rw [Function.update_comm hne.symm, Function.update_idem] at h₆
        exact h₆
      have hF : Function.update (Function.update fs dp (some F)) ip (some N) dp = some F :=
        (Function.update_of_ne hne ..).trans (Function.update_self ..)
      refine (wp_dirlink h₆ hl₂ hF hdirF a ip fun e k he => ?_).bind fun r s₇ hr => ?_
      · rw [hlookF] at he
        exact absurd he (by simp)
      rw [hlookF] at hr
      obtain ⟨rfl, h₇⟩ := hr
      refine wp_ite (fun hc => absurd hc (by decide)) fun _ => ?_
      have hfiles : Function.update (Function.update (Function.update fs dp (some F)) ip
          (some N)) dp (some (F.putEntry (freeEntry (dirents F.bytes)) (.link a ip))) =
            Files.link (Function.update fs ip (some (Files.newFile type ip dp))) dp a ip := by
        rw [hlink, Function.update_comm hne.symm, Files.update_twice]
        rfl
      have h₇ : Shows sb s₇
          ⟨Files.link (Function.update fs ip (some (Files.newFile type ip dp))) dp a ip,
            dp ::ₘ ip ::ₘ refs, insert dp (insert ip ∅)⟩ := by
        rw [Multiset.cons_swap, Finset.insert_comm, ← hfiles]
        exact h₇
      have hdp' : (Files.link (Function.update fs ip (some (Files.newFile type ip dp))) dp a
          ip).Linked dp := by
        rw [← hfiles]
        exact ⟨_, Function.update_self .., hFn⟩
      refine (wp_iunlockput_linked h₇ hdp hdp').bind fun _ s₈ h₈ => wp_pure ⟨_, ?_, h₈⟩
      simp only [Files.create, hp, hchild, Option.map_none, hunused]

end Sys

end Xv6Projects.Fs
