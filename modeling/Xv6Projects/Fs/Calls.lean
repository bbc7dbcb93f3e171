import Xv6Projects.Fs.Filewrite
import Xv6Projects.Fs.Tidy

/-!
# System calls of processes

Processes with directories and open files make system calls.  What one of them does is said by a
world of files with names, without blocks, inodes in memory and locks; and it keeps the world good:
the tree is tidy, references are to files, and a file without links has references.
-/

namespace Xv6Projects.Fs

open Library Disk

/-! ### Calls -/

/-- An open file that is an inode. -/
structure OpenFile where
  ip : ℕ
  readable : Bool
  writable : Bool
deriving DecidableEq

/-- The inode `i` is opened with `omode`. -/
def OpenFile.new (i : ℕ) (omode : UInt32) : OpenFile where
  ip := i
  readable := decide (omode &&& O_WRONLY = 0)
  writable := decide (omode &&& O_WRONLY ≠ 0) || decide (omode &&& O_RDWR ≠ 0)

/-- The system calls that have to do with files, and what `fork`, `exit` and the last `close` of an
open file do.  A process is known by its directory `cwd`; reads and writes are at the offset `off`
of the open file, whatever it is. -/
inductive Call
  | fork (cwd : ℕ)
  | exit (cwd : ℕ)
  | sysChdir (cwd : ℕ) (path : List UInt8)
  | sysOpen (cwd : ℕ) (path : List UInt8) (omode : UInt32) (room : Bool)
  | fileclose (f : OpenFile)
  | fileread (f : OpenFile) (off n : UInt32)
  | filewrite (f : OpenFile) (src : ℕ → UInt8) (off : UInt32) (n : ℕ)
  | sysLink (cwd : ℕ) (old new : List UInt8)
  | sysUnlink (cwd : ℕ) (path : List UInt8)
  | sysMkdir (cwd : ℕ) (path : List UInt8)
  | sysMknod (cwd : ℕ) (path : List UInt8)

namespace Sys

variable (sb : Superblock)

/-- One transaction of `filewrite`. -/
def transaction (i : ℕ) (src : ℕ → UInt8) (off : UInt32) (n : ℕ) : SM ℤ := do
  begin_op
  ilock i
  let r ← onDisk (writei sb i src off (UInt32.ofNat n))
  iunlock i
  return r

/-- A call of a process: what it returns, with the number of the inode for the descriptor of an open
file, and the bytes that are read. -/
def call : Call → SM Reply
  | .fork cwd => do
    idup cwd
    return (0, [])
  | .exit cwd => do
    begin_op
    iput sb cwd
    return (0, [])
  | .sysChdir cwd path => do
    let r ← sysChdir sb cwd path
    return (r.elim (-1) fun _ => 0, [])
  | .sysOpen cwd path omode room => do
    let r ← sysOpen sb cwd path omode room
    return (r.elim (-1) fun i => (i : ℤ), [])
  | .fileclose f => do
    begin_op
    iput sb f.ip
    return (0, [])
  | .fileread f off n =>
    if f.readable = false then return (-1, [])
    else do
      ilock f.ip
      let r ← onDisk (readi sb f.ip off n)
      iunlock f.ip
      return r
  | .filewrite f src off n =>
    if f.writable = false then return (-1, [])
    else do
      let r ← transactions (transaction sb f.ip) src n off
      return (r.1, [])
  | .sysLink cwd old new => do
    let r ← sysLink sb cwd old new
    return (r, [])
  | .sysUnlink cwd path => do
    let r ← sysUnlink sb cwd path
    return (r, [])
  | .sysMkdir cwd path => do
    let r ← sysMkdir sb cwd path
    return (r, [])
  | .sysMknod cwd path => do
    let r ← sysMknod sb cwd path
    return (r, [])

end Sys

/-! ### What they are for -/

/-- The files, the directories of the processes, and the open files. -/
structure World where
  files : Files
  cwds : Multiset ℕ
  ftable : Multiset OpenFile

namespace Files

/-- The file that is opened. -/
def openInode (fs : Files) (sb : Superblock) (i : ℕ) (path : List (List UInt8)) (omode : UInt32) :
    Option ℕ × Files :=
  if omode &&& O_CREATE ≠ 0 then fs.create sb i path T_FILE
  else
    match fs.walk i path with
    | none => (none, fs)
    | some ip => (if fs.isDir ip = true ∧ omode ≠ O_RDONLY then none else some ip, fs)

/-- Bytes are written, as many of them as whole transactions write when there is no room for all. -/
def filewrite (fs : Files) (i : ℕ) (src : ℕ → UInt8) (off : UInt32) (n : ℕ) : ℤ × Files :=
  match fs i with
  | none => (-1, fs)
  | some f =>
    let m := room f.bytes.length off.toNat
    (if n ≤ m then n else -1,
      Function.update fs i (some (f.write off.toNat ((List.range (fits m n)).map src))))

end Files

namespace World

variable (sb : Superblock) (w : World)

/-- The references to inodes. -/
def refs : Multiset ℕ := w.cwds + w.ftable.map OpenFile.ip

def store : Store := ⟨w.files, w.refs, ∅⟩

/-- Files without links and references go. -/
def sweep : World := { w with files := w.files.sweep w.refs }

/-- A call on files with names. -/
def next : Call → Reply × World
  | .fork cwd => ((0, []), { w with cwds := cwd ::ₘ w.cwds })
  | .exit cwd => ((0, []), { w with cwds := w.cwds.erase cwd }.sweep)
  | .sysChdir cwd path =>
    match w.files.walk (Sys.start cwd path) (elems path) with
    | none => ((-1, []), w)
    | some i =>
      if w.files.isDir i = true then
        ((0, []), { w with cwds := i ::ₘ w.cwds.erase cwd }.sweep)
      else ((-1, []), w)
  | .sysOpen cwd path omode room =>
    match w.files.openInode sb (Sys.start cwd path) (elems path) omode with
    | (none, fs) => ((-1, []), { w with files := fs })
    | (some i, fs) =>
      if room = true then
        ((i, []), { w with files := fs, ftable := .new i omode ::ₘ w.ftable })
      else ((-1, []), { w with files := fs })
  | .fileclose f => ((0, []), { w with ftable := w.ftable.erase f }.sweep)
  | .fileread f off n =>
    (if f.readable = true then (w.files.next sb (.readi f.ip off n)).1 else (-1, []), w)
  | .filewrite f src off n =>
    if f.writable = true then
      let r := w.files.filewrite f.ip src off n
      ((r.1, []), { w with files := r.2 })
    else ((-1, []), w)
  | .sysLink cwd old new =>
    let r := w.files.sysLink (Sys.start cwd old) (elems old) (Sys.start cwd new) (elems new)
    ((r.1, []), { w with files := r.2 })
  | .sysUnlink cwd path =>
    let r := w.files.sysUnlink w.refs (Sys.start cwd path) (elems path)
    ((r.1, []), { w with files := r.2 })
  | .sysMkdir cwd path =>
    let r := w.files.create sb (Sys.start cwd path) (elems path) T_DIR
    ((r.1.elim (-1) fun _ => 0, []), { w with files := r.2 })
  | .sysMknod cwd path =>
    let r := w.files.create sb (Sys.start cwd path) (elems path) T_DEV
    ((r.1.elim (-1) fun _ => 0, []), { w with files := r.2 })

/-- A path can be followed: it is absolute, or the directory of the process has not been removed. -/
def Begins (cwd : ℕ) (path : List UInt8) : Prop :=
  cwd ∈ w.cwds ∧ (path.headD 0 = slash ∨ w.files.Linked cwd)

/-- The process has its directory and its open file, which is no device; a path is followed from a
directory that has not been removed; and the new name of a link is not one that leads from a
directory to itself. -/
def Allows : Call → Prop
  | .fork cwd | .exit cwd => cwd ∈ w.cwds
  | .sysChdir cwd path | .sysOpen cwd path _ _ | .sysUnlink cwd path | .sysMkdir cwd path
  | .sysMknod cwd path => w.Begins cwd path
  | .fileclose f => f ∈ w.ftable
  | .fileread f _ _ | .filewrite f _ _ _ => f ∈ w.ftable ∧
    ∀ x, w.files f.ip = some x → x.type ≠ T_DEV
  | .sysLink cwd old new => w.Begins cwd old ∧ w.Begins cwd new ∧
    ∀ dp a, w.files.parent (Sys.start cwd new) (elems new) = some (dp, a) →
      w.files.child dp a ≠ some dp

/-- A file system with processes, between two calls. -/
structure Good : Prop where
  tidy : Tidy sb w.files
  held {i : ℕ} : i ∈ w.refs → ∃ f, w.files i = some f
  orphan {i : ℕ} {f : File} : w.files i = some f → f.nlink = 0 → i ∈ w.refs
  writable {f : OpenFile} {x : File} : f ∈ w.ftable → f.writable = true → w.files f.ip = some x →
    x.type ≠ T_DIR

end World

/-! ### Calls keep a good world -/

namespace World

variable {sb : Superblock} {w w' : World} {i cwd : ℕ} {f : OpenFile}

lemma mem_refs_of_cwds (h : cwd ∈ w.cwds) : cwd ∈ w.refs := Multiset.mem_add.mpr (Or.inl h)

lemma mem_refs_of_ftable (h : f ∈ w.ftable) : f.ip ∈ w.refs :=
  Multiset.mem_add.mpr (Or.inr (Multiset.mem_map_of_mem OpenFile.ip h))

/-- The references without that of a process. -/
lemma refs_of_cwd (h : cwd ∈ w.cwds) :
    w.refs = cwd ::ₘ { w with cwds := w.cwds.erase cwd }.refs := by
  rw [refs, refs, ← Multiset.cons_add, Multiset.cons_erase h]

/-- The references without that of an open file. -/
lemma refs_of_ftable (h : f ∈ w.ftable) :
    w.refs = f.ip ::ₘ { w with ftable := w.ftable.erase f }.refs := by
  have hmap : w.ftable.map OpenFile.ip = f.ip ::ₘ (w.ftable.erase f).map OpenFile.ip := by
    rw [← Multiset.map_cons OpenFile.ip f, Multiset.cons_erase h]
  rw [refs, refs, hmap, Multiset.add_cons]

namespace Good

lemma linked_start (h : w.Good sb) {path : List UInt8} (hb : w.Begins cwd path) :
    w.files.Linked (Sys.start cwd path) := by
  rw [Sys.start]
  split_ifs with hs
  · obtain ⟨x, hx, hl, -⟩ := h.tidy.tree.root
    obtain ⟨f, hf, rfl⟩ := Files.exists_of_nodes hx
    exact ⟨f, hf, hl.2⟩
  · exact hb.2.resolve_left hs

/-- No file goes. -/
lemma extend (h : w.Good sb) {fs : Files} (ht : Tidy sb fs) (he : Extends w.files fs) :
    Good sb { w with files := fs } := by
  refine ⟨ht, fun hi => ?_, fun hf hn => ?_, fun hi hw hf => ?_⟩
  · obtain ⟨f, hf⟩ := h.held hi
    obtain ⟨f', hf', -⟩ := he.kept hf
    exact ⟨f', hf'⟩
  · obtain ⟨f, hf, hn⟩ := he.orphan hf hn
    exact h.orphan hf hn
  · obtain ⟨g, hg⟩ := h.held (mem_refs_of_ftable hi)
    obtain ⟨g', hg', ht'⟩ := he.kept hg
    obtain rfl := Option.some.inj (hg'.symm.trans hf)
    rw [ht']
    exact h.writable hi hw hg

/-- One reference goes, and maybe its file. -/
lemma sweep (h : w.Good sb) (hfiles : w'.files = w.files) (hi : i ∈ w.refs)
    (hrefs : ∀ j, j ≠ i → j ∈ w.refs → j ∈ w'.refs)
    (hheld : ∀ j, j ∈ w'.refs → ∃ f, w.files j = some f)
    (hftable : ∀ f, f ∈ w'.ftable → f ∈ w.ftable) : w'.sweep.Good sb := by
  obtain ⟨f, hf⟩ := h.held hi
  refine ⟨?_, fun {j} hj => ?_, fun hg hn => ?_, fun hj hw hg => ?_⟩
  · show Tidy sb (w'.files.sweep w'.refs)
    rw [hfiles]
    exact h.tidy.sweep hf fun j g hj hg hn => hrefs j hj (h.orphan hg hn)
  · obtain ⟨g, hg⟩ := hheld j hj
    exact ⟨g, Files.sweep_eq_some.mpr ⟨hfiles ▸ hg, Or.inr hj⟩⟩
  · exact (Files.sweep_eq_some.mp hg).2.resolve_left fun hc => hc hn
  · have hg := (Files.sweep_eq_some.mp hg).1
    rw [hfiles] at hg
    exact h.writable (hftable _ hj) hw hg

lemma exit (h : w.Good sb) (hc : cwd ∈ w.cwds) :
    Good sb { w with cwds := w.cwds.erase cwd }.sweep := by
  have hrefs := refs_of_cwd hc
  refine h.sweep rfl (mem_refs_of_cwds hc) (fun j hj hr => ?_) (fun j hj => h.held ?_)
    fun j hj => hj
  · rw [hrefs] at hr
    exact (Multiset.mem_cons.mp hr).resolve_left hj
  · rw [hrefs]
    exact Multiset.mem_cons_of_mem hj

lemma fileclose (h : w.Good sb) (hc : f ∈ w.ftable) :
    Good sb { w with ftable := w.ftable.erase f }.sweep := by
  have hrefs := refs_of_ftable hc
  refine h.sweep rfl (mem_refs_of_ftable hc) (fun j hj hr => ?_) (fun j hj => h.held ?_)
    fun j hj => Multiset.mem_of_mem_erase hj
  · rw [hrefs] at hr
    exact (Multiset.mem_cons.mp hr).resolve_left hj
  · rw [hrefs]
    exact Multiset.mem_cons_of_mem hj

lemma chdir (h : w.Good sb) (hc : cwd ∈ w.cwds) (hi : ∃ f, w.files i = some f) :
    Good sb { w with cwds := i ::ₘ w.cwds.erase cwd }.sweep := by
  have hrefs := refs_of_cwd hc
  have hcons : { w with cwds := i ::ₘ w.cwds.erase cwd }.refs =
      i ::ₘ { w with cwds := w.cwds.erase cwd }.refs := Multiset.cons_add ..
  refine h.sweep rfl (mem_refs_of_cwds hc) (fun j hj hr => ?_) (fun j hj => ?_) fun j hj => hj
  · rw [hrefs] at hr
    rw [hcons]
    exact Multiset.mem_cons_of_mem ((Multiset.mem_cons.mp hr).resolve_left hj)
  · rw [hcons] at hj
    obtain rfl | hj := Multiset.mem_cons.mp hj
    · exact hi
    · refine h.held ?_
      rw [hrefs]
      exact Multiset.mem_cons_of_mem hj

/-- A file is opened. -/
lemma sysOpen (h : w.Good sb) (hi : ∃ x, w.files f.ip = some x)
    (hw : f.writable = true → ∀ x, w.files f.ip = some x → x.type ≠ T_DIR) :
    Good sb { w with ftable := f ::ₘ w.ftable } := by
  have hcons : { w with ftable := f ::ₘ w.ftable }.refs = f.ip ::ₘ w.refs := by
    rw [refs, refs, Multiset.map_cons, Multiset.add_cons]
  refine ⟨h.tidy, fun hj => ?_, fun hf hn => ?_, fun {g x} hj hwr hx => ?_⟩
  · rw [hcons] at hj
    obtain rfl | hj := Multiset.mem_cons.mp hj
    · exact hi
    · exact h.held hj
  · rw [hcons]
    exact Multiset.mem_cons_of_mem (h.orphan hf hn)
  · obtain rfl | hj := Multiset.mem_cons.mp hj
    · exact hw hwr x hx
    · exact h.writable hj hwr hx

lemma fork (h : w.Good sb) (hc : cwd ∈ w.cwds) : Good sb { w with cwds := cwd ::ₘ w.cwds } := by
  have hcons : { w with cwds := cwd ::ₘ w.cwds }.refs = cwd ::ₘ w.refs := Multiset.cons_add ..
  refine ⟨h.tidy, fun hj => ?_, fun hf hn => ?_, fun hj hwr hf => h.writable hj hwr hf⟩
  · rw [hcons] at hj
    obtain rfl | hj := Multiset.mem_cons.mp hj
    · exact h.held (mem_refs_of_cwds hc)
    · exact h.held hj
  · rw [hcons]
    exact Multiset.mem_cons_of_mem (h.orphan hf hn)

end Good

end World

/-! ### Opening -/

lemma ne_of_writable {i : ℕ} {omode : UInt32} (h : (OpenFile.new i omode).writable = true) :
    omode ≠ O_RDONLY := by
  rintro rfl
  exact absurd h (by simp [OpenFile.new, O_RDONLY])

/-- What is opened for writing is no directory. -/
lemma Tidy.openInode {sb : Superblock} {fs : Files} {i : ℕ} {path : List (List UInt8)}
    (h : Tidy sb fs) (hsb : sb.ninodes ≤ 2 ^ 16) (hi : fs.Linked i)
    (hpath : ∀ a ∈ path, IsName a) (omode : UInt32) :
    Tidy sb (fs.openInode sb i path omode).2 ∧ Extends fs (fs.openInode sb i path omode).2 ∧
      ∀ ip, (fs.openInode sb i path omode).1 = some ip →
        ∃ g, (fs.openInode sb i path omode).2 ip = some g ∧ 0 < g.nlink ∧
          ((OpenFile.new ip omode).writable = true → g.type ≠ T_DIR) := by
  by_cases hc : omode &&& O_CREATE ≠ 0
  · rw [Files.openInode, if_pos hc]
    obtain ⟨ht, he, hnew⟩ := h.create hsb hi hpath T_FILE
    refine ⟨ht, he, fun ip hip => ?_⟩
    obtain ⟨g, hg, hn, hgt⟩ := hnew ip hip
    refine ⟨g, hg, hn, fun _ => ?_⟩
    rw [hgt]
    decide
  · rw [Files.openInode, if_neg hc]
    cases hw : fs.walk i path with
    | none => exact ⟨h, Extends.refl fs, fun ip hip => absurd hip (by simp)⟩
    | some m =>
      obtain ⟨g, hg, hn⟩ := h.walkable.linked_of_walk _ _ hi hpath hw
      refine ⟨h, Extends.refl fs, fun ip hip => ?_⟩
      have hip : (if fs.isDir m = true ∧ omode ≠ O_RDONLY then none else some m) = some ip := hip
      split_ifs at hip with hdir
      obtain rfl := Option.some.inj hip
      refine ⟨g, hg, hn, fun hwr hd => hdir ⟨?_, ne_of_writable hwr⟩⟩
      rw [Files.isDir_eq hg, decide_eq_true hd]

namespace Sys

variable {sb : Superblock} {s : Sys} {fs : Files} {refs : Multiset ℕ} {i cwd : ℕ} {f : File}
  {path : List UInt8}

lemma wp_openInode (ht : Tidy sb fs) (h : Shows sb s ⟨fs, refs, ∅⟩)
    (hcwd : fs.Linked (start cwd path)) (omode : UInt32) :
    Wp (openInode sb cwd path omode) Full (fun r s' =>
      ∃ fs', fs.openInode sb (start cwd path) (elems path) omode = (r, fs') ∧
        Shows sb s' ⟨fs', r.elim refs (· ::ₘ refs), r.elim ∅ (insert · ∅)⟩) s := by
  refine wp_ite (fun hc => ?_) fun hc => ?_
  · have hspec : fs.openInode sb (start cwd path) (elems path) omode =
        fs.create sb (start cwd path) (elems path) T_FILE := if_pos hc
    rw [hspec]
    exact wp_create ht h hcwd (by decide)
  · refine (wp_namei ht.walkable h hcwd).bind fun r s₁ hr => ?_
    obtain ⟨rfl, h₁⟩ := hr
    cases hw : fs.walk (start cwd path) (elems path) with
    | none =>
      rw [hw] at h₁
      exact wp_pure ⟨fs, by simp only [Files.openInode, hc, if_false, hw], h₁⟩
    | some ip =>
      rw [hw] at h₁
      obtain ⟨g, hg, hn⟩ := ht.walkable.linked_of_walk _ _ hcwd
        (fun a ha => isName_of_mem_elems path ha) hw
      refine (wp_ilock h₁ (Multiset.mem_cons_self ..) (Finset.notMem_empty ip) hg).bind
        fun _ s₂ h₂ => ?_
      refine wp_bind (wp_bind (wp_get (wp_pure ?_)))
      rw [(h₂.inode_eq (Finset.mem_insert_self ..) hg).1]
      have hdir : fs.isDir ip = true ↔ g.type = T_DIR := by
        rw [Files.isDir_eq hg, decide_eq_true_eq]
      refine wp_ite (fun hd => ?_) fun hd => wp_pure ⟨fs, ?_, h₂⟩
      · refine (wp_iunlockput_linked h₂ (Finset.notMem_empty ip) ⟨g, hg, hn⟩).bind
          fun _ s₃ h₃ => wp_pure ⟨fs, ?_, h₃⟩
        simp only [Files.openInode, hc, if_false, hw, hdir]
        rw [if_pos hd]
      · simp only [Files.openInode, hc, if_false, hw, hdir]
        rw [if_neg hd]

/-- What `sys_open` does: the file that it creates is there also when there is no room for the open
file. -/
lemma wp_sysOpen (hsb : sb.ninodes ≤ 2 ^ 16) (ht : Tidy sb fs) (h : Shows sb s ⟨fs, refs, ∅⟩)
    (hcwd : fs.Linked (start cwd path)) (omode : UInt32) (room : Bool) :
    Wp (sysOpen sb cwd path omode room) Full (fun r s' =>
      r = (if room = true then (fs.openInode sb (start cwd path) (elems path) omode).1 else none) ∧
        Shows sb s' ⟨(fs.openInode sb (start cwd path) (elems path) omode).2,
          r.elim refs (· ::ₘ refs), ∅⟩) s := by
  obtain ⟨-, -, hnew⟩ := ht.openInode hsb hcwd (fun a ha => isName_of_mem_elems path ha) omode
  refine (wp_begin_op h).bind fun _ s₀ h₀ => (wp_openInode ht h₀ hcwd omode).bind fun r s₁ hr => ?_
  obtain ⟨fs', hspec, h₁⟩ := hr
  rw [hspec] at hnew ⊢
  cases r with
  | none =>
    refine wp_pure ⟨?_, h₁⟩
    rw [ite_self]
  | some ip =>
    obtain ⟨g, hg, hn, -⟩ := hnew ip rfl
    refine wp_ite (fun hroom => ?_) fun hroom => ?_
    · refine (wp_iunlockput_linked h₁ (Finset.notMem_empty ip) ⟨g, hg, hn⟩).bind
        fun _ s₂ h₂ => wp_pure ⟨?_, h₂⟩
      rw [hroom, if_neg Bool.false_ne_true]
    · refine (wp_iunlock_insert h₁ (Finset.notMem_empty ip)).bind fun _ s₂ h₂ => wp_pure ⟨?_, h₂⟩
      rw [if_pos (Bool.eq_true_of_not_eq_false hroom)]

/-- What `sys_mkdir` and `sys_mknod` do. -/
lemma wp_sysCreate (hsb : sb.ninodes ≤ 2 ^ 16) (ht : Tidy sb fs) (h : Shows sb s ⟨fs, refs, ∅⟩)
    (hcwd : fs.Linked (start cwd path)) {type : ℤ} (htype : type ≠ 0) :
    Wp (sysCreate sb cwd path type) Full (fun r s' =>
      r = ((fs.create sb (start cwd path) (elems path) type).1.elim (-1) fun _ => 0) ∧
        Shows sb s' ⟨(fs.create sb (start cwd path) (elems path) type).2, refs, ∅⟩) s := by
  obtain ⟨-, -, hnew⟩ := ht.create hsb hcwd (fun a ha => isName_of_mem_elems path ha) type
  refine (wp_begin_op h).bind fun _ s₀ h₀ => (wp_create ht h₀ hcwd htype).bind fun r s₁ hr => ?_
  obtain ⟨fs', hspec, h₁⟩ := hr
  rw [hspec] at hnew ⊢
  cases r with
  | none => exact wp_pure ⟨rfl, h₁⟩
  | some ip =>
    obtain ⟨g, hg, hn, -⟩ := hnew ip rfl
    exact (wp_iunlockput_linked h₁ (Finset.notMem_empty ip) ⟨g, hg, hn⟩).bind
      fun _ s₂ h₂ => wp_pure ⟨rfl, h₂⟩

/-- What `sys_chdir` does. -/
lemma wp_sysChdir (ht : Tidy sb fs) (h : Shows sb s ⟨fs, cwd ::ₘ refs, ∅⟩)
    (hcwd : fs.Linked (start cwd path)) (hf : fs cwd = some f)
    (hoff : ∀ j g, fs j = some g → g.nlink = 0 → j ∈ cwd ::ₘ refs) :
    Wp (sysChdir sb cwd path) Full (fun r s' =>
      r = (fs.walk (start cwd path) (elems path)).filter fs.isDir ∧
        Shows sb s' (r.elim ⟨fs, cwd ::ₘ refs, ∅⟩ fun i => ⟨fs.sweep (i ::ₘ refs), i ::ₘ refs, ∅⟩))
      s := by
  refine (wp_begin_op h).bind fun _ s₀ h₀ => (wp_namei ht.walkable h₀ hcwd).bind fun r s₁ hr => ?_
  obtain ⟨rfl, h₁⟩ := hr
  cases hw : fs.walk (start cwd path) (elems path) with
  | none =>
    rw [hw] at h₁
    exact wp_pure ⟨rfl, h₁⟩
  | some ip =>
    rw [hw] at h₁
    obtain ⟨g, hg, hn⟩ := ht.walkable.linked_of_walk _ _ hcwd
      (fun a ha => isName_of_mem_elems path ha) hw
    refine (wp_ilock h₁ (Multiset.mem_cons_self ..) (Finset.notMem_empty ip) hg).bind
      fun _ s₂ h₂ => ?_
    refine wp_bind (wp_bind (wp_get (wp_pure ?_)))
    rw [(h₂.inode_eq (Finset.mem_insert_self ..) hg).1]
    refine wp_ite (fun hd => ?_) fun hd => ?_
    · refine (wp_iunlockput_linked h₂ (Finset.notMem_empty ip) ⟨g, hg, hn⟩).bind
        fun _ s₃ h₃ => wp_pure ⟨?_, h₃⟩
      rw [Option.filter_some_neg]
      rw [Files.isDir_eq hg, decide_eq_false hd]
    · have hd := not_not.mp hd
      refine (wp_iunlock_insert h₂ (Finset.notMem_empty ip)).bind fun _ s₃ h₃ => ?_
      have h₃ : Shows sb s₃ ⟨fs, cwd ::ₘ ip ::ₘ refs, ∅⟩ := by
        rw [Multiset.cons_swap]
        exact h₃
      refine (wp_iput_sweep h₃ (Finset.notMem_empty cwd) hf fun j x hj hx hz => ?_).bind
        fun _ s₄ h₄ => wp_pure ⟨?_, h₄⟩
      · exact Multiset.mem_cons_of_mem ((Multiset.mem_cons.mp (hoff j x hx hz)).resolve_left hj)
      · rw [Option.filter_some_pos]
        rw [Files.isDir_eq hg, decide_eq_true hd]

end Sys

/-! ### Reading and writing -/

namespace World

variable {sb : Superblock} {w : World} {f : OpenFile}

lemma Good.filewrite (h : w.Good sb) (hf : f ∈ w.ftable) (hwr : f.writable = true)
    (src : ℕ → UInt8) (off : UInt32) (n : ℕ) :
    Good sb { w with files := (w.files.filewrite f.ip src off n).2 } := by
  obtain ⟨x, hx⟩ := h.held (mem_refs_of_ftable hf)
  simp only [Files.filewrite, hx]
  refine h.extend (h.tidy.write hx (h.writable hf hwr hx) _ _) (extends_update (fun g hg => ?_)
    fun hz => ⟨x, hx, hz⟩)
  rw [← Option.some.inj (hx.symm.trans hg)]
  rfl

end World

namespace Sys

variable {sb : Superblock} {s : Sys} {w : World} {f : OpenFile}

lemma wp_fileread (h : Shows sb s w.store) (hw : w.Good sb) (hf : f ∈ w.ftable) (off n : UInt32) :
    Wp (call sb (.fileread f off n)) Full
      (fun r s' => r = (w.next sb (.fileread f off n)).1 ∧ Shows sb s' w.store) s := by
  have hi : f.ip ∈ w.refs := World.mem_refs_of_ftable hf
  obtain ⟨x, hx⟩ := hw.held hi
  refine wp_ite (fun hr => wp_pure ⟨?_, h⟩) fun hr => ?_
  · exact (if_neg (by rw [hr]; exact Bool.false_ne_true)).symm
  · rw [World.next, if_pos (Bool.eq_true_of_not_eq_false hr)]
    refine (wp_ilock h hi (Finset.notMem_empty _) hx).bind fun _ s₁ h₁ => ?_
    refine (wp_readi h₁ (Finset.mem_insert_self ..)).bind fun r s₂ hr => ?_
    obtain ⟨rfl, h₂⟩ := hr
    exact (wp_iunlock_insert h₂ (Finset.notMem_empty _)).bind fun _ s₃ h₃ => wp_pure ⟨rfl, h₃⟩

lemma transacts_transaction {refs : Multiset ℕ} {i : ℕ} (hi : i ∈ refs) :
    Transacts (transaction sb i) i Full fun s fs => Shows sb s ⟨fs, refs, ∅⟩ := by
  intro s fs x src off m h hx hm
  have hlen : x.bytes.length ≤ MAXFILE * BSIZE := h.ok.length_le ((congrFun h.files i).trans hx)
  refine ⟨hlen, (wp_begin_op h).bind fun _ s₀ h₀ => ?_⟩
  refine (wp_ilock h₀ hi (Finset.notMem_empty i) hx).bind fun _ s₁ h₁ => ?_
  refine (wp_writei h₁ (Finset.mem_insert_self ..)).bind fun r s₂ hr => ?_
  obtain ⟨hr, h₂⟩ := hr
  refine (wp_iunlock_insert h₂ (Finset.notMem_empty i)).bind fun _ s₃ h₃ => wp_pure ?_
  rw [Files.next_writei_transaction hx hlen hm] at hr h₃
  split_ifs at hr h₃ ⊢ with hin
  · exact ⟨congrArg Prod.fst hr, h₃⟩
  · exact ⟨congrArg Prod.fst hr, h₃⟩

lemma wp_filewrite (h : Shows sb s w.store) (hw : w.Good sb) (hf : f ∈ w.ftable)
    (src : ℕ → UInt8) (off : UInt32) (n : ℕ) :
    Wp (call sb (.filewrite f src off n)) Full
      (fun r s' => r = (w.next sb (.filewrite f src off n)).1 ∧
        Shows sb s' (w.next sb (.filewrite f src off n)).2.store ∧
          (w.next sb (.filewrite f src off n)).2.Good sb) s := by
  have hi : f.ip ∈ w.refs := World.mem_refs_of_ftable hf
  obtain ⟨x, hx⟩ := hw.held hi
  refine wp_ite (fun hr => ?_) fun hr => ?_
  · rw [World.next, if_neg (by rw [hr]; exact Bool.false_ne_true)]
    exact wp_pure ⟨rfl, h, hw⟩
  · have hwr := Bool.eq_true_of_not_eq_false hr
    have hgood := hw.filewrite hf hwr src off n
    rw [World.next, if_pos hwr]
    simp only [Files.filewrite, hx] at hgood ⊢
    refine (wp_transactions (transacts_transaction hi) h hx).bind fun r s' hr => wp_pure ?_
    obtain ⟨m, rfl, hr, -, h'⟩ := hr
    exact ⟨congrArg (·, []) hr, h', hgood⟩

/-- **One call.** -/
lemma wp_call (hsb : sb.ninodes ≤ 2 ^ 16) (h : Shows sb s w.store) (hw : w.Good sb) (c : Call)
    (hc : w.Allows c) :
    Wp (call sb c) Full (fun r s' => r = (w.next sb c).1 ∧
      Shows sb s' (w.next sb c).2.store ∧ (w.next sb c).2.Good sb) s := by
  have hnone : ∀ j : ℕ, j ∉ (∅ : Finset ℕ) := Finset.notMem_empty
  cases c with
  | fork cwd =>
    refine (wp_idup h).bind fun _ s₁ h₁ => wp_pure ⟨rfl, ?_, hw.fork hc⟩
    have hrefs : { w with cwds := cwd ::ₘ w.cwds }.refs = cwd ::ₘ w.refs := Multiset.cons_add ..
    show Shows sb s₁ ⟨w.files, { w with cwds := cwd ::ₘ w.cwds }.refs, ∅⟩
    rw [hrefs]
    exact h₁
  | exit cwd =>
    obtain ⟨f, hf⟩ := hw.held (World.mem_refs_of_cwds hc)
    have hrefs := World.refs_of_cwd hc
    have h : Shows sb s ⟨w.files, cwd ::ₘ { w with cwds := w.cwds.erase cwd }.refs, ∅⟩ := by
      rw [← hrefs]
      exact h
    refine (wp_begin_op h).bind fun _ s₀ h₀ => ?_
    refine (wp_iput_sweep h₀ (hnone cwd) hf fun j g hj hg hn => ?_).bind
      fun _ s₁ h₁ => wp_pure ⟨rfl, h₁, hw.exit hc⟩
    have hj' := hw.orphan hg hn
    rw [hrefs] at hj'
    exact (Multiset.mem_cons.mp hj').resolve_left hj
  | fileclose f =>
    obtain ⟨x, hx⟩ := hw.held (World.mem_refs_of_ftable hc)
    have hrefs := World.refs_of_ftable hc
    have h : Shows sb s ⟨w.files, f.ip ::ₘ { w with ftable := w.ftable.erase f }.refs, ∅⟩ := by
      rw [← hrefs]
      exact h
    refine (wp_begin_op h).bind fun _ s₀ h₀ => ?_
    refine (wp_iput_sweep h₀ (hnone f.ip) hx fun j g hj hg hn => ?_).bind
      fun _ s₁ h₁ => wp_pure ⟨rfl, h₁, hw.fileclose hc⟩
    have hj' := hw.orphan hg hn
    rw [hrefs] at hj'
    exact (Multiset.mem_cons.mp hj').resolve_left hj
  | fileread f off n =>
    exact (wp_fileread h hw hc.1 off n).post fun r s' hr => ⟨hr.1, hr.2, hw⟩
  | filewrite f src off n => exact wp_filewrite h hw hc.1 src off n
  | sysLink cwd old new =>
    obtain ⟨hold, hnew, hself⟩ := hc
    have hold := hw.linked_start hold
    have hnew := hw.linked_start hnew
    refine (wp_sysLink hw.tidy h hold hnew (fun _ he => he)
      fun ⟨_, dp, a, _, _, hp, ha⟩ => absurd ha (hself dp a hp)).bind fun r s₁ hr => wp_pure ?_
    obtain ⟨-, fs', hspec, h₁⟩ := hr
    obtain ⟨ht, he⟩ := hw.tidy.sysLink hsb hold (fun a ha => isName_of_mem_elems old ha) hnew
      fun a ha => isName_of_mem_elems new ha
    have hnext : w.next sb (.sysLink cwd old new) = ((r, []), { w with files := fs' }) := by
      simp only [World.next, hspec]
    rw [hspec] at ht he
    rw [hnext]
    exact ⟨rfl, h₁, hw.extend ht he⟩
  | sysUnlink cwd path =>
    have hcwd := hw.linked_start hc
    refine (wp_sysUnlink hw.tidy h hcwd).bind fun r s₁ hr => wp_pure ?_
    obtain ⟨fs', hspec, h₁⟩ := hr
    obtain ⟨ht, hkept, horphan⟩ := hw.tidy.sysUnlink hcwd
      (fun a ha => isName_of_mem_elems path ha) fun j g hg hn => hw.orphan hg hn
    have hnext : w.next sb (.sysUnlink cwd path) = ((r, []), { w with files := fs' }) := by
      simp only [World.next, hspec]
    rw [hspec] at ht hkept horphan
    rw [hnext]
    refine ⟨rfl, h₁, ht, fun {j} hj => ?_, fun {j f} hf hn => horphan j f hf hn,
      fun {f x} hj hwr hx => ?_⟩
    · obtain ⟨f, hf⟩ := hw.held hj
      obtain ⟨f', hf', -⟩ := hkept j f hf hj
      exact ⟨f', hf'⟩
    · have hmem := World.mem_refs_of_ftable hj
      obtain ⟨g, hg⟩ := hw.held hmem
      obtain ⟨g', hg', htype⟩ := hkept f.ip g hg hmem
      obtain rfl := Option.some.inj (hg'.symm.trans hx)
      rw [htype]
      exact hw.writable hj hwr hg
  | sysMkdir cwd path =>
    have hcwd := hw.linked_start hc
    obtain ⟨ht, he, -⟩ := hw.tidy.create hsb hcwd (fun a ha => isName_of_mem_elems path ha)
      T_DIR
    refine (wp_sysCreate hsb hw.tidy h hcwd (by decide)).bind fun r s₁ hr => wp_pure ?_
    obtain ⟨rfl, h₁⟩ := hr
    exact ⟨rfl, h₁, hw.extend ht he⟩
  | sysMknod cwd path =>
    have hcwd := hw.linked_start hc
    obtain ⟨ht, he, -⟩ := hw.tidy.create hsb hcwd (fun a ha => isName_of_mem_elems path ha)
      T_DEV
    refine (wp_sysCreate hsb hw.tidy h hcwd (by decide)).bind fun r s₁ hr => wp_pure ?_
    obtain ⟨rfl, h₁⟩ := hr
    exact ⟨rfl, h₁, hw.extend ht he⟩
  | sysOpen cwd path omode room =>
    have hcwd := hw.linked_start hc
    obtain ⟨ht, he, hnew⟩ := hw.tidy.openInode hsb hcwd
      (fun a ha => isName_of_mem_elems path ha) omode
    refine (wp_sysOpen hsb hw.tidy h hcwd omode room).bind fun r s₁ hr => wp_pure ?_
    obtain ⟨rfl, h₁⟩ := hr
    cases hspec : w.files.openInode sb (start cwd path) (elems path) omode with
    | mk r fs' =>
      rw [hspec] at ht he hnew h₁
      cases r with
      | none =>
        have hnext : w.next sb (.sysOpen cwd path omode room) =
            ((-1, []), { w with files := fs' }) := by simp only [World.next, hspec]
        rw [hnext]
        rw [ite_self] at h₁ ⊢
        exact ⟨rfl, h₁, hw.extend ht he⟩
      | some ip =>
        cases room with
        | false =>
          have hnext : w.next sb (.sysOpen cwd path omode false) =
              ((-1, []), { w with files := fs' }) := by
            simp only [World.next, hspec, Bool.false_eq_true, if_false]
          rw [hnext]
          rw [if_neg Bool.false_ne_true] at h₁ ⊢
          exact ⟨rfl, h₁, hw.extend ht he⟩
        | true =>
          obtain ⟨g, hg, -, hwr⟩ := hnew ip rfl
          have hnext : w.next sb (.sysOpen cwd path omode true) = (((ip : ℤ), []),
              { w with files := fs', ftable := .new ip omode ::ₘ w.ftable }) := by
            simp only [World.next, hspec, if_true]
          have hrefs : (World.mk fs' w.cwds (.new ip omode ::ₘ w.ftable)).refs =
              ip ::ₘ w.refs := by
            rw [World.refs, World.refs, Multiset.map_cons, Multiset.add_cons]
            rfl
          rw [hnext]
          rw [if_pos rfl] at h₁ ⊢
          refine ⟨rfl, ?_, (hw.extend ht he).sysOpen ⟨g, hg⟩ fun hb f hf => ?_⟩
          · show Shows sb s₁
              ⟨fs', (World.mk fs' w.cwds (.new ip omode ::ₘ w.ftable)).refs, ∅⟩
            rw [hrefs]
            exact h₁
          · obtain rfl := Option.some.inj (hg.symm.trans hf)
            exact hwr hb
  | sysChdir cwd path =>
    have hcwd := hw.linked_start hc
    obtain ⟨f, hf⟩ := hw.held (World.mem_refs_of_cwds hc.1)
    have hrefs := World.refs_of_cwd hc.1
    have hstore : w.store = ⟨w.files, cwd ::ₘ { w with cwds := w.cwds.erase cwd }.refs, ∅⟩ := by
      rw [World.store, hrefs]
    rw [hstore] at h
    refine (wp_sysChdir hw.tidy h hcwd hf fun j g hg hn => ?_).bind fun r s₁ hr => wp_pure ?_
    · rw [← hrefs]
      exact hw.orphan hg hn
    obtain ⟨rfl, h₁⟩ := hr
    cases hwalk : w.files.walk (start cwd path) (elems path) with
    | none =>
      have hnext : w.next sb (.sysChdir cwd path) = ((-1, []), w) := by
        simp only [World.next, hwalk]
      rw [hwalk] at h₁
      rw [hnext, hstore]
      exact ⟨rfl, h₁, hw⟩
    | some ip =>
      rw [hwalk] at h₁
      cases hdir : w.files.isDir ip with
      | false =>
        have hnext : w.next sb (.sysChdir cwd path) = ((-1, []), w) := by
          simp only [World.next, hwalk, hdir, Bool.false_eq_true, if_false]
        have hfilter : (some ip).filter w.files.isDir = none :=
          Option.filter_some_neg (by simp [hdir])
        rw [hfilter] at h₁ ⊢
        rw [hnext, hstore]
        exact ⟨rfl, h₁, hw⟩
      | true =>
        have hnext : w.next sb (.sysChdir cwd path) =
            ((0, []), { w with cwds := ip ::ₘ w.cwds.erase cwd }.sweep) := by
          simp only [World.next, hwalk, hdir, if_true]
        have hfilter : (some ip).filter w.files.isDir = some ip := Option.filter_some_pos hdir
        rw [hfilter] at h₁ ⊢
        obtain ⟨g, hg, -⟩ := hw.tidy.walkable.linked_of_walk _ _ hcwd
          (fun a ha => isName_of_mem_elems path ha) hwalk
        have hcons : { w with cwds := ip ::ₘ w.cwds.erase cwd }.refs =
            ip ::ₘ { w with cwds := w.cwds.erase cwd }.refs := Multiset.cons_add ..
        rw [hnext]
        refine ⟨rfl, ?_, hw.chdir hc.1 ⟨g, hg⟩⟩
        show Shows sb s₁ ⟨w.files.sweep { w with cwds := ip ::ₘ w.cwds.erase cwd }.refs,
          { w with cwds := ip ::ₘ w.cwds.erase cwd }.refs, ∅⟩
        rw [hcons]
        exact h₁

end Sys

end Xv6Projects.Fs
