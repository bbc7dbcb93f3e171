import Mathlib.Data.Finset.Dedup
import Xv6Projects.Fs.Dirent

/-!
# References to inodes

Inodes in memory have reference counts and locks.  One process is in the kernel: it takes
references and locks, and an inode without links is freed when its last reference goes.
-/

namespace Xv6Projects.Fs

open Library Disk

/-- Maximum number of active inodes. -/
def NINODE : ℕ := 50

/-- The inode of the root directory. -/
def ROOTINO : ℕ := 1

/-- The disk with its inodes in memory, the references to them, one for each pointer, and those
that the process in the kernel has locked. -/
structure Sys where
  disk : Disk
  refs : Multiset ℕ
  locks : Finset ℕ

/-- Programs over inodes with references and locks. -/
abbrev SM := Prog Sys Panic

namespace Sys

variable (sb : Superblock)

/-- A program on the disk. -/
def onDisk {α : Type} (x : FM α) : SM α := zoom Sys.disk (fun s d => { s with disk := d }) x

/-- A reference to an inode; when it is the first one, an entry without references is taken. -/
def iget (i : ℕ) : SM Unit := do
  let s ← get
  if i ∈ s.refs then modify fun s => { s with refs := i ::ₘ s.refs }
  else if s.refs.toFinset.card < NINODE then
    modify fun s => { s with refs := i ::ₘ s.refs, disk := s.disk.recycled i }
  else throw .noSlots

def idup (i : ℕ) : SM Unit := modify fun s => { s with refs := i ::ₘ s.refs }

def ilock (i : ℕ) : SM Unit := do
  let s ← get
  if i ∉ s.refs then throw .ilock
  else if i ∈ s.locks then throw .deadlock
  else do
    onDisk (Fs.ilock i)
    modify fun s => { s with locks := insert i s.locks }

def iunlock (i : ℕ) : SM Unit := do
  let s ← get
  if i ∉ s.locks ∨ i ∉ s.refs then throw .iunlock
  else modify fun s => { s with locks := s.locks.erase i }

/-- Drop a reference; without links and other references the inode is freed. -/
def iput (i : ℕ) : SM Unit := do
  let s ← get
  if i ∈ s.locks then throw .deadlock
  else do
    if s.refs.count i = 1 then onDisk (Fs.iput sb i) else pure ()
    modify fun s => { s with refs := s.refs.erase i }

def iunlockput (i : ℕ) : SM Unit := do
  iunlock i
  iput sb i

/-- The inode in memory. -/
def inode (i : ℕ) : SM Inode := do
  let s ← get
  return s.disk.inode i

/-- `ip->nlink = n` and `iupdate`. -/
def setNlink (i : ℕ) (n : ℤ) : SM Unit := onDisk do
  modify fun d => d.setNlink i n
  iupdate sb i

/-- `ip->nlink += k` and `iupdate`. -/
def addNlink (i : ℕ) (k : ℤ) : SM Unit := do
  let ip ← inode i
  setNlink sb i (ip.nlink + k)

def ialloc (type : ℤ) : SM ℕ := do
  let i ← onDisk (Fs.ialloc sb type)
  iget i
  return i

end Sys

/-! ### What is seen of it -/

/-- Files with references and locks. -/
structure Store where
  files : Files
  refs : Multiset ℕ
  locks : Finset ℕ

/-- A file is changed. -/
def Store.setFile (v : Store) (i : ℕ) (f : File) : Store :=
  { v with files := Function.update v.files i (some f) }

/-- The panics that are left when directories are right. -/
def Full (e : Panic) : Prop :=
  e = .outOfBlocks ∨ e = .noInodes ∨ e = .noSlots ∨ e = .dirWrite

/-- `balloc` panics when all blocks are in use, and only then. -/
lemma wp_balloc_full {sb : Superblock} {d : Disk} :
    Wp (balloc sb) (fun e => e = .outOfBlocks ∧ ∀ b < sb.size, d.bitmap b = true)
      (fun b _ => b < sb.size ∧ d.bitmap b = false) d := by
  refine wp_bind (wp_get ?_)
  cases hfind : (List.range sb.size).find? fun b => !d.bitmap b with
  | none =>
    refine wp_throw ⟨rfl, fun b hb => ?_⟩
    simpa using List.find?_eq_none.mp hfind b (List.mem_range.mpr hb)
  | some b =>
    refine wp_bind (wp_modify (wp_bind (wp_modify (wp_pure ⟨?_, ?_⟩))))
    · exact List.mem_range.mp (List.mem_of_find?_eq_some hfind)
    · simpa using List.find?_some hfind

/-- `ialloc` panics when all inodes have a type, and only then. -/
lemma wp_ialloc_full {sb : Superblock} {type : ℤ} {d : Disk} :
    Wp (Fs.ialloc sb type)
      (fun e => e = .noInodes ∧ ∀ i ∈ (List.range sb.ninodes).drop 1, (d.dinode i).type ≠ 0)
      (fun i _ => i ∈ (List.range sb.ninodes).drop 1 ∧ (d.dinode i).type = 0) d := by
  refine wp_bind (wp_get ?_)
  cases hfind : ((List.range sb.ninodes).drop 1).find? fun i => (d.dinode i).type == 0 with
  | none =>
    refine wp_throw ⟨rfl, fun i hi => ?_⟩
    simpa using List.find?_eq_none.mp hfind i hi
  | some i =>
    refine wp_bind (wp_modify (wp_pure ⟨List.mem_of_find?_eq_some hfind, ?_⟩))
    simpa using List.find?_some hfind

/-- `iget` panics when `NINODE` other inodes are in memory, and only then. -/
lemma Sys.wp_iget_full {s : Sys} {i : ℕ} :
    Wp (iget i) (fun e => e = .noSlots ∧ i ∉ s.refs ∧ NINODE ≤ s.refs.toFinset.card)
      (fun _ _ => i ∈ s.refs ∨ s.refs.toFinset.card < NINODE) s := by
  refine wp_bind (wp_get (wp_ite (fun hi => wp_modify (Or.inl hi)) fun hi => ?_))
  exact wp_ite (fun hc => wp_modify (Or.inr hc)) fun hc => wp_throw ⟨rfl, hi, not_lt.mp hc⟩

/-- The files, the references and the locks are those of `v`; locked inodes are in memory, and so
are those without links. -/
structure Shows (sb : Superblock) (s : Sys) (v : Store) : Prop where
  ok : Ok sb s.disk
  files : s.disk.files = v.files
  refs : s.refs = v.refs
  locks : s.locks = v.locks
  locked {i : ℕ} : i ∈ v.locks → i ∈ v.refs ∧ s.disk.valid i = true
  orphan {i : ℕ} {f : File} : v.files i = some f → f.nlink = 0 →
    i ∈ v.refs ∧ s.disk.valid i = true

namespace Shows

variable {sb : Superblock} {s : Sys} {v : Store} {i : ℕ} {f : File}

lemma type_ne (h : Shows sb s v) (hf : v.files i = some f) : (s.disk.dinode i).type ≠ 0 :=
  type_ne_of_files (h.files ▸ hf)

/-- The fields of an inode in memory. -/
lemma inode_eq (h : Shows sb s v) (hl : i ∈ v.locks) (hf : v.files i = some f) :
    (s.disk.inode i).type = f.type ∧ (s.disk.inode i).nlink = f.nlink ∧
      (s.disk.inode i).size = f.bytes.length := by
  have hin := h.ok.synced (h.locked hl).2
  have ht := h.type_ne hf
  rw [← h.files, files_of_type ht] at hf
  rw [hin, ← Option.some.inj hf, length_content, h.ok.cur_eq]
  exact ⟨rfl, rfl, rfl⟩

/-- There is a file behind a lock. -/
lemma exists_file (h : Shows sb s v) (hl : i ∈ v.locks) : ∃ f, v.files i = some f := by
  have ht : (s.disk.dinode i).type ≠ 0 := fun hz =>
    absurd ((h.locked hl).2.symm.trans (h.ok.free hz).1) (by simp)
  exact ⟨_, (congrFun h.files i).symm.trans (files_of_type ht)⟩

end Shows

namespace Sys

variable {sb : Superblock} {s : Sys} {v : Store} {i : ℕ} {f : File}

lemma wp_iget (h : Shows sb s v) :
    Wp (iget i) Full (fun _ s' => Shows sb s' { v with refs := i ::ₘ v.refs }) s := by
  refine wp_bind (wp_get (wp_ite (fun _ => wp_modify ?_) fun hi => wp_ite (fun _ => wp_modify ?_)
    fun _ => wp_throw (Or.inr (Or.inr (Or.inl rfl)))))
  · refine ⟨h.ok, h.files, congrArg (i ::ₘ ·) h.refs, h.locks, fun hl => ?_, fun hf hn => ?_⟩
    · exact ⟨Multiset.mem_cons_of_mem (h.locked hl).1, (h.locked hl).2⟩
    · exact ⟨Multiset.mem_cons_of_mem (h.orphan hf hn).1, (h.orphan hf hn).2⟩
  · -- an inode with references is another one
    have hvalid : ∀ j, j ∈ v.refs → (s.disk.recycled i).valid j = s.disk.valid j := by
      intro j hj
      refine Function.update_of_ne ?_ ..
      rintro rfl
      exact hi (h.refs ▸ hj)
    refine ⟨h.ok.recycled, (recycled_files h.ok).trans h.files, congrArg (i ::ₘ ·) h.refs, h.locks,
      fun hl => ?_, fun hf hn => ?_⟩
    · obtain ⟨hr, hv⟩ := h.locked hl
      exact ⟨Multiset.mem_cons_of_mem hr, (hvalid _ hr).trans hv⟩
    · obtain ⟨hr, hv⟩ := h.orphan hf hn
      exact ⟨Multiset.mem_cons_of_mem hr, (hvalid _ hr).trans hv⟩

lemma wp_idup (h : Shows sb s v) :
    Wp (idup i) Full (fun _ s' => Shows sb s' { v with refs := i ::ₘ v.refs }) s := by
  refine wp_modify ⟨h.ok, h.files, congrArg (i ::ₘ ·) h.refs, h.locks, fun hl => ?_,
    fun hf hn => ?_⟩
  · exact ⟨Multiset.mem_cons_of_mem (h.locked hl).1, (h.locked hl).2⟩
  · exact ⟨Multiset.mem_cons_of_mem (h.orphan hf hn).1, (h.orphan hf hn).2⟩

lemma wp_ilock (h : Shows sb s v) (hi : i ∈ v.refs) (hl : i ∉ v.locks) (hf : v.files i = some f) :
    Wp (ilock i) Full (fun _ s' => Shows sb s' { v with locks := insert i v.locks }) s := by
  refine wp_bind (wp_get (wp_ite (fun hc => absurd (h.refs ▸ hi) hc) fun _ =>
    wp_ite (fun hc => absurd (h.locks ▸ hc) hl) fun _ => wp_bind (wp_zoom ?_)))
  refine Disk.wp_ilock h.ok (h.type_ne hf) fun d hd hv _ hfs _ hkeep => wp_modify ?_
  refine ⟨hd, hfs.trans h.files, h.refs, congrArg (insert i) h.locks, fun {j} hj => ?_,
    fun hg hn => ?_⟩
  · obtain rfl | hj := Finset.mem_insert.mp hj
    · exact ⟨hi, hv⟩
    · exact ⟨(h.locked hj).1, hkeep _ (h.locked hj).2⟩
  · exact ⟨(h.orphan hg hn).1, hkeep _ (h.orphan hg hn).2⟩

lemma wp_iunlock (h : Shows sb s v) (hl : i ∈ v.locks) :
    Wp (iunlock i) Full (fun _ s' => Shows sb s' { v with locks := v.locks.erase i }) s := by
  have hheld : ¬(i ∉ s.locks ∨ i ∉ s.refs) := by
    rw [h.locks, h.refs]
    exact fun hc => hc.elim (fun hc => hc hl) fun hc => hc (h.locked hl).1
  refine wp_bind (wp_get (wp_ite (fun hc => absurd hc hheld) fun _ => wp_modify ?_))
  exact ⟨h.ok, h.files, h.refs, congrArg (Finset.erase · i) h.locks,
    fun hj => h.locked (Finset.mem_of_mem_erase hj), h.orphan⟩

end Sys

/-- A reference is dropped. -/
def Store.put (sb : Superblock) (v : Store) (i : ℕ) : Store where
  files := if v.refs.count i = 1 then (v.files.next sb (.iput i)).2 else v.files
  refs := v.refs.erase i
  locks := v.locks

lemma Files.next_iput {sb : Superblock} {fs : Files} {i : ℕ} {f : File} (hf : fs i = some f) :
    (fs.next sb (.iput i)).2 = if f.nlink = 0 then Function.update fs i none else fs := by
  simp only [Files.next, hf]

lemma Files.next_writei_of_ne {sb : Superblock} {fs : Files} {i j : ℕ} {src : ℕ → UInt8}
    {off n : UInt32} (hj : j ≠ i) : (fs.next sb (.writei i src off n)).2 j = fs j := by
  simp only [Files.next]
  split
  · rfl
  · split
    · rfl
    · exact Function.update_of_ne hj ..

namespace Sys

variable {sb : Superblock} {s : Sys} {v : Store} {i : ℕ} {f : File}

lemma wp_iput (h : Shows sb s v) (hi : i ∈ v.refs) (hl : i ∉ v.locks) (hf : v.files i = some f) :
    Wp (iput sb i) Full (fun _ s' => Shows sb s' (v.put sb i)) s := by
  have herase : ∀ j, j ≠ i → j ∈ v.refs → j ∈ v.refs.erase i :=
    fun j hj hr => (Multiset.mem_erase_of_ne hj).mpr hr
  have hlocked : ∀ j, j ∈ v.locks → j ≠ i := fun j hj he => hl (he ▸ hj)
  refine wp_bind (wp_get (wp_ite (fun hc => absurd (h.locks ▸ hc) hl) fun _ => ?_))
  refine wp_ite (fun hc => wp_bind (wp_zoom ?_)) fun hc => wp_modify ?_
  · -- the last reference
    rw [h.refs] at hc
    rw [Store.put, if_pos hc, Files.next_iput hf]
    by_cases hv : s.disk.valid i = true
    · refine (Disk.wp_iput h.ok hv (h.type_ne hf)).mono (fun _ d hd => wp_modify ?_)
        fun e he => he.elim
      obtain ⟨hok, hfiles, hkeep⟩ := hd
      rw [h.files, Files.next_iput hf] at hfiles
      refine ⟨hok, hfiles, congrArg (Multiset.erase · i) h.refs, h.locks,
        fun {j} hj => ?_, fun {j g} hg hn => ?_⟩
      · obtain ⟨hr, hvj⟩ := h.locked hj
        exact ⟨herase j (hlocked j hj) hr, (hkeep j (hlocked j hj)).trans hvj⟩
      · obtain ⟨hj, hg⟩ : j ≠ i ∧ v.files j = some g := by
          split_ifs at hg with hz
          · by_cases hj : j = i
            · have hg : Function.update v.files i none i = some g := hj ▸ hg
              rw [Function.update_self] at hg
              exact absurd hg (by simp)
            · exact ⟨hj, (Function.update_of_ne hj ..).symm.trans hg⟩
          · refine ⟨?_, hg⟩
            rintro rfl
            rw [Option.some.inj (hf.symm.trans hg)] at hz
            exact hz hn
        obtain ⟨hr, hvj⟩ := h.orphan hg hn
        exact ⟨herase j hj hr, (hkeep j hj).trans hvj⟩
    · have hn : f.nlink ≠ 0 := fun hn => hv (h.orphan hf hn).2
      rw [if_neg hn]
      refine wp_bind (wp_get (wp_ite (fun hc' => absurd hc'.1 hv) fun _ => wp_pure (wp_modify ?_)))
      refine ⟨h.ok, h.files, congrArg (Multiset.erase · i) h.refs, h.locks, fun {j} hj => ?_,
        fun {j g} hg hn => ?_⟩
      · exact ⟨herase j (hlocked j hj) (h.locked hj).1, (h.locked hj).2⟩
      · obtain ⟨hr, hvj⟩ := h.orphan hg hn
        refine ⟨herase j ?_ hr, hvj⟩
        rintro rfl
        exact hv hvj
  · rw [h.refs] at hc
    rw [Store.put, if_neg hc]
    have hmem : i ∈ v.refs.erase i := by
      rw [← Multiset.count_pos, Multiset.count_erase_self]
      have := Multiset.count_pos.mpr hi
      omega
    refine ⟨h.ok, h.files, congrArg (Multiset.erase · i) h.refs, h.locks, fun {j} hj => ?_,
      fun {j g} hg hn => ?_⟩
    · exact ⟨herase j (hlocked j hj) (h.locked hj).1, (h.locked hj).2⟩
    · obtain ⟨hr, hv⟩ := h.orphan hg hn
      by_cases hj : j = i
      · exact ⟨hj ▸ hmem, hv⟩
      · exact ⟨herase j hj hr, hv⟩

/-! ### Under the lock -/

lemma wp_readi (h : Shows sb s v) (hl : i ∈ v.locks) {off n : UInt32} :
    Wp (onDisk (readi sb i off n)) Full
      (fun r s' => r = (v.files.next sb (.readi i off n)).1 ∧ Shows sb s' v) s := by
  obtain ⟨f, hf⟩ := h.exists_file hl
  refine wp_zoom (((Disk.wp_readi h.ok (h.locked hl).2 (h.type_ne hf)).mono (fun _ _ hr => hr)
    fun e he => he.elim).post ?_)
  rintro r d ⟨rfl, rfl⟩
  exact ⟨by rw [h.files], h.ok, h.files, h.refs, h.locks, h.locked, h.orphan⟩

lemma wp_writei (h : Shows sb s v) (hl : i ∈ v.locks) {src : ℕ → UInt8} {off n : UInt32} :
    Wp (onDisk (writei sb i src off n)) Full
      (fun r s' => (r, []) = (v.files.next sb (.writei i src off n)).1 ∧
        Shows sb s' { v with files := (v.files.next sb (.writei i src off n)).2 }) s := by
  obtain ⟨f, hf⟩ := h.exists_file hl
  refine wp_zoom (((Disk.wp_writei h.ok (h.locked hl).2 (h.type_ne hf)).mono (fun _ _ hr => hr)
    fun e he => Or.inl he).post fun r d hd => ?_)
  obtain ⟨hr, hok, hfiles, hvalid⟩ := hd
  rw [h.files] at hr hfiles
  refine ⟨hr, hok, hfiles, h.refs, h.locks, fun {j} hj => ?_, fun {j g} hg hn => ?_⟩
  · exact ⟨(h.locked hj).1, (congrFun hvalid j).trans (h.locked hj).2⟩
  · have hvj : j ∈ v.refs ∧ s.disk.valid j = true := by
      by_cases hj : j = i
      · exact hj ▸ h.locked hl
      · exact h.orphan ((Files.next_writei_of_ne hj).symm.trans hg) hn
    exact ⟨hvj.1, (congrFun hvalid j).trans hvj.2⟩

lemma wp_setNlink (h : Shows sb s v) (hl : i ∈ v.locks) (hf : v.files i = some f) (n : ℤ) :
    Wp (setNlink sb i n) Full
      (fun _ s' => Shows sb s' (v.setFile i { f with nlink := n })) s := by
  have hset := h.ok.setNlink (h.locked hl).2 n
  rw [h.files, hf] at hset
  obtain ⟨hok, hfiles⟩ := hset
  rw [setNlink]
  refine wp_zoom (wp_bind (wp_modify (wp_modify ?_)))
  refine ⟨hok, hfiles, h.refs, h.locks, h.locked, fun {j g} hg hn => ?_⟩
  by_cases hj : j = i
  · rw [hj]
    exact h.locked hl
  · exact h.orphan ((Function.update_of_ne hj ..).symm.trans hg) hn

lemma wp_addNlink (h : Shows sb s v) (hl : i ∈ v.locks) (hf : v.files i = some f) (k : ℤ) :
    Wp (addNlink sb i k) Full
      (fun _ s' => Shows sb s' (v.setFile i { f with nlink := f.nlink + k })) s := by
  refine wp_bind (wp_bind (wp_get (wp_pure ?_)))
  rw [(h.inode_eq hl hf).2.1]
  exact wp_setNlink h hl hf _

/-- A new inode is locked, and has no links yet. -/
lemma wp_ialloc_ilock {α : Type} {type : ℤ} {k : ℕ → SM α} {Q : α → Sys → Prop}
    (h : Shows sb s v) (ht : type ≠ 0)
    (hk : ∀ i s', ((List.range sb.ninodes).drop 1).find? (fun i => (v.files i).isNone) = some i →
      Shows sb s' ⟨Function.update v.files i (some ⟨type, 0, []⟩), i ::ₘ v.refs, insert i v.locks⟩ →
      Wp (k i) Full Q s') :
    Wp (do
      let i ← ialloc sb type
      ilock i
      k i) Full Q s := by
  refine wp_bind (wp_bind (wp_zoom ((wp_ialloc.mono (fun _ _ hr => hr)
    fun e he => Or.inr (Or.inl he)).post fun i d hd => ?_)))
  obtain ⟨hfind, hi, rfl⟩ := hd
  rw [h.files] at hfind
  have hnl : i ∉ s.locks := fun hl =>
    absurd ((h.locked (h.locks ▸ hl)).2.symm.trans (h.ok.free hi).1) (by simp)
  have hfiles : (s.disk.typed sb i type).files = _ := typed_files h.ok hi ht
  have hti : ((s.disk.typed sb i type).dinode i).type ≠ 0 := by
    rw [typed_dinode_self]
    exact ht
  -- whether the inode in memory is a new one or not
  have hlock : ∀ e : Disk, Ok sb e → e.dinode = (s.disk.typed sb i type).dinode →
      e.files = (s.disk.typed sb i type).files →
      (∀ j, j ∈ s.refs → s.disk.valid j = true → e.valid j = true) →
      Wp (do
        ilock i
        k i) Full Q { disk := e, refs := i ::ₘ s.refs, locks := s.locks } := by
    intro e hok hdin hfe hkeep
    refine wp_bind (wp_bind (wp_get (wp_ite (fun hc => absurd (Multiset.mem_cons_self i _) hc)
      fun _ => wp_ite (fun hc => absurd hc hnl) fun _ => wp_bind (wp_zoom ?_))))
    refine Disk.wp_ilock hok (by rwa [hdin]) fun d hd hv _ hfs _ hkeep' =>
      wp_modify (hk i _ hfind ?_)
    refine ⟨hd, ?_, congrArg (i ::ₘ ·) h.refs, congrArg (insert i) h.locks, fun {j} hj => ?_,
      fun {j g} hg hn => ?_⟩
    · rw [← h.files]
      exact hfs.trans (hfe.trans hfiles)
    · obtain rfl | hj := Finset.mem_insert.mp hj
      · exact ⟨Multiset.mem_cons_self j _, hv⟩
      · obtain ⟨hr, hvj⟩ := h.locked hj
        exact ⟨Multiset.mem_cons_of_mem hr, hkeep' j (hkeep j (h.refs ▸ hr) hvj)⟩
    · by_cases hj : j = i
      · rw [hj]
        exact ⟨Multiset.mem_cons_self i _, hv⟩
      · obtain ⟨hr, hvj⟩ := h.orphan ((Function.update_of_ne hj ..).symm.trans hg) hn
        exact ⟨Multiset.mem_cons_of_mem hr, hkeep' j (hkeep j (h.refs ▸ hr) hvj)⟩
  have hok : Ok sb (s.disk.typed sb i type) := h.ok.typed hi ht
  refine wp_bind (wp_bind (wp_get (wp_ite (fun _ => wp_modify (wp_pure ?_)) fun hni =>
    wp_ite (fun _ => wp_modify (wp_pure ?_)) fun _ => wp_throw (Or.inr (Or.inr (Or.inl rfl))))))
  · exact hlock _ hok rfl rfl fun _ _ hj => hj
  · refine hlock _ hok.recycled rfl (recycled_files hok) fun j hj hvj => ?_
    refine (Function.update_of_ne ?_ ..).trans hvj
    rintro rfl
    exact hni hj

end Sys

end Xv6Projects.Fs
