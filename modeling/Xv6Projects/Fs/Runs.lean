import Xv6Projects.Fs.Calls

/-!
# Runs of system calls

Whatever processes do with files and names, in any order, they see files with names.  In every run
the links of a file are its names, each file with links is at the end of a path, and a file without
links is there as long as somebody refers to it.
-/

namespace Xv6Projects.Fs

open Library Disk

/-! ### A disk with an empty root directory -/

/-- The root directory, as `mkfs` makes it without other files. -/
def rootFile : File :=
  ((⟨T_DIR, 1, List.replicate BSIZE 0⟩ : File).putEntry 0 (.link dot ROOTINO)).putEntry 1
    (.link dotdot ROOTINO)

/-- A disk with the root directory in its first data block. -/
def rootDisk : Disk where
  bitmap b := decide (b ≤ mkfs.nmeta)
  data b o := if b = mkfs.nmeta then rootFile.bytes.getD o 0 else 0
  dinode i :=
    if i = ROOTINO then ⟨T_DIR, 1, BSIZE, fun k => if k = 0 then mkfs.nmeta else 0⟩ else Inode.zero
  inode _ := Inode.zero
  valid _ := false
  logged := ∅

/-- The first process, whose directory is the root. -/
def rootWorld : World where
  files := fun i => if i = ROOTINO then some rootFile else none
  cwds := {ROOTINO}
  ftable := 0

def rootSys : Sys := ⟨rootDisk, {ROOTINO}, ∅⟩

lemma isDir_zeros : IsDir (⟨T_DIR, 1, List.replicate BSIZE 0⟩ : File) := by
  refine ⟨rfl, ?_⟩
  rw [length_dirents, List.length_replicate]
  rfl

lemma dirents_zeros : dirents (List.replicate BSIZE 0) = List.replicate 32 .zero := by
  decide +kernel

lemma dirents_rootFile : dirents rootFile.bytes =
    putEntry (putEntry (List.replicate 32 .zero) 0 (.link dot ROOTINO)) 1
      (.link dotdot ROOTINO) := by
  have h₁ := isDir_zeros.dirents_putEntry (.link dot ROOTINO) (Nat.zero_le _)
  have hdir := isDir_zeros.putEntry (.link dot ROOTINO) (Nat.zero_le _)
  have h₂ := hdir.dirents_putEntry (k := 1) (.link dotdot ROOTINO) (by
    rw [h₁, dirents_zeros]
    decide)
  rw [rootFile, h₂, h₁, dirents_zeros]

lemma isDir_rootFile : IsDir rootFile := by
  refine (isDir_zeros.putEntry _ (Nat.zero_le _)).putEntry _ ?_
  rw [isDir_zeros.dirents_putEntry (.link dot ROOTINO) (Nat.zero_le _), dirents_zeros]
  decide

lemma length_rootFile : rootFile.bytes.length = BSIZE := by
  rw [isDir_rootFile.whole, dirents_rootFile]
  rfl

lemma directory_rootFile : Directory ROOTINO rootFile := by
  refine ⟨isDir_rootFile, ⟨.link dot ROOTINO, ?_, ?_, ?_⟩, ⟨.link dotdot ROOTINO, ?_, ?_, ?_⟩, ?_⟩
  · rw [dirents_rootFile]
    rfl
  · decide
  · decide
  · rw [dirents_rootFile]
    rfl
  · decide
  · decide
  · rw [dirents_rootFile]
    intro e he
    have hnone : kids (putEntry (putEntry (List.replicate 32 .zero) 0 (.link dot ROOTINO)) 1
      (.link dotdot ROOTINO)) = [] := by decide +kernel
    rw [hnone] at he
    exact absurd he List.not_mem_nil

lemma node_rootFile : rootFile.node = ⟨true, ROOTINO, 0, 1⟩ := by
  have hd : rootFile.type = T_DIR := rfl
  refine Node.ext (decide_eq_true hd) ?_ ?_ rfl
  · rw [File.up_node hd, dirents_rootFile]
    rfl
  · have hnone : kids (putEntry (putEntry (List.replicate 32 .zero) 0 (.link dot ROOTINO)) 1
      (.link dotdot ROOTINO)) = [] := by decide +kernel
    rw [File.kids_node hd, dirents_rootFile, hnone]
    rfl

lemma rootWorld_of_ne {i : ℕ} (hi : i ≠ ROOTINO) : rootWorld.files i = none := if_neg hi

lemma rootWorld_cases {i : ℕ} {f : File} (hf : rootWorld.files i = some f) :
    i = ROOTINO ∧ f = rootFile := by
  by_cases hi : i = ROOTINO
  · subst hi
    exact ⟨rfl, (Option.some.inj hf).symm⟩
  · exact absurd ((rootWorld_of_ne hi).symm.trans hf) (by simp)

lemma good_rootWorld : rootWorld.Good mkfs := by
  have hroot : rootWorld.files ROOTINO = some rootFile := rfl
  refine ⟨⟨?_, fun {i f} hf _ => ?_, rfl⟩, fun {i} hi => ?_, fun {i f} hf hn => ?_,
    fun hi => absurd hi (Multiset.notMem_zero _)⟩
  · refine NameTree.single (Finset.mem_range.mpr (by decide)) ?_ fun i hi => ?_
    · rw [Files.nodes_of_some hroot, node_rootFile]
    · rw [Files.nodes, rootWorld_of_ne hi, Option.map_none]
  · obtain ⟨rfl, rfl⟩ := rootWorld_cases hf
    exact directory_rootFile
  · have hi : i ∈ ({ROOTINO} : Multiset ℕ) + 0 := hi
    rw [add_zero, Multiset.mem_singleton] at hi
    exact ⟨rootFile, hi ▸ hroot⟩
  · obtain ⟨rfl, rfl⟩ := rootWorld_cases hf
    exact absurd hn (by decide)

lemma rootDisk_blk (i k : ℕ) :
    rootDisk.blk i k = if i = ROOTINO ∧ k = 0 then mkfs.nmeta else 0 := by
  have hcur : rootDisk.cur i = rootDisk.dinode i := rfl
  by_cases hi : i = ROOTINO
  · subst hi
    have haddr : ∀ n, (rootDisk.cur ROOTINO).addrs n = if n = 0 then mkfs.nmeta else 0 := by
      intro n
      rw [hcur]
      rfl
    rw [blk]
    simp only [haddr, true_and]
    by_cases hk : k = 0
    · subst hk
      rfl
    · simp [hk, NDIRECT]
  · have haddr : ∀ n, (rootDisk.cur i).addrs n = 0 := by
      intro n
      rw [hcur, rootDisk]
      simp only [hi, if_false]
      rfl
    rw [blk]
    simp [haddr, hi]

lemma ok_rootDisk : Ok mkfs rootDisk := by
  have hused : ∀ i k, rootDisk.blk i k ≠ 0 →
      i = ROOTINO ∧ k = 0 ∧ rootDisk.blk i k = mkfs.nmeta := by
    intro i k hne
    rw [rootDisk_blk] at hne ⊢
    split_ifs at hne ⊢ with h
    · exact ⟨h.1, h.2, rfl⟩
    · exact absurd rfl hne
  refine ⟨⟨fun {b} hb => ?_, fun {i k j l} hne he => ?_, fun {i k} hne => ?_, fun {b} hb hbb => ?_⟩,
    fun i => ?_, fun {i o} ho => ?_, fun hv => absurd hv Bool.false_ne_true, fun {i} ht => ?_⟩
  · exact decide_eq_true hb.le
  · obtain ⟨rfl, rfl, -⟩ := hused i k hne
    obtain ⟨rfl, rfl, -⟩ := hused j l (he ▸ hne)
    exact ⟨rfl, rfl⟩
  · obtain ⟨-, -, hb⟩ := hused i k hne
    rw [hb]
    decide
  · have hle : b ≤ mkfs.nmeta := of_decide_eq_true hbb
    refine ⟨ROOTINO, 0, ?_⟩
    rw [rootDisk_blk, if_pos ⟨rfl, rfl⟩]
    omega
  · by_cases hi : i = ROOTINO
    · subst hi
      decide
    · have hz : (rootDisk.dinode i).size = 0 := by
        simp only [rootDisk, hi, if_false]
        rfl
      rw [hz]
      exact Nat.zero_le _
  · by_cases hi : i = ROOTINO
    · subst hi
      have ho : o < BSIZE := ho
      rw [Nat.div_eq_of_lt ho, rootDisk_blk, if_pos ⟨rfl, rfl⟩]
      decide
    · have hz : (rootDisk.dinode i).size = 0 := by
        simp only [rootDisk, hi, if_false]
        rfl
      rw [hz] at ho
      exact absurd ho (Nat.not_lt_zero o)
  · have hi : i ≠ ROOTINO := by
      rintro rfl
      exact absurd ht (by decide)
    refine ⟨rfl, ?_, fun k => ?_⟩
    · simp only [rootDisk, hi, if_false]
      rfl
    · rw [rootDisk_blk, if_neg fun hc => hi hc.1]

lemma rootDisk_files : rootDisk.files = rootWorld.files := by
  funext i
  by_cases hi : i = ROOTINO
  · subst hi
    have hbytes : rootDisk.content ROOTINO = rootFile.bytes := by
      refine List.ext_getElem ?_ fun o h₁ h₂ => ?_
      · rw [length_content, length_rootFile]
        rfl
      · have ho : o < BSIZE := by rwa [length_rootFile] at h₂
        simp only [content, List.getElem_map, List.getElem_range]
        rw [byteAt, Nat.div_eq_of_lt ho, Nat.mod_eq_of_lt ho, rootDisk_blk, if_pos ⟨rfl, rfl⟩]
        show (if mkfs.nmeta = mkfs.nmeta then rootFile.bytes.getD o 0 else 0) = _
        rw [if_pos rfl, List.getD_eq_getElem _ _ h₂]
    rw [files_of_type (by decide), hbytes]
    rfl
  · have ht : (rootDisk.dinode i).type = 0 := by
      simp only [rootDisk, hi, if_false]
      rfl
    rw [files, if_pos ht, rootWorld_of_ne hi]

lemma shows_rootSys : Shows mkfs rootSys rootWorld.store := by
  refine ⟨ok_rootDisk, rootDisk_files, ?_, rfl, fun hl => absurd hl (Finset.notMem_empty _),
    fun hf hn => ?_⟩
  · show ({ROOTINO} : Multiset ℕ) = {ROOTINO} + 0
    rw [add_zero]
  · obtain ⟨rfl, rfl⟩ := rootWorld_cases hf
    exact absurd hn (by decide)

/-! ### Runs -/

variable {sb : Superblock} {s : Sys} {w : World}

lemma wp_calls (hsb : sb.ninodes ≤ 2 ^ 16) (h : Shows sb s w.store) (hw : w.Good sb)
    (cs : List Call) (hcs : AllowsAll (World.next sb) World.Allows w cs) :
    Wp (performAll (Sys.call sb) cs) Full (fun rs s' => rs = replies (World.next sb) w cs ∧
      Shows sb s' (finish (World.next sb) w cs).store ∧
        (finish (World.next sb) w cs).Good sb) s := by
  have hstep : ∀ (s : Sys) (w : World) (c : Call), Shows sb s w.store ∧ w.Good sb → w.Allows c →
      Wp (Sys.call sb c) Full (fun r s' => r = (World.next sb w c).1 ∧
        Shows sb s' (World.next sb w c).2.store ∧ (World.next sb w c).2.Good sb) s :=
    fun s w c hR hc => Sys.wp_call hsb hR.1 hR.2 c hc
  have hrun := wp_performAll_finish hstep cs s w ⟨h, hw⟩ hcs
  exact hrun.mono (fun _ _ hr => hr) fun e he => he.elim fun c hc => hc.2

/-- **System calls do not show blocks, inodes in memory and locks.**  Whatever processes do with
paths and open files, the replies are those of files with names, and so are the files on the disk
that are left; the only panics are those of a full disk, of too many inodes and of `dirlink` in a
directory without room. -/
theorem calls_on_names (hsb : sb.ninodes ≤ 2 ^ 16) (h : Shows sb s w.store) (hw : w.Good sb)
    (cs : List Call) (hcs : AllowsAll (World.next sb) World.Allows w cs) :
    Wp (performAll (Sys.call sb) cs) Full (fun rs s' => rs = replies (World.next sb) w cs ∧
      s'.disk.files = (finish (World.next sb) w cs).files ∧ s'.locks = ∅) s := by
  refine (wp_calls hsb h hw cs hcs).post fun rs s' hr => ?_
  obtain ⟨hrs, hs', -⟩ := hr
  exact ⟨hrs, hs'.files, hs'.locks⟩

/-- The type of a file, when it is known. -/
lemma type_of_map {fs : Files} {i : ℕ} {t : ℤ} (h : (fs i).map File.type = some t) {f : File}
    (hf : fs i = some f) : f.type = t := by
  rw [hf, Option.map_some] at h
  exact Option.some.inj h

lemma linked_of_map {fs : Files} {i : ℕ} {n : ℤ} (h : (fs i).map File.nlink = some n)
    (hn : 0 < n) : fs.Linked i := by
  obtain ⟨f, hf, rfl⟩ := Option.map_eq_some_iff.mp h
  exact ⟨f, hf, hn⟩

/-- A file is made, written in two transactions, and gets another name; its first name goes, and it
is read. -/
theorem calls_on_names_file : Wp (performAll (Sys.call mkfs) [.fork ROOTINO,
      .sysOpen ROOTINO [47, 97] 0x202 true, .filewrite ⟨2, true, true⟩ (fun _ => 7) 0 2000,
      .sysLink ROOTINO [47, 97] [47, 98], .sysUnlink ROOTINO [47, 97],
      .fileread ⟨2, true, true⟩ 1998 5, .fileclose ⟨2, true, true⟩, .exit ROOTINO]) Full
    (fun rs s' =>
      rs = [(0, []), (2, []), (2000, []), (0, []), (0, []), (2, [7, 7]), (0, []), (0, [])] ∧
        s'.locks = ∅) rootSys := by
  have hroot : ROOTINO ∈ ROOTINO ::ₘ ({ROOTINO} : Multiset ℕ) := Multiset.mem_cons_self ..
  have h := calls_on_names (by decide) shows_rootSys good_rootWorld [.fork ROOTINO,
    .sysOpen ROOTINO [47, 97] 0x202 true, .filewrite ⟨2, true, true⟩ (fun _ => 7) 0 2000,
    .sysLink ROOTINO [47, 97] [47, 98], .sysUnlink ROOTINO [47, 97],
    .fileread ⟨2, true, true⟩ 1998 5, .fileclose ⟨2, true, true⟩, .exit ROOTINO] ?_
  · refine h.post fun rs s' hr => ⟨hr.1.trans ?_, hr.2.2⟩
    decide +kernel
  · refine ⟨Multiset.mem_singleton_self _, ⟨hroot, Or.inl rfl⟩, ⟨?_, fun f hf => ?_⟩,
      ⟨⟨?_, Or.inl rfl⟩, ⟨?_, Or.inl rfl⟩, fun dp a hp => ?_⟩, ⟨?_, Or.inl rfl⟩,
      ⟨?_, fun f hf => ?_⟩, ?_, ?_, trivial⟩
    · decide +kernel
    · rw [type_of_map (t := T_FILE) (by decide +kernel) hf]
      decide
    · decide +kernel
    · decide +kernel
    · have hp' : some (ROOTINO, [98]) = some (dp, a) := Eq.trans (by decide +kernel) hp
      obtain ⟨rfl, rfl⟩ := Prod.mk.inj (Option.some.inj hp')
      decide +kernel
    · decide +kernel
    · decide +kernel
    · rw [type_of_map (t := T_FILE) (by decide +kernel) hf]
      decide
    · show ⟨2, true, true⟩ ∈ World.ftable _
      decide +kernel
    · show ROOTINO ∈ World.cwds _
      decide +kernel

/-- **Files do not get lost.**  In every run the nodes on the disk are a tree, in which the links of
a file are its names; and a file either has links, and is at the end of an absolute path, or it has
none, and there is a reference to it. -/
theorem files_have_names (hsb : sb.ninodes ≤ 2 ^ 16) (h : Shows sb s w.store) (hw : w.Good sb)
    (cs : List Call) (hcs : AllowsAll (World.next sb) World.Allows w cs) :
    Wp (performAll (Sys.call sb) cs) Full (fun _ s' =>
      NameTree (Finset.range sb.ninodes) ROOTINO s'.disk.files.nodes ∧
        ∀ i f, s'.disk.files i = some f →
          (0 < f.nlink ∧ ∃ path, path.headD 0 = slash ∧
            s'.disk.files.walk ROOTINO (elems path) = some i) ∨
          (f.nlink = 0 ∧ i ∈ s'.refs)) s := by
  refine (wp_calls hsb h hw cs hcs).post fun rs s' hr => ?_
  obtain ⟨-, hs', hgood⟩ := hr
  rw [hs'.files]
  refine ⟨hgood.tidy.tree, fun i f hf => ?_⟩
  by_cases hn : f.nlink = 0
  · refine Or.inr ⟨hn, ?_⟩
    rw [hs'.refs]
    exact hgood.orphan hf hn
  · have hpos : 0 < f.nlink := lt_of_le_of_ne (hgood.tidy.nonneg hf) (Ne.symm hn)
    obtain ⟨l, hl⟩ := hgood.tidy.exists_absolute ⟨f, hf, hpos⟩
    exact Or.inl ⟨hpos, absolute l, rfl, hl⟩

/-- In every run on a disk that is not larger than that of `mkfs`, `nlink` fits in a `short`, also
while a link is made. -/
lemma wp_calls_nlink (hsb : sb.ninodes ≤ 2 ^ 16) (hsize : sb.size ≤ FSSIZE)
    (h : Shows sb s w.store) (hw : w.Good sb) (cs : List Call)
    (hcs : AllowsAll (World.next sb) World.Allows w cs) :
    Wp (performAll (Sys.call sb) cs) Full
      (fun _ s' => ∀ i f, s'.disk.files i = some f → f.nlink + 1 < 2 ^ 15) s := by
  refine (wp_calls hsb h hw cs hcs).post fun rs s' hr i f hf => ?_
  obtain ⟨-, hs', hgood⟩ := hr
  have ht : Tidy sb s'.disk.files := hs'.files ▸ hgood.tidy
  have hle := ht.nlink_le hs'.ok hf
  simp only [FSSIZE] at hsize
  omega

/-- A process removes its own directory. -/
theorem files_have_names_removed : Wp (performAll (Sys.call mkfs) [.sysMkdir ROOTINO [47, 97],
      .sysChdir ROOTINO [97], .sysUnlink 2 [47, 97]]) Full (fun _ s' =>
    ∀ i f, s'.disk.files i = some f → 0 < f.nlink ∨ (f.nlink = 0 ∧ i ∈ s'.refs)) rootSys := by
  have h := files_have_names (by decide) shows_rootSys good_rootWorld [.sysMkdir ROOTINO [47, 97],
    .sysChdir ROOTINO [97], .sysUnlink 2 [47, 97]] ?_
  · exact h.post fun _ s' hr i f hf => (hr.2 i f hf).imp And.left id
  · refine ⟨⟨Multiset.mem_singleton_self _, Or.inl rfl⟩, ⟨Multiset.mem_singleton_self _,
      Or.inr ?_⟩, ⟨?_, Or.inl rfl⟩, trivial⟩
    · exact linked_of_map (n := 2) (by decide +kernel) (by decide)
    · decide +kernel

/-- **A link that is never made.**  In every run, `sys_link` returns, but for the panics of `Full`,
if and only if its new name does not lead from a directory to the directory itself, such as `/.`:
there it waits for the lock of the directory, which it holds. -/
theorem links_return (hsb : sb.ninodes ≤ 2 ^ 16) (h : Shows sb s w.store) (hw : w.Good sb)
    (cs : List Call) (hcs : AllowsAll (World.next sb) World.Allows w cs) {cwd : ℕ}
    (old new : List UInt8) (hold : (finish (World.next sb) w cs).Begins cwd old)
    (hnew : (finish (World.next sb) w cs).Begins cwd new) :
    Wp (do let _ ← performAll (Sys.call sb) cs; Sys.sysLink sb cwd old new)
      (fun e => Full e ∨ e = .deadlock ∧ (finish (World.next sb) w cs).files.LinksSelf
        (Sys.start cwd old) (elems old) (Sys.start cwd new) (elems new))
      (fun r s' => ¬(finish (World.next sb) w cs).files.LinksSelf
          (Sys.start cwd old) (elems old) (Sys.start cwd new) (elems new) ∧
        (r, s'.disk.files) = (finish (World.next sb) w cs).files.sysLink
          (Sys.start cwd old) (elems old) (Sys.start cwd new) (elems new)) s := by
  refine (wp_calls hsb h hw cs hcs).bind_errors (fun _ => Or.inl) fun _ s₁ hr => ?_
  obtain ⟨-, h₁, hgood⟩ := hr
  refine (Sys.wp_sysLink hgood.tidy h₁ (hgood.linked_start hold) (hgood.linked_start hnew)
    (fun _ => Or.inl) fun hself => Or.inr ⟨rfl, hself⟩).post fun r s₂ hr => ?_
  obtain ⟨hself, fs, hspec, h₂⟩ := hr
  refine ⟨hself, ?_⟩
  rw [hspec, h₂.files]

/-- A file is made, and is linked as `/.`. -/
theorem links_return_dot : Wp (do
      let _ ← performAll (Sys.call mkfs) [.sysOpen ROOTINO [47, 97] 0x202 true]
      Sys.sysLink mkfs ROOTINO [47, 97] [47, 46])
    (fun e => Full e ∨ e = .deadlock) (fun _ _ => False) rootSys := by
  have hroot : ROOTINO ∈ (finish (World.next mkfs) rootWorld
    [.sysOpen ROOTINO [47, 97] 0x202 true]).cwds := by
    decide +kernel
  have h := links_return (by decide) shows_rootSys good_rootWorld
    [.sysOpen ROOTINO [47, 97] 0x202 true] ⟨⟨Multiset.mem_singleton_self _, Or.inl rfl⟩, trivial⟩
    [47, 97] [47, 46] ⟨hroot, Or.inl rfl⟩ ⟨hroot, Or.inl rfl⟩
  refine h.mono (fun r s' hr => hr.1 ⟨2, ROOTINO, dot, ?_, ?_, ?_, ?_⟩) fun e he =>
    he.imp_right And.left
  all_goals decide +kernel

/-- **Paths.**  The elements of a path are what is between its slashes up to the end of the string,
cut at `DIRSIZ` bytes; and names that are joined with slashes are the elements of the path. -/
theorem path_elements (path : List UInt8) :
    elems path = (((path.takeWhile (· != 0)).splitOn slash).filter (!·.isEmpty)).map
        (·.take DIRSIZ) ∧
      ∀ l : List (List UInt8), (∀ a ∈ l, IsName a) → elems (slash :: l.flatMap (slash :: ·)) = l :=
  ⟨elems_eq path, fun l h => elems_absolute l h⟩

end Xv6Projects.Fs
