import Xv6Projects.Fs.Runs

/-!
# Names

A directory is read as a node: its entries lead to the directory itself, to its parent and to the
files of its names.  So `sys_link` adds one name and `sys_unlink` removes one, and every other name
leads where it led before.
-/

namespace Xv6Projects.Fs

open Library Disk

/-- The name `a` leads from node `i` to `j`. -/
def Leads (x : Node ℕ (List UInt8)) (i : ℕ) (a : List UInt8) (j : ℕ) : Prop :=
  (a = dot ∧ j = i) ∨ (a = dotdot ∧ j = x.up) ∨ (a, j) ∈ x.kids

namespace Directory

variable {i j : ℕ} {f : File} {a : List UInt8}

/-- What is found in a directory is what its node says. -/
lemma lookup_eq_some_iff (h : Directory i f) (hi : i ≠ 0)
    (hnames : (f.node.kids.map Prod.fst).Nodup) (ha : IsName a) :
    (lookup (dirents f.bytes) a).map (fun r => r.1.inum.toNat) = some j ↔ Leads f.node i a j := by
  constructor
  · intro hl
    obtain ⟨⟨e, k⟩, he, rfl⟩ := Option.map_eq_some_iff.mp hl
    obtain ⟨-, hdot, hself⟩ | ⟨-, hdot, hup⟩ | ⟨-, -, -, hmem⟩ := h.lookup_cases ha he
    · exact Or.inl ⟨hdot, hself⟩
    · exact Or.inr (Or.inl ⟨hdot, hup⟩)
    · have hkey : e.key = a := (lookup_eq_some he).2.2.trans ha.cstr
      rw [Leads, File.kids_node h.type, Multiset.mem_coe, ← hkey]
      exact Or.inr (Or.inr (List.mem_map_of_mem (f := fun e => (e.key, e.inum.toNat)) hmem))
  · -- the first two entries are found, since they are not empty
    have hfound : ∀ (m : ℕ) (e : Dirent), (dirents f.bytes)[m]? = some e → e.inum ≠ 0 →
        e.key = a → ∃ r, lookup (dirents f.bytes) a = some r := by
      intro m e he hne hkey
      refine Option.ne_none_iff_exists'.mp fun hnone => ?_
      exact lookup_eq_none.mp hnone e (List.mem_of_getElem? he) hne (hkey.trans ha.cstr.symm)
    rintro (⟨rfl, rfl⟩ | ⟨rfl, rfl⟩ | hmem)
    · obtain ⟨e, he, hkey, hself⟩ := h.self
      have hne : e.inum ≠ 0 := by
        intro hz
        rw [hz] at hself
        exact hi hself.symm
      obtain ⟨⟨e', k⟩, hl⟩ := hfound 0 e he hne hkey
      obtain ⟨-, -, hj⟩ | ⟨-, hc, -⟩ | ⟨-, hc, -⟩ := h.lookup_cases ha hl
      · rw [hl, Option.map_some, hj]
      · exact absurd hc (by decide)
      · exact absurd rfl hc
    · obtain ⟨e, he, hkey, hne⟩ := h.up
      obtain ⟨⟨e', k⟩, hl⟩ := hfound 1 e he hne hkey
      obtain ⟨-, hc, -⟩ | ⟨-, -, hj⟩ | ⟨-, -, hc, -⟩ := h.lookup_cases ha hl
      · exact absurd hc (by decide)
      · rw [hl, Option.map_some, hj]
      · exact absurd rfl hc
    · rw [File.kids_node h.type, Multiset.mem_coe] at hmem
      obtain ⟨e, he, heq⟩ := List.mem_map.mp hmem
      obtain ⟨rfl, rfl⟩ := Prod.mk.inj heq
      obtain ⟨k, -, hl⟩ := h.lookup_of_mem hnames he
      rw [hl, Option.map_some]

end Directory

namespace Tidy

variable {sb : Superblock} {fs : Files} {i j : ℕ} {f : File} {a : List UInt8}

lemma child_eq_some_iff (h : Tidy sb fs) (hf : fs i = some f) (hd : f.type = T_DIR)
    (ha : IsName a) : fs.child i a = some j ↔ Leads f.node i a j := by
  rw [Files.child, Files.find_of_dir hf hd]
  exact (h.directory hf hd).lookup_eq_some_iff (h.ne_zero hf)
    (h.tree.names (Files.nodes_of_some hf)) ha

end Tidy

namespace Files

variable {fs fs' : Files} {dp i m : ℕ} {f g : File}

/-- The names in a file are in its type and its bytes. -/
lemma child_congr (hf : fs m = some f) (hg : fs' m = some g) (ht : g.type = f.type)
    (hb : g.bytes = f.bytes) (b : List UInt8) : fs'.child m b = fs.child m b := by
  rw [child, child, find, find, hf, hg, Option.bind_some, Option.bind_some, ht, hb]

lemma child_of_eq (h : fs' m = fs m) (b : List UInt8) : fs'.child m b = fs.child m b := by
  rw [child, child, find, find, h]

/-- The names in other directories stay when one file changes and another one keeps its bytes. -/
lemma child_update_of_ne {o : Option File} (hf : fs i = some f) (ht : g.type = f.type)
    (hb : g.bytes = f.bytes) (hm : m ≠ dp) (b : List UInt8) :
    Files.child (Function.update (Function.update fs dp o) i (some g)) m b = fs.child m b := by
  by_cases hi : m = i
  · subst hi
    exact child_congr hf (Function.update_self ..) ht hb b
  · exact child_of_eq ((Function.update_of_ne hi ..).trans (Function.update_of_ne hm ..)) b

/-- What is not freed has its names. -/
lemma child_sweep {refs : Multiset ℕ} (hm : ∃ f, fs.sweep refs m = some f) (b : List UInt8) :
    (fs.sweep refs).child m b = fs.child m b := by
  obtain ⟨f, hf⟩ := hm
  exact child_of_eq (hf.trans (sweep_eq_some.mp hf).1.symm) b

end Files

namespace Tidy

variable {sb : Superblock} {fs : Files} {dp i k : ℕ} {f g : File} {a b : List UInt8}

/-- **A link is one name more.** -/
lemma child_link (h : Tidy sb fs) (hsb : sb.ninodes ≤ 2 ^ 16) (hf : fs dp = some f)
    (hd : f.type = T_DIR) (hn : 0 < f.nlink) (hg : fs i = some g) (hgd : g.type ≠ T_DIR)
    (ha : IsName a) (hl : lookup (dirents f.bytes) a = none) (hb : IsName b) (m : ℕ) :
    (fs.link dp a i).child m b = if m = dp ∧ b = a then some i else fs.child m b := by
  have hne : dp ≠ i := by
    rintro rfl
    exact hgd (Option.some.inj (hf.symm.trans hg) ▸ hd)
  by_cases hm : m = dp
  · subst hm
    have ht := h.link hsb hf hd hn hg (fun hc => absurd hc hgd) ha hl
    have hself : fs.link m a i m = some ((f.addEntry a i).addNlink 0) := by
      rw [Files.link_eq hf hg hne, Function.update_of_ne hne, Function.update_self,
        Files.isDir_eq hg, decide_eq_false hgd, if_neg Bool.false_ne_true]
    rw [File.addNlink_zero] at hself
    obtain ⟨hdir, hnode⟩ := (h.directory hf hd).addEntry (h.ne_zero hf) ha (h.ne_zero hg)
      ((h.lt_ninodes hg).trans_le hsb) hl
    refine Option.ext fun j => ?_
    rw [ht.child_eq_some_iff hself hdir.type hb, hnode]
    by_cases hba : b = a
    · subst hba
      obtain ⟨hdot, hdotdot⟩ := (h.directory hf hd).ne_dots_of_lookup (h.ne_zero hf) hl
      rw [ha.cstr] at hdot hdotdot
      have hnot : ∀ j, (b, j) ∉ f.node.kids := fun j hmem =>
        absurd ((h.child_eq_some_iff hf hd hb).mpr (Or.inr (Or.inr hmem))) (by
          rw [Files.child, Files.find_of_dir hf hd, hl]
          simp)
      simp [Leads, hdot, hdotdot, hnot, eq_comm]
    · rw [if_neg fun hc => hba hc.2, h.child_eq_some_iff hf hd hb]
      simp [Leads, hba]
  · rw [if_neg fun hc => hm hc.1]
    rw [Files.link_eq hf hg hne]
    exact Files.child_update_of_ne (g := g.addNlink 1) hg rfl rfl hm b

/-- **A name is one name less.** -/
lemma child_unlink (h : Tidy sb fs) (hf : fs dp = some f) (hd : f.type = T_DIR) (hn : 0 < f.nlink)
    (ha : IsName a) {e : Dirent} (he : lookup (dirents f.bytes) a = some (e, k)) (hdot : a ≠ dot)
    (hdotdot : a ≠ dotdot) (hg : fs e.inum.toNat = some g)
    (hempty : g.type = T_DIR → kids (dirents g.bytes) = []) (hb : IsName b) (m : ℕ) :
    (fs.unlink dp k e.inum.toNat).child m b = if m = dp ∧ b = a then none else fs.child m b := by
  obtain ⟨h2, hne, -⟩ := h.kid hf hd hn ha he hdot hdotdot hg
  by_cases hm : m = dp
  · subst hm
    have ht := h.unlink hf hd hn ha he hdot hdotdot hg hempty
    obtain ⟨hk, hin, hkey⟩ := lookup_eq_some he
    rw [ha.cstr] at hkey
    obtain ⟨hdir, hnode⟩ := (h.directory hf hd).emptyEntry h2 hk hin
    have hself : fs.unlink m k e.inum.toNat m = some ((f.putEntry k .zero).addNlink
        (if fs.isDir e.inum.toNat then -1 else 0)) := by
      rw [Files.unlink_eq hf hg hne, Function.update_of_ne hne, Function.update_self]
    have hnames := h.tree.names (Files.nodes_of_some hf)
    have hup := congrArg Node.up hnode
    have hkids := congrArg Node.kids hnode
    have hnode' : ∀ j, Leads ((f.putEntry k .zero).addNlink
        (if fs.isDir e.inum.toNat then -1 else 0)).node m b j ↔
          Leads (f.putEntry k .zero).node m b j := fun j => Iff.rfl
    refine Option.ext fun j => ?_
    rw [ht.child_eq_some_iff hself hdir.type hb, hnode']
    rw [hkids, Multiset.map_cons, Multiset.nodup_cons, hkey] at hnames
    by_cases hba : b = a
    · subst hba
      have hnot : ∀ j, (b, j) ∉ (f.putEntry k .zero).node.kids := fun j hmem =>
        hnames.1 (Multiset.mem_map.mpr ⟨(b, j), hmem, rfl⟩)
      simp [Leads, hdot, hdotdot, hnot]
    · rw [if_neg fun hc => hba hc.2, h.child_eq_some_iff hf hd hb, Leads, Leads, hkids, hup, hkey]
      simp [hba]
  · rw [if_neg fun hc => hm hc.1]
    rw [Files.unlink_eq hf hg hne]
    exact Files.child_update_of_ne (g := g.addNlink (-1)) hg rfl rfl hm b

end Tidy

variable {sb : Superblock} {s : Sys} {w w' : World} {cwd : ℕ}

/-- **`sys_link` adds a name.**  After any calls it returns what it does for files with names; when
that is 0 the new name leads to the old file, and all other names lead where they led; when it is -1
the files are as before. -/
theorem link_adds_name (hsb : sb.ninodes ≤ 2 ^ 16) (h : Shows sb s w.store) (hw : w.Good sb)
    (cs : List Call) (hcs : AllowsAll (World.next sb) World.Allows w cs)
    (hrun : finish (World.next sb) w cs = w') (old new : List UInt8) (hold : w'.Begins cwd old)
    (hnew : w'.Begins cwd new) :
    Wp (do let _ ← performAll (Sys.call sb) cs; Sys.sysLink sb cwd old new)
      (fun e => Full e ∨ e = .deadlock) (fun r s' =>
        r = (w'.files.sysLink (Sys.start cwd old) (elems old) (Sys.start cwd new) (elems new)).1 ∧
        ((r = -1 ∧ s'.disk.files = w'.files) ∨ r = 0 ∧ ∃ ip dp a,
          w'.files.walk (Sys.start cwd old) (elems old) = some ip ∧
          w'.files.parent (Sys.start cwd new) (elems new) = some (dp, a) ∧
          w'.files.child dp a = none ∧ ∀ m b, IsName b →
            s'.disk.files.child m b =
              if m = dp ∧ b = a then some ip else w'.files.child m b)) s := by
  refine (wp_calls hsb h hw cs hcs).bind_errors (fun _ => Or.inl) fun _ s₁ hr => ?_
  obtain ⟨-, h₁, hgood⟩ := hr
  rw [hrun] at h₁ hgood
  have hold := hgood.linked_start hold
  have hnew := hgood.linked_start hnew
  refine (Sys.wp_sysLink (E := fun e => Full e ∨ e = .deadlock) hgood.tidy h₁ hold hnew
    (fun _ => Or.inl) fun _ => Or.inr rfl).post fun r s₂ hr => ?_
  obtain ⟨-, fs', hspec, h₂⟩ := hr
  rw [h₂.files]
  refine ⟨(congrArg Prod.fst hspec).symm, ?_⟩
  obtain hsame | ⟨rfl, ip, dp, a, f, g, hip, hp, hf, hd, hfn, hg, hgd, ha, hl, rfl⟩ :=
    hgood.tidy.walkable.sysLink_cases hold (fun a ha => isName_of_mem_elems old ha) hnew
      (fun a ha => isName_of_mem_elems new ha) hspec
  · exact Or.inl hsame
  · have hc : w'.files.child dp a = none := by
      rw [Files.child, Files.find_of_dir hf hd, hl, Option.map_none]
    exact Or.inr ⟨rfl, ip, dp, a, hip, hp, hc, fun m b hb =>
      hgood.tidy.child_link hsb hf hd hfn hg hgd ha hl hb m⟩

/-- A file is made, and is linked. -/
theorem link_adds_name_file : Wp (do
      let _ ← performAll (Sys.call mkfs) [.sysOpen ROOTINO [47, 97] 0x202 true]
      Sys.sysLink mkfs ROOTINO [47, 97] [47, 98])
    (fun e => Full e ∨ e = .deadlock)
    (fun r s' => r = 0 ∧ s'.disk.files.child ROOTINO [98] = some 2) rootSys := by
  have hroot : ROOTINO ∈ (finish (World.next mkfs) rootWorld
    [.sysOpen ROOTINO [47, 97] 0x202 true]).cwds := by
    decide +kernel
  have h := link_adds_name (by decide) shows_rootSys good_rootWorld
    [.sysOpen ROOTINO [47, 97] 0x202 true] ⟨⟨Multiset.mem_singleton_self _, Or.inl rfl⟩, trivial⟩
    rfl [47, 97] [47, 98] ⟨hroot, Or.inl rfl⟩ ⟨hroot, Or.inl rfl⟩
  refine h.post fun r s' hr => ?_
  obtain ⟨hr, hcases⟩ := hr
  obtain rfl : r = 0 := hr.trans (by decide +kernel)
  obtain ⟨hneg, -⟩ | ⟨-, ip, dp, a, hip, hp, -, hchild⟩ := hcases
  · exact absurd hneg (by decide)
  refine ⟨rfl, ?_⟩
  have hp' : some (ROOTINO, [98]) = some (dp, a) := Eq.trans (by decide +kernel) hp
  have hip' : some 2 = some ip := Eq.trans (by decide +kernel) hip
  obtain ⟨rfl, rfl⟩ := Prod.mk.inj (Option.some.inj hp')
  rw [hchild ROOTINO [98] ⟨by decide, by decide, by decide, by decide⟩, if_pos ⟨rfl, rfl⟩, hip']

/-- **`sys_unlink` removes a name.**  After any calls it returns what it does for files with names;
when that is 0 the name leads nowhere, and all other names in the files that are left lead where
they led; when it is -1 the files are as before. -/
theorem unlink_removes_name (hsb : sb.ninodes ≤ 2 ^ 16) (h : Shows sb s w.store) (hw : w.Good sb)
    (cs : List Call) (hcs : AllowsAll (World.next sb) World.Allows w cs)
    (hrun : finish (World.next sb) w cs = w') (path : List UInt8) (hpath : w'.Begins cwd path) :
    Wp (do let _ ← performAll (Sys.call sb) cs; Sys.sysUnlink sb cwd path) Full (fun r s' =>
      r = (w'.files.sysUnlink w'.refs (Sys.start cwd path) (elems path)).1 ∧
      ((r = -1 ∧ s'.disk.files = w'.files) ∨ r = 0 ∧ ∃ ip dp a,
        w'.files.parent (Sys.start cwd path) (elems path) = some (dp, a) ∧
        w'.files.child dp a = some ip ∧ ∀ m f b, s'.disk.files m = some f → IsName b →
          s'.disk.files.child m b = if m = dp ∧ b = a then none else w'.files.child m b)) s := by
  refine (wp_calls hsb h hw cs hcs).bind fun _ s₁ hr => ?_
  obtain ⟨-, h₁, hgood⟩ := hr
  rw [hrun] at h₁ hgood
  have hcwd := hgood.linked_start hpath
  refine (Sys.wp_sysUnlink hgood.tidy h₁ hcwd).post fun r s₂ hr => ?_
  obtain ⟨fs', hspec, h₂⟩ := hr
  rw [h₂.files]
  refine ⟨(congrArg Prod.fst hspec).symm, ?_⟩
  obtain hsame | ⟨rfl, dp, a, e, k, f, g, hp, hf, hd, hfn, ha, hdot, hdotdot, he, hg, hempty,
    rfl⟩ := hgood.tidy.walkable.sysUnlink_cases hcwd
      (fun a ha => isName_of_mem_elems path ha) hspec
  · exact Or.inl hsame
  · refine Or.inr ⟨rfl, e.inum.toNat, dp, a, hp, ?_, fun m x b hm hb => ?_⟩
    · rw [Files.child, Files.find_of_dir hf hd, he, Option.map_some]
    · rw [Files.child_sweep ⟨x, hm⟩]
      exact hgood.tidy.child_unlink hf hd hfn ha he hdot hdotdot hg hempty hb m

/-- A file is made, and its name goes. -/
theorem unlink_removes_name_file : Wp (do
      let _ ← performAll (Sys.call mkfs) [.sysOpen ROOTINO [47, 97] 0x202 true]
      Sys.sysUnlink mkfs ROOTINO [47, 97]) Full
    (fun r s' => r = 0 ∧
      ∀ f, s'.disk.files ROOTINO = some f → s'.disk.files.child ROOTINO [97] = none) rootSys := by
  have hroot : ROOTINO ∈ (finish (World.next mkfs) rootWorld
    [.sysOpen ROOTINO [47, 97] 0x202 true]).cwds := by
    decide +kernel
  have h := unlink_removes_name (by decide) shows_rootSys good_rootWorld
    [.sysOpen ROOTINO [47, 97] 0x202 true] ⟨⟨Multiset.mem_singleton_self _, Or.inl rfl⟩, trivial⟩
    rfl [47, 97] ⟨hroot, Or.inl rfl⟩
  refine h.post fun r s' hr => ?_
  obtain ⟨hr, hcases⟩ := hr
  obtain rfl : r = 0 := hr.trans (by decide +kernel)
  obtain ⟨hneg, -⟩ | ⟨-, ip, dp, a, hp, -, hchild⟩ := hcases
  · exact absurd hneg (by decide)
  refine ⟨rfl, fun f hf => ?_⟩
  have hp' : some (ROOTINO, [97]) = some (dp, a) := Eq.trans (by decide +kernel) hp
  obtain ⟨rfl, rfl⟩ := Prod.mk.inj (Option.some.inj hp')
  rw [hchild ROOTINO f [97] hf ⟨by decide, by decide, by decide, by decide⟩, if_pos ⟨rfl, rfl⟩]

end Xv6Projects.Fs
