import Xv6Projects.Fs.Syscall

/-!
# Calls keep the tree

`link`, `unlink` and `create` keep a tidy file system: names, links and parents go together, and no
file gets lost.
-/

namespace Xv6Projects.Fs

open Library Disk

/-! ### Names and links -/

/-- No file goes, and none loses its links. -/
structure Extends (fs fs' : Files) : Prop where
  kept {i : ℕ} {f : File} : fs i = some f → ∃ f', fs' i = some f' ∧ f'.type = f.type
  orphan {i : ℕ} {f' : File} : fs' i = some f' → f'.nlink = 0 → ∃ f, fs i = some f ∧ f.nlink = 0

lemma Extends.refl (fs : Files) : Extends fs fs :=
  ⟨fun hf => ⟨_, hf, rfl⟩, fun hf hn => ⟨_, hf, hn⟩⟩

lemma Extends.trans {fs fs' fs'' : Files} (h : Extends fs fs') (h' : Extends fs' fs'') :
    Extends fs fs'' := by
  refine ⟨fun hf => ?_, fun hf hn => ?_⟩
  · obtain ⟨f', hf', ht'⟩ := h.kept hf
    obtain ⟨f'', hf'', ht''⟩ := h'.kept hf'
    exact ⟨f'', hf'', ht''.trans ht'⟩
  · obtain ⟨f', hf', hn'⟩ := h'.orphan hf hn
    exact h.orphan hf' hn'

/-- A file is replaced by one of the same type. -/
lemma extends_update {fs : Files} {i : ℕ} {g : File} (hold : ∀ f, fs i = some f → g.type = f.type)
    (hn : g.nlink = 0 → ∃ f, fs i = some f ∧ f.nlink = 0) :
    Extends fs (Function.update fs i (some g)) := by
  refine ⟨fun {m f} hf => ?_, fun {m f} hf hz => ?_⟩
  · by_cases hm : m = i
    · subst hm
      exact ⟨g, Function.update_self .., hold f hf⟩
    · exact ⟨f, (Function.update_of_ne hm ..).trans hf, rfl⟩
  · by_cases hm : m = i
    · subst hm
      rw [Function.update_self] at hf
      exact hn (Option.some.inj hf ▸ hz)
    · exact ⟨f, (Function.update_of_ne hm ..).symm.trans hf, hz⟩

namespace Tidy

variable {sb : Superblock} {fs : Files} {dp i : ℕ} {f g : File} {a : List UInt8}

lemma nonneg (h : Tidy sb fs) (hf : fs i = some f) : 0 ≤ f.nlink :=
  h.tree.nonneg (Files.nodes_of_some hf)

lemma extends_link (h : Tidy sb fs) (hf : fs dp = some f) (hg : fs i = some g) (hne : dp ≠ i)
    (hn : 0 < f.nlink) : Extends fs (fs.link dp a i) := by
  have hgn := h.nonneg hg
  rw [Files.link_eq hf hg hne]
  refine (extends_update (fun x hx => ?_) fun hz => ?_).trans
    (extends_update (fun x hx => ?_) fun hz => ?_)
  · rw [← Option.some.inj (hf.symm.trans hx)]
    rfl
  · have hz : f.nlink + (if fs.isDir i then 1 else 0) = 0 := hz
    split_ifs at hz <;> omega
  · rw [Function.update_of_ne hne.symm] at hx
    rw [← Option.some.inj (hg.symm.trans hx)]
    rfl
  · have hz : g.nlink + 1 = 0 := hz
    omega

/-- `link` keeps a tidy file system. -/
lemma sysLink (h : Tidy sb fs) (hsb : sb.ninodes ≤ 2 ^ 16) {j : ℕ}
    {old new : List (List UInt8)} (hi : fs.Linked i) (hold : ∀ a ∈ old, IsName a)
    (hj : fs.Linked j) (hnew : ∀ a ∈ new, IsName a) :
    Tidy sb (fs.sysLink i old j new).2 ∧ Extends fs (fs.sysLink i old j new).2 := by
  cases hs : fs.sysLink i old j new with
  | mk r fs' =>
    obtain ⟨-, rfl⟩ | ⟨-, ip, dp, a, f, g, -, -, hf, hd, hfn, hg, hgd, ha, hlook, rfl⟩ :=
      h.walkable.sysLink_cases hi hold hj hnew hs
    · exact ⟨h, Extends.refl _⟩
    · have hne : dp ≠ ip := by
        rintro rfl
        rw [Option.some.inj (hf.symm.trans hg)] at hd
        exact hgd hd
      exact ⟨h.link hsb hf hd hfn hg (fun hc => absurd hc hgd) ha hlook,
        h.extends_link hf hg hne hfn⟩

end Tidy

/-- A new directory has its two entries, and no names. -/
lemma directory_newFile {ip dp : ℕ} (hip : ip ≠ 0) (hlt : ip < 2 ^ 16) (hdp : dp ≠ 0)
    (hlt' : dp < 2 ^ 16) : Directory ip (Files.newFile T_DIR ip dp) ∧
      (Files.newFile T_DIR ip dp).node.up = dp ∧ (Files.newFile T_DIR ip dp).node.kids = 0 := by
  obtain ⟨hne₁, hin₁, hkey₁⟩ := Dirent.link_spec isName_dot hip hlt
  obtain ⟨hne₂, hin₂, hkey₂⟩ := Dirent.link_spec isName_dotdot hdp hlt'
  have hnew : Files.newFile T_DIR ip dp =
      ((⟨T_DIR, 0, []⟩ : File).addEntry dot ip).addEntry dotdot dp := by
    rw [Files.newFile, if_pos rfl]
  have hdir := isDir_dot 0 ip
  have hes : dirents (Files.newFile T_DIR ip dp).bytes = [.link dot ip, .link dotdot dp] := by
    have hfree : freeEntry [.link dot ip] = 1 := by simp [freeEntry, first, hne₁]
    have h := hdir.dirents_putEntry (.link dotdot dp) (freeEntry_spec _).1
    rw [dirents_dot, hfree] at h
    rw [hnew, File.addEntry, dirents_dot, hfree, h]
    rfl
  have hisdir : IsDir (Files.newFile T_DIR ip dp) := by
    rw [hnew]
    exact hdir.putEntry _ (freeEntry_spec _).1
  refine ⟨⟨hisdir, ⟨.link dot ip, ?_, hkey₁, hin₁⟩, ⟨.link dotdot dp, ?_, hkey₂, hne₂⟩, ?_⟩, ?_, ?_⟩
  · rw [hes]
    rfl
  · rw [hes]
    rfl
  · rw [hes]
    exact fun e he => absurd he List.not_mem_nil
  · rw [File.up_node hisdir.type, hes]
    exact hin₂
  · rw [File.kids_node hisdir.type, hes]
    rfl

/-- What is left has links or references. -/
lemma Files.sweep_eq_some {fs : Files} {refs : Multiset ℕ} {i : ℕ} {f : File} :
    fs.sweep refs i = some f ↔ fs i = some f ∧ (f.nlink ≠ 0 ∨ i ∈ refs) := by
  rw [sweep, Option.filter_eq_some_iff, decide_eq_true_eq]

namespace Tidy

variable {sb : Superblock} {fs : Files} {i : ℕ} {path : List (List UInt8)}

/-- A new file without a name. -/
lemma newFile (h : Tidy sb fs) (hsb : sb.ninodes ≤ 2 ^ 16) {dp ip : ℕ} {f : File} (type : ℤ)
    (hf : fs dp = some f) (hu : fs.unused sb = some ip) :
    Tidy sb (Function.update fs ip (some (Files.newFile type ip dp))) ∧
      (Files.newFile type ip dp).nlink = 0 ∧ (type = T_DIR →
        (Files.newFile type ip dp).node.up = dp ∧ (Files.newFile type ip dp).node.kids = 0) := by
  obtain ⟨hip, hne, hlt⟩ := Files.unused_spec hu
  have hzero : (Files.newFile type ip dp).nlink = 0 := by
    rw [Files.newFile]
    split_ifs <;> rfl
  have hdots := directory_newFile hne (hlt.trans_le hsb) (h.ne_zero hf)
    ((h.lt_ninodes hf).trans_le hsb)
  have hdir : type = T_DIR → (Files.newFile type ip dp).node.up = dp ∧
      (Files.newFile type ip dp).node.kids = 0 := by
    rintro rfl
    exact hdots.2
  refine ⟨h.update hne hlt (fun f hf => absurd (hip.symm.trans hf) (by simp)) fun f hf' => ?_,
    hzero, hdir⟩
  obtain rfl := Option.some.inj hf'
  refine ⟨hzero, ?_, fun hd => ?_⟩
  · by_cases hd : type = T_DIR
    · exact (hdir hd).2
    · rw [File.node_of_not_dir (by rwa [Files.type_newFile])]
  · rw [Files.type_newFile] at hd
    rw [hd]
    exact hdots.1

/-- `create` keeps a tidy file system, and what it returns has links. -/
lemma create (h : Tidy sb fs) (hsb : sb.ninodes ≤ 2 ^ 16) (hi : fs.Linked i)
    (hpath : ∀ a ∈ path, IsName a) (type : ℤ) :
    Tidy sb (fs.create sb i path type).2 ∧ Extends fs (fs.create sb i path type).2 ∧
      ∀ ip, (fs.create sb i path type).1 = some ip →
        ∃ g, (fs.create sb i path type).2 ip = some g ∧ 0 < g.nlink ∧ g.type = type := by
  cases hp : fs.parent i path with
  | none =>
    have hspec : fs.create sb i path type = (none, fs) := by simp only [Files.create, hp]
    rw [hspec]
    exact ⟨h, Extends.refl fs, fun ip hip => absurd hip (by simp)⟩
  | some p =>
    obtain ⟨dp, a⟩ := p
    obtain ⟨⟨f, hf, hfn⟩, hd, ha⟩ := h.walkable.linked_of_parent _ _ hi hpath hp
    have hd : f.type = T_DIR := of_decide_eq_true ((Files.isDir_eq hf).symm.trans hd)
    cases hc : fs.child dp a with
    | some m =>
      obtain ⟨g, hg, hgn⟩ := h.walkable.linked_of_child ⟨f, hf, hfn⟩ ha hc
      have hspec : fs.create sb i path type =
          (if type = T_FILE ∧ g.type = T_FILE then some m else none, fs) := by
        simp only [Files.create, hp, hc, hg, Option.any_some, decide_eq_true_eq]
      rw [hspec]
      refine ⟨h, Extends.refl fs, fun ip hip => ?_⟩
      by_cases htype : type = T_FILE ∧ g.type = T_FILE
      · have hip : (if type = T_FILE ∧ g.type = T_FILE then some m else none) = some ip := hip
        rw [if_pos htype] at hip
        exact ⟨g, Option.some.inj hip ▸ hg, hgn, htype.2.trans htype.1.symm⟩
      · have hip : (if type = T_FILE ∧ g.type = T_FILE then some m else none) = some ip := hip
        rw [if_neg htype] at hip
        exact absurd hip (by simp)
    | none =>
      cases hu : fs.unused sb with
      | none =>
        have hspec : fs.create sb i path type = (none, fs) := by
          simp only [Files.create, hp, hc, hu]
        rw [hspec]
        exact ⟨h, Extends.refl fs, fun ip hip => absurd hip (by simp)⟩
      | some ip =>
        have hspec : fs.create sb i path type = (some ip,
            Files.link (Function.update fs ip (some (Files.newFile type ip dp))) dp a ip) := by
          simp only [Files.create, hp, hc, hu]
        obtain ⟨hip, -, -⟩ := Files.unused_spec hu
        have hne : dp ≠ ip := by
          rintro rfl
          exact absurd (hip.symm.trans hf) (by simp)
        obtain ⟨hnew, hzero, hdots⟩ := h.newFile hsb type hf hu
        have hdp : Function.update fs ip (some (Files.newFile type ip dp)) dp = some f :=
          (Function.update_of_ne hne ..).trans hf
        have hself : Function.update fs ip (some (Files.newFile type ip dp)) ip =
          some (Files.newFile type ip dp) := Function.update_self ..
        have hlook : lookup (dirents f.bytes) a = none := by
          rwa [Files.child, Files.find_of_dir hf hd, Option.map_eq_none_iff] at hc
        have hlinkip :
            Files.link (Function.update fs ip (some (Files.newFile type ip dp))) dp a ip ip =
              some ((Files.newFile type ip dp).addNlink 1) := by
          rw [Files.link_eq hdp hself hne, Function.update_self]
        rw [hspec]
        refine ⟨hnew.link hsb hdp hd hfn hself (fun hgd => ⟨hzero, ?_⟩) ha hlook,
          ⟨fun {m x} hx => ?_, fun {m x} hx hz => ?_⟩, fun j hj => ?_⟩
        · rw [Files.type_newFile] at hgd
          exact hdots hgd
        · have hm : m ≠ ip := by
            rintro rfl
            exact absurd (hip.symm.trans hx) (by simp)
          exact (hnew.extends_link hdp hself hne hfn).kept ((Function.update_of_ne hm ..).trans hx)
        · by_cases hm : m = ip
          · rw [hm] at hx
            obtain rfl := Option.some.inj (hlinkip.symm.trans hx)
            have hz : (Files.newFile type ip dp).nlink + 1 = 0 := hz
            omega
          · obtain ⟨y, hy, hyn⟩ := (hnew.extends_link hdp hself hne hfn).orphan hx hz
            exact ⟨y, (Function.update_of_ne hm ..).symm.trans hy, hyn⟩
        · obtain rfl := Option.some.inj hj
          refine ⟨_, hlinkip, ?_, Files.type_newFile ..⟩
          show 0 < (Files.newFile type ip dp).nlink + 1
          omega

/-- `unlink` keeps a tidy file system; the files that are left are as before, but for their
links. -/
lemma sysUnlink (h : Tidy sb fs) (hi : fs.Linked i) (hpath : ∀ a ∈ path, IsName a)
    {refs : Multiset ℕ} (horphan : ∀ j g, fs j = some g → g.nlink = 0 → j ∈ refs) :
    Tidy sb (fs.sysUnlink refs i path).2 ∧
      (∀ j f, fs j = some f → j ∈ refs →
        ∃ f', (fs.sysUnlink refs i path).2 j = some f' ∧ f'.type = f.type) ∧
      ∀ j f, (fs.sysUnlink refs i path).2 j = some f → f.nlink = 0 → j ∈ refs := by
  cases hs : fs.sysUnlink refs i path with
  | mk r fs' =>
    obtain ⟨-, rfl⟩ | ⟨-, dp, a, e, k, f, g, -, hf, hd, hfn, ha, hdot, hdotdot, hlook, hg, hempty,
      rfl⟩ := h.walkable.sysUnlink_cases hi hpath hs
    · exact ⟨h, fun j f hf _ => ⟨f, hf, rfl⟩, horphan⟩
    obtain ⟨-, hne, -, hone⟩ := h.kid hf hd hfn ha hlook hdot hdotdot hg
    have hunlink := h.unlink hf hd hfn ha hlook hdot hdotdot hg hempty
    generalize e.inum.toNat = ip at *
    have hdp : fs.unlink dp k ip dp =
        some ((f.putEntry k .zero).addNlink (if fs.isDir ip then -1 else 0)) := by
      rw [Files.unlink_eq hf hg hne, Function.update_of_ne hne, Function.update_self]
    have hip : fs.unlink dp k ip ip = some (g.addNlink (-1)) := by
      rw [Files.unlink_eq hf hg hne, Function.update_self]
    have hoff : ∀ m, m ≠ ip → m ≠ dp → fs.unlink dp k ip m = fs m := by
      intro m hm hm'
      rw [Files.unlink_eq hf hg hne, Function.update_of_ne hm, Function.update_of_ne hm']
    have hdpn : 0 < f.nlink + if fs.isDir ip then -1 else 0 := by
      rw [Files.isDir_eq hg]
      by_cases hgd : g.type = T_DIR
      · have := (hone hgd (hempty hgd)).2.2.2
        simp only [hgd, decide_true, if_true]
        omega
      · simpa [hgd] using hfn
    refine ⟨hunlink.sweep hip fun m x hm hx hz => ?_, fun j x hx hj => ?_, fun j x hx hz => ?_⟩
    · by_cases hm' : m = dp
      · subst hm'
        obtain rfl := Option.some.inj (hdp.symm.trans hx)
        exact absurd hz hdpn.ne'
      · exact horphan m x ((hoff m hm hm').symm.trans hx) hz
    · have hkept : ∃ x', fs.unlink dp k ip j = some x' ∧ x'.type = x.type := by
        by_cases hj₁ : j = ip
        · subst hj₁
          have ht : g.type = x.type := congrArg File.type (Option.some.inj (hg.symm.trans hx))
          exact ⟨_, hip, ht⟩
        · by_cases hj₂ : j = dp
          · subst hj₂
            have ht : f.type = x.type := congrArg File.type (Option.some.inj (hf.symm.trans hx))
            exact ⟨_, hdp, ht⟩
          · exact ⟨x, (hoff j hj₁ hj₂).trans hx, rfl⟩
      obtain ⟨x', hx', ht⟩ := hkept
      exact ⟨x', Files.sweep_eq_some.mpr ⟨hx', Or.inr hj⟩, ht⟩
    · exact (Files.sweep_eq_some.mp hx).2.resolve_left fun hc => hc hz

end Tidy

/-! ### Links fit in a `short` -/

/-- The blocks of the files are on the disk. -/
lemma Disk.Ok.sum_blocks_le {sb : Superblock} {d : Disk} (h : Ok sb d) (s : Finset ℕ) :
    ∑ i ∈ s, ((d.dinode i).size + (BSIZE - 1)) / BSIZE ≤ sb.size := by
  have hne : ∀ i k, k < ((d.dinode i).size + (BSIZE - 1)) / BSIZE → d.blk i k ≠ 0 := by
    intro i k hk
    have hlt : BSIZE * k < (d.dinode i).size := by
      simp only [BSIZE] at hk ⊢
      omega
    have hblk := h.sized hlt
    rwa [Nat.mul_div_cancel_left _ (by decide)] at hblk
  calc ∑ i ∈ s, ((d.dinode i).size + (BSIZE - 1)) / BSIZE
      = (s.sigma fun i => Finset.range (((d.dinode i).size + (BSIZE - 1)) / BSIZE)).card := by
        simp only [Finset.card_sigma, Finset.card_range]
    _ ≤ (Finset.range sb.size).card := by
        refine Finset.card_le_card_of_injOn (fun x => d.blk x.1 x.2) (fun x hx => ?_)
          fun x hx y hy he => ?_
        · have hk := Finset.mem_range.mp (Finset.mem_sigma.mp hx).2
          exact Finset.mem_coe.mpr (Finset.mem_range.mpr (h.held.used (hne _ _ hk)).2.2)
        · have hk := Finset.mem_range.mp (Finset.mem_sigma.mp hx).2
          obtain ⟨h₁, h₂⟩ := h.held.inj (hne _ _ hk) he
          exact Sigma.ext h₁ (heq_of_eq h₂)
    _ = sb.size := Finset.card_range _

/-- The entries of a directory are more than its links. -/
lemma File.out_node_le {i : ℕ} {f : File} (h : f.type = T_DIR → Directory i f) (k : ℕ) :
    f.node.out k ≤ f.bytes.length / DESIZE := by
  by_cases hl : f.node.Linked
  · have hd := isDir_node.mp hl.1
    have h2 := (h hd).two_le
    have hkids : f.node.kids.card ≤ (dirents f.bytes).length - 2 := by
      rw [kids_node hd, Multiset.coe_card, List.length_map, Fs.kids, ← List.length_drop]
      exact List.length_filter_le ..
    have hcount : f.node.kids.countP (·.2 = k) ≤ f.node.kids.card := Multiset.countP_le_card ..
    rw [length_dirents] at h2 hkids
    rw [Node.out_of_linked hl]
    split_ifs <;> omega
  · rw [Node.out_of_not_linked hl]
    exact Nat.zero_le _

/-- The links of a file are names and parents in the blocks of the disk. -/
lemma Tidy.nlink_le {sb : Superblock} {d : Disk} (ht : Tidy sb d.files) (h : Ok sb d) {i : ℕ}
    {f : File} (hf : d.files i = some f) : f.nlink ≤ 32 * sb.size := by
  have hcount : f.nlink = links (Finset.range sb.ninodes) d.files.nodes i :=
    ht.tree.count (Files.nodes_of_some hf)
  have hle : links (Finset.range sb.ninodes) d.files.nodes i ≤
      ∑ j ∈ Finset.range sb.ninodes, 32 * (((d.dinode j).size + (BSIZE - 1)) / BSIZE) := by
    refine Finset.sum_le_sum fun j _ => ?_
    cases hj : d.files j with
    | none =>
      rw [Files.nodes, hj]
      exact Nat.zero_le _
    | some g =>
      have hout := File.out_node_le (ht.directory hj) i
      have hsize : DESIZE = 16 := rfl
      rw [h.length_eq hj, hsize] at hout
      rw [Files.nodes_of_some hj]
      refine hout.trans ?_
      simp only [BSIZE]
      omega
  rw [← Finset.mul_sum] at hle
  have hsum := h.sum_blocks_le (Finset.range sb.ninodes)
  rw [hcount]
  exact_mod_cast hle.trans (Nat.mul_le_mul_left 32 hsum)

end Xv6Projects.Fs
