import Mathlib.Data.Multiset.Basic
import Xv6Projects.Fs.Path
import Xv6Projects.Library.NameTree

/-!
# The tree of files

Files and directories as nodes with names.  In a tidy file system the directories have their own
entries `.` and `..`, and the nodes are a tree in which the links are counted; so a path that
begins at a node with links only meets nodes with links.
-/

namespace Xv6Projects.Fs

open Library Disk

/-! ### Names -/

/-- An element of a path. -/
structure IsName (a : List UInt8) : Prop where
  ne_nil : a ≠ []
  slash : slash ∉ a
  zero : 0 ∉ a
  length_le : a.length ≤ DIRSIZ

lemma cstr_eq_self (n : ℕ) : ∀ {a : List UInt8}, 0 ∉ a → a.length ≤ n → cstr a n = a := by
  induction n with
  | zero =>
    intro a _ ha
    exact (List.length_eq_zero_iff.mp (Nat.le_zero.mp ha)).symm
  | succ n ih =>
    intro a h0 ha
    cases a with
    | nil => rfl
    | cons c a =>
      rw [List.mem_cons, not_or] at h0
      rw [cstr, List.headD_cons, if_pos (Ne.symm h0.1), List.tail_cons,
        ih h0.2 (Nat.le_of_succ_le_succ ha)]

/-- What `strncmp` and `strncpy` see of a name is the name. -/
lemma IsName.cstr {a : List UInt8} (h : IsName a) : cstr a DIRSIZ = a :=
  cstr_eq_self DIRSIZ h.zero h.length_le

lemma isName_of_skipelem {path name rest : List UInt8} (h : skipelem path = some (name, rest)) :
    IsName name := by
  rw [skipelem] at h
  split_ifs at h with hz
  obtain ⟨rfl, -⟩ := Prod.mk.inj (Option.some.inj h)
  obtain ⟨c, s, hs, hc⟩ := skip_cons hz
  have hin : ∀ x ∈ ((skip path).takeWhile inElem).take DIRSIZ, inElem x = true :=
    fun x hx => List.mem_takeWhile_imp (List.mem_of_mem_take hx)
  refine ⟨?_, fun hm => ?_, fun hm => ?_, List.length_take_le ..⟩
  · rw [hs, List.takeWhile_cons_of_pos hc]
    exact List.cons_ne_nil _ _
  · exact absurd (hin _ hm) (by decide)
  · exact absurd (hin _ hm) (by decide)

lemma isName_of_mem_elems {a : List UInt8} (path : List UInt8) : a ∈ elems path → IsName a := by
  fun_induction elems path with
  | case1 path h => exact fun ha => absurd ha List.not_mem_nil
  | case2 path name rest h ih =>
    intro ha
    obtain rfl | ha := List.mem_cons.mp ha
    · exact isName_of_skipelem h
    · exact ih ha

/-! ### Nodes -/

/-- A file as a node: the entries of a directory are names, but for its first two. -/
def File.node (f : File) : Node ℕ (List UInt8) where
  isDir := decide (f.type = T_DIR)
  up := if f.type = T_DIR then ((dirents f.bytes)[1]?).elim 0 (·.inum.toNat) else 0
  kids := if f.type = T_DIR then ↑((kids (dirents f.bytes)).map fun e => (e.key, e.inum.toNat))
    else 0
  nlink := f.nlink

def Files.nodes (fs : Files) : Nodes ℕ (List UInt8) := fun i => (fs i).map File.node

lemma Files.nodes_of_some {fs : Files} {i : ℕ} {f : File} (hf : fs i = some f) :
    fs.nodes i = some f.node := by
  rw [nodes, hf, Option.map_some]

lemma Files.exists_of_nodes {fs : Files} {i : ℕ} {x : Node ℕ (List UInt8)}
    (hx : fs.nodes i = some x) : ∃ f, fs i = some f ∧ f.node = x :=
  Option.map_eq_some_iff.mp hx

namespace File

variable {f g : File}

lemma isDir_node : f.node.isDir = true ↔ f.type = T_DIR := decide_eq_true_iff

lemma node_of_not_dir (hf : f.type ≠ T_DIR) : f.node = ⟨false, 0, 0, f.nlink⟩ := by
  rw [node, decide_eq_false hf, if_neg hf, if_neg hf]

lemma kids_node (hf : f.type = T_DIR) :
    f.node.kids = ↑((Fs.kids (dirents f.bytes)).map fun e => (e.key, e.inum.toNat)) := if_pos hf

lemma up_node (hf : f.type = T_DIR) :
    f.node.up = ((dirents f.bytes)[1]?).elim 0 (·.inum.toNat) := if_pos hf

end File

/-! ### Directories -/

/-- A directory with its own entries: first itself, then its parent, then names. -/
structure Directory (i : ℕ) (f : File) : Prop extends IsDir f where
  self : ∃ e, (dirents f.bytes)[0]? = some e ∧ e.key = dot ∧ e.inum.toNat = i
  up : ∃ e, (dirents f.bytes)[1]? = some e ∧ e.key = dotdot ∧ e.inum ≠ 0
  names : ∀ e ∈ kids (dirents f.bytes), IsName e.key ∧ e.key ≠ dot ∧ e.key ≠ dotdot

lemma mem_kids {es : List Dirent} {k : ℕ} {e : Dirent} (h2 : 2 ≤ k) (hk : es[k]? = some e)
    (he : e.inum ≠ 0) : e ∈ kids es := by
  refine List.mem_filter.mpr ⟨?_, decide_eq_true he⟩
  refine List.mem_iff_getElem?.mpr ⟨k - 2, ?_⟩
  rw [List.getElem?_drop, Nat.add_sub_cancel' h2, hk]

lemma exists_of_mem_kids {es : List Dirent} {e : Dirent} (h : e ∈ kids es) :
    e ∈ es ∧ e.inum ≠ 0 := by
  obtain ⟨hmem, hne⟩ := List.mem_filter.mp h
  exact ⟨List.mem_of_mem_drop hmem, of_decide_eq_true hne⟩

namespace Directory

variable {i : ℕ} {f : File} {a : List UInt8}

/-- There are two entries. -/
lemma two_le (h : Directory i f) : 2 ≤ (dirents f.bytes).length := by
  obtain ⟨e, he, -⟩ := h.up
  exact (List.getElem?_eq_some_iff.mp he).1

/-- An entry that is found is the first one, the second one, or a name. -/
lemma lookup_cases (h : Directory i f) {e : Dirent} {k : ℕ} (ha : IsName a)
    (he : lookup (dirents f.bytes) a = some (e, k)) :
    (k = 0 ∧ a = dot ∧ e.inum.toNat = i) ∨ (k = 1 ∧ a = dotdot ∧ e.inum.toNat = f.node.up) ∨
      (2 ≤ k ∧ a ≠ dot ∧ a ≠ dotdot ∧ e ∈ kids (dirents f.bytes)) := by
  obtain ⟨hk, hne, hkey⟩ := lookup_eq_some he
  rw [ha.cstr] at hkey
  obtain rfl | rfl | h2 : k = 0 ∨ k = 1 ∨ 2 ≤ k := by omega
  · obtain ⟨e', he', hdot, hi⟩ := h.self
    obtain rfl := Option.some.inj (hk.symm.trans he')
    exact Or.inl ⟨rfl, hkey.symm.trans hdot, hi⟩
  · obtain ⟨e', he', hdot, hi⟩ := h.up
    obtain rfl := Option.some.inj (hk.symm.trans he')
    refine Or.inr (Or.inl ⟨rfl, hkey.symm.trans hdot, ?_⟩)
    rw [File.up_node h.type, hk]
    rfl
  · have hmem := mem_kids h2 hk hne
    obtain ⟨-, hdot, hdotdot⟩ := h.names e hmem
    exact Or.inr (Or.inr ⟨h2, hkey ▸ hdot, hkey ▸ hdotdot, hmem⟩)

/-- The names of a directory are found in it, when each of them is there once. -/
lemma lookup_of_mem (h : Directory i f) (hnames : (f.node.kids.map Prod.fst).Nodup) {e : Dirent}
    (he : e ∈ kids (dirents f.bytes)) :
    ∃ k, 2 ≤ k ∧ lookup (dirents f.bytes) e.key = some (e, k) := by
  obtain ⟨hname, hdot, hdotdot⟩ := h.names e he
  cases hl : lookup (dirents f.bytes) e.key with
  | none =>
    obtain ⟨hmem, hne⟩ := exists_of_mem_kids he
    exact absurd hname.cstr.symm (lookup_eq_none.mp hl e hmem hne)
  | some r =>
    obtain ⟨e', k⟩ := r
    obtain ⟨-, hd, -⟩ | ⟨-, hd, -⟩ | ⟨h2, -, -, he'⟩ := h.lookup_cases hname hl
    · exact absurd hd hdot
    · exact absurd hd hdotdot
    · have hkey : e'.key = e.key := (lookup_eq_some hl).2.2.trans hname.cstr
      rw [File.kids_node h.type, Multiset.map_coe, List.map_map, Multiset.coe_nodup] at hnames
      obtain rfl : e' = e := List.inj_on_of_nodup_map hnames he' he hkey
      exact ⟨k, h2, rfl⟩

end Directory

/-! ### Walking -/

namespace Files

variable (fs : Files)

/-- The entry of a name in a directory, and its index. -/
def find (i : ℕ) (a : List UInt8) : Option (Dirent × ℕ) :=
  (fs i).bind fun f => if f.type = T_DIR then lookup (dirents f.bytes) a else none

/-- The inode of a name in a directory. -/
def child (i : ℕ) (a : List UInt8) : Option ℕ := (fs.find i a).map fun r => r.1.inum.toNat

def isDir (i : ℕ) : Bool := (fs i).any fun f => decide (f.type = T_DIR)

/-- The inode at the end of a path that begins at `i`. -/
def walk : ℕ → List (List UInt8) → Option ℕ
  | i, [] => some i
  | i, a :: l => (fs.child i a).bind fun j => walk j l

/-- The directory in which the last name of a path is looked up, and this name. -/
def parent : ℕ → List (List UInt8) → Option (ℕ × List UInt8)
  | _, [] => none
  | i, a :: l =>
    if l = [] then if fs.isDir i then some (i, a) else none
    else (fs.child i a).bind fun j => parent j l

end Files

/-- A file system between two calls. -/
structure Tidy (sb : Superblock) (fs : Files) : Prop where
  tree : NameTree (Finset.range sb.ninodes) ROOTINO fs.nodes
  directory {i : ℕ} {f : File} : fs i = some f → f.type = T_DIR → Directory i f
  zero : fs 0 = none

/-- There is a file, and it has links. -/
def Files.Linked (fs : Files) (i : ℕ) : Prop := ∃ f, fs i = some f ∧ 0 < f.nlink

/-- Directories are read without a panic, and names in those with links lead to files with links. -/
structure Walkable (fs : Files) : Prop where
  isDir {i : ℕ} {f : File} : fs i = some f → f.type = T_DIR → IsDir f
  linked {i : ℕ} {f : File} {a : List UInt8} {e : Dirent} {k : ℕ} : fs i = some f →
    f.type = T_DIR → 0 < f.nlink → IsName a → lookup (dirents f.bytes) a = some (e, k) →
    fs.Linked e.inum.toNat

namespace Files

variable {fs : Files} {i : ℕ} {f : File} {a : List UInt8}

lemma find_of_dir (hf : fs i = some f) (hd : f.type = T_DIR) :
    fs.find i a = lookup (dirents f.bytes) a := by
  rw [find, hf, Option.bind_some, if_pos hd]

lemma find_of_not_dir (hf : fs i = some f) (hd : f.type ≠ T_DIR) : fs.find i a = none := by
  rw [find, hf, Option.bind_some, if_neg hd]

/-- A name is found in a directory. -/
lemma exists_of_find {r : Dirent × ℕ} (h : fs.find i a = some r) :
    ∃ f, fs i = some f ∧ f.type = T_DIR ∧ lookup (dirents f.bytes) a = some r := by
  obtain ⟨f, hf, hr⟩ := Option.bind_eq_some_iff.mp h
  split_ifs at hr with hd
  exact ⟨f, hf, hd, hr⟩

end Files

/-- A tidy file system can be walked: names in a directory with links are those of files with links,
and so is the directory itself and its parent. -/
lemma Tidy.walkable {sb : Superblock} {fs : Files} (h : Tidy sb fs) : Walkable fs := by
  refine ⟨fun hf hd => (h.directory hf hd).toIsDir, fun {i f a e k} hf hd hn ha he => ?_⟩
  have hx := Files.nodes_of_some hf
  have hl : f.node.Linked := ⟨File.isDir_node.mpr hd, hn⟩
  obtain ⟨-, -, hi⟩ | ⟨-, -, hi⟩ | ⟨-, -, -, hmem⟩ := (h.directory hf hd).lookup_cases ha he
  · exact ⟨f, by rw [hi, hf], hn⟩
  · obtain ⟨y, hy, hyl⟩ := h.tree.exists_up hx hl
    obtain ⟨g, hg, rfl⟩ := Files.exists_of_nodes hy
    exact ⟨g, by rw [hi, hg], hyl.2⟩
  · have hkid : (e.key, e.inum.toNat) ∈ f.node.kids := by
      rw [File.kids_node hd, Multiset.mem_coe]
      exact List.mem_map_of_mem (f := fun e => (e.key, e.inum.toNat)) hmem
    obtain ⟨y, hy⟩ := h.tree.target hx hl hkid
    obtain ⟨g, hg, rfl⟩ := Files.exists_of_nodes hy
    exact ⟨g, hg, h.tree.nlink_pos hx hl hkid hy⟩

namespace Walkable

variable {fs : Files} {i j : ℕ} {a : List UInt8}

lemma linked_of_child (h : Walkable fs) (hi : fs.Linked i) (ha : IsName a)
    (hc : fs.child i a = some j) : fs.Linked j := by
  obtain ⟨r, hr, rfl⟩ := Option.map_eq_some_iff.mp hc
  obtain ⟨f, hf, hd, hl⟩ := Files.exists_of_find hr
  obtain ⟨g, hg, hn⟩ := hi
  obtain rfl := Option.some.inj (hf.symm.trans hg)
  exact h.linked hf hd hn ha hl

/-- **Only files with links are met on a path.** -/
lemma linked_of_walk (h : Walkable fs) (l : List (List UInt8)) : ∀ i, fs.Linked i →
    (∀ a ∈ l, IsName a) → fs.walk i l = some j → fs.Linked j := by
  induction l with
  | nil => exact fun i hi _ hw => Option.some.inj hw ▸ hi
  | cons a l ih =>
    intro i hi hl hw
    obtain ⟨m, hm, hw⟩ := Option.bind_eq_some_iff.mp hw
    rw [List.forall_mem_cons] at hl
    exact ih m (h.linked_of_child hi hl.1 hm) hl.2 hw

lemma linked_of_parent (h : Walkable fs) (l : List (List UInt8)) : ∀ i, fs.Linked i →
    (∀ a ∈ l, IsName a) → fs.parent i l = some (j, a) →
    fs.Linked j ∧ fs.isDir j = true ∧ IsName a := by
  induction l with
  | nil => exact fun i _ _ hp => absurd hp (by simp [Files.parent])
  | cons b l ih =>
    intro i hi hl hp
    rw [List.forall_mem_cons] at hl
    rw [Files.parent] at hp
    split_ifs at hp with hnil hdir
    · obtain ⟨rfl, rfl⟩ := Prod.mk.inj (Option.some.inj hp)
      exact ⟨hi, hdir, hl.1⟩
    · obtain ⟨m, hm, hp⟩ := Option.bind_eq_some_iff.mp hp
      exact ih m (h.linked_of_child hi hl.1 hm) hl.2 hp

end Walkable

/-! ### Names come and go -/

/-- A file has `k` links more. -/
def File.addNlink (f : File) (k : ℤ) : File := { f with nlink := f.nlink + k }

/-- A directory has one entry more. -/
def File.addEntry (f : File) (a : List UInt8) (i : ℕ) : File :=
  f.putEntry (freeEntry (dirents f.bytes)) (.link a i)

namespace Files

/-- A file is changed. -/
def modify (fs : Files) (i : ℕ) (g : File → File) : Files := Function.update fs i ((fs i).map g)

/-- File `i` gets the name `a` in directory `dp`, which gets a link from it if it is a directory. -/
def link (fs : Files) (dp : ℕ) (a : List UInt8) (i : ℕ) : Files :=
  (fs.modify dp fun f => (f.addEntry a i).addNlink (if fs.isDir i then 1 else 0)).modify i
    (·.addNlink 1)

/-- File `i` loses its name in entry `k` of directory `dp`. -/
def unlink (fs : Files) (dp k i : ℕ) : Files :=
  (fs.modify dp fun f => (f.putEntry k .zero).addNlink (if fs.isDir i then -1 else 0)).modify i
    (·.addNlink (-1))

variable {fs : Files} {i j : ℕ} {f : File} {g : File → File}

lemma modify_self (hf : fs i = some f) : fs.modify i g i = some (g f) := by
  rw [modify, Function.update_self, hf, Option.map_some]

lemma modify_of_ne (hj : j ≠ i) : fs.modify i g j = fs j := Function.update_of_ne hj ..

lemma isDir_eq (hf : fs i = some f) : fs.isDir i = decide (f.type = T_DIR) := by
  rw [isDir, hf, Option.any_some]

end Files

namespace Directory

variable {i j k : ℕ} {f : File} {a : List UInt8}

lemma addNlink (h : Directory i f) (n : ℤ) : Directory i (f.addNlink n) :=
  ⟨⟨h.type, h.whole⟩, h.self, h.up, h.names⟩

/-- The free entry is none of the first two. -/
lemma two_le_freeEntry (h : Directory i f) (hi : i ≠ 0) : 2 ≤ freeEntry (dirents f.bytes) := by
  obtain ⟨-, hfree, -⟩ := freeEntry_spec (dirents f.bytes)
  obtain ⟨e₀, he₀, -, hei⟩ := h.self
  obtain ⟨e₁, he₁, -, hne⟩ := h.up
  by_contra hlt
  obtain h0 | h1 : freeEntry (dirents f.bytes) = 0 ∨ freeEntry (dirents f.bytes) = 1 := by omega
  · rw [h0] at hfree
    rw [hfree e₀ he₀] at hei
    exact hi hei.symm
  · rw [h1] at hfree
    exact hne (hfree e₁ he₁)

/-- The own entries of a directory are found in it. -/
lemma ne_dots_of_lookup (h : Directory i f) (hi : i ≠ 0)
    (hl : lookup (dirents f.bytes) a = none) : cstr a DIRSIZ ≠ dot ∧ cstr a DIRSIZ ≠ dotdot := by
  obtain ⟨e₀, he₀, hkey₀, hei⟩ := h.self
  obtain ⟨e₁, he₁, hkey₁, hne⟩ := h.up
  constructor
  · rw [← hkey₀]
    refine (lookup_eq_none.mp hl e₀ (List.mem_of_getElem? he₀) ?_).symm
    intro hz
    rw [hz] at hei
    exact hi hei.symm
  · rw [← hkey₁]
    exact (lookup_eq_none.mp hl e₁ (List.mem_of_getElem? he₁) hne).symm

/-- An entry after the first two is written. -/
lemma putEntry (h : Directory i f) {e : Dirent} (h2 : 2 ≤ k) (hk : k ≤ (dirents f.bytes).length)
    (hnames : ∀ x ∈ kids (Fs.putEntry (dirents f.bytes) k e),
      IsName x.key ∧ x.key ≠ dot ∧ x.key ≠ dotdot) : Directory i (f.putEntry k e) := by
  have hes := h.toIsDir.dirents_putEntry e hk
  refine ⟨h.toIsDir.putEntry e hk, ?_, ?_, ?_⟩
  · rw [hes, getElem?_putEntry e hk, if_neg (by omega)]
    exact h.self
  · rw [hes, getElem?_putEntry e hk, if_neg (by omega)]
    exact h.up
  · rw [hes]
    exact hnames

lemma up_node_putEntry (h : Directory i f) (e : Dirent) (h2 : 2 ≤ k)
    (hk : k ≤ (dirents f.bytes).length) : (f.putEntry k e).node.up = f.node.up := by
  rw [File.up_node h.type, File.up_node (h.toIsDir.putEntry e hk).type,
    h.toIsDir.dirents_putEntry e hk, getElem?_putEntry e hk, if_neg (by omega)]

end Directory

/-- The new entry. -/
lemma Dirent.link_spec {a : List UInt8} {i : ℕ} (ha : IsName a) (hi : i ≠ 0) (hlt : i < 2 ^ 16) :
    (Dirent.link a i).inum ≠ 0 ∧ (Dirent.link a i).inum.toNat = i ∧ (Dirent.link a i).key = a := by
  have hin : (Dirent.link a i).inum.toNat = i := UInt16.toNat_ofNat_of_lt' hlt
  refine ⟨fun hz => hi ?_, hin, (Dirent.key_link a i).trans ha.cstr⟩
  rw [← hin, hz]
  rfl

namespace Directory

variable {i j k : ℕ} {f : File} {a : List UInt8}

/-- An entry is added. -/
lemma addEntry (h : Directory i f) (hi : i ≠ 0) (ha : IsName a) (hj : j ≠ 0) (hlt : j < 2 ^ 16)
    (hl : lookup (dirents f.bytes) a = none) :
    Directory i (f.addEntry a j) ∧ (f.addEntry a j).node =
      { f.node with kids := (a, j) ::ₘ f.node.kids } := by
  have h2 := h.two_le_freeEntry hi
  obtain ⟨hk, hold, -⟩ := freeEntry_spec (dirents f.bytes)
  obtain ⟨hne, hin, hkey⟩ := Dirent.link_spec ha hj hlt
  have hperm := kids_link h2 hk hold hne
  have hdir : Directory i (f.addEntry a j) := by
    refine h.putEntry h2 hk fun x hx => ?_
    obtain rfl | hx := List.mem_cons.mp (hperm.mem_iff.mp hx)
    · obtain ⟨hdot, hdotdot⟩ := h.ne_dots_of_lookup hi hl
      rw [ha.cstr] at hdot hdotdot
      rw [hkey]
      exact ⟨ha, hdot, hdotdot⟩
    · exact h.names x hx
  refine ⟨hdir, ?_⟩
  have hkids : (f.addEntry a j).node.kids = (a, j) ::ₘ f.node.kids := by
    rw [File.kids_node hdir.type, File.kids_node h.type, File.addEntry,
      h.toIsDir.dirents_putEntry _ hk, Multiset.cons_coe]
    refine Multiset.coe_eq_coe.mpr ((hperm.map _).trans (List.Perm.of_eq ?_))
    rw [List.map_cons, hkey, hin]
  have hup : (f.addEntry a j).node.up = f.node.up := h.up_node_putEntry _ h2 hk
  exact Node.ext rfl hup hkids rfl

/-- An entry is emptied. -/
lemma emptyEntry (h : Directory i f) {e : Dirent} (h2 : 2 ≤ k) (hk : (dirents f.bytes)[k]? = some e)
    (he : e.inum ≠ 0) :
    Directory i (f.putEntry k .zero) ∧ f.node =
      { (f.putEntry k .zero).node with
        kids := (e.key, e.inum.toNat) ::ₘ (f.putEntry k .zero).node.kids } := by
  have hle := (List.getElem?_eq_some_iff.mp hk).1.le
  have hperm := kids_unlink h2 hk he
  have hdir : Directory i (f.putEntry k .zero) := by
    refine h.putEntry h2 hle fun x hx => h.names x ?_
    exact hperm.mem_iff.mpr (List.mem_cons_of_mem e hx)
  refine ⟨hdir, ?_⟩
  have hkids : f.node.kids = (e.key, e.inum.toNat) ::ₘ (f.putEntry k .zero).node.kids := by
    rw [File.kids_node hdir.type, File.kids_node h.type, h.toIsDir.dirents_putEntry _ hle,
      Multiset.cons_coe]
    exact Multiset.coe_eq_coe.mpr (hperm.map _)
  exact Node.ext rfl (h.up_node_putEntry .zero h2 hle).symm hkids rfl

end Directory

namespace Tidy

variable {sb : Superblock} {fs : Files} {dp i k : ℕ} {f g : File} {a : List UInt8}

lemma ne_zero (h : Tidy sb fs) (hf : fs i = some f) : i ≠ 0 := by
  rintro rfl
  exact absurd (h.zero.symm.trans hf) (by simp)

lemma lt_ninodes (h : Tidy sb fs) (hf : fs i = some f) : i < sb.ninodes :=
  Finset.mem_range.mp (h.tree.mem (Files.nodes_of_some hf))

/-- Two files are changed, and they are directories as before. -/
lemma modify {t : Files} (h : Tidy sb fs) (ht : NameTree (Finset.range sb.ninodes) ROOTINO t.nodes)
    (hdp : dp ≠ 0) (hi : i ≠ 0) (hoff : ∀ m, m ≠ dp → m ≠ i → t m = fs m)
    (hdir : ∀ x, t dp = some x → x.type = T_DIR → Directory dp x)
    (hdir' : ∀ x, t i = some x → x.type = T_DIR → Directory i x) : Tidy sb t := by
  refine ⟨ht, fun {m x} hm hx => ?_, (hoff 0 hdp.symm hi.symm).trans h.zero⟩
  by_cases hmd : m = dp
  · subst hmd
    exact hdir x hm hx
  · by_cases hmi : m = i
    · subst hmi
      exact hdir' x hm hx
    · exact h.directory ((hoff m hmd hmi).symm.trans hm) hx

/-- **A name is added.** -/
lemma link (h : Tidy sb fs) (hsb : sb.ninodes ≤ 2 ^ 16) (hf : fs dp = some f)
    (hd : f.type = T_DIR) (hn : 0 < f.nlink) (hg : fs i = some g)
    (hdir : g.type = T_DIR → g.nlink = 0 ∧ g.node.up = dp ∧ g.node.kids = 0)
    (ha : IsName a) (hl : lookup (dirents f.bytes) a = none) : Tidy sb (fs.link dp a i) := by
  have hdp := h.ne_zero hf
  have hi := h.ne_zero hg
  have hlt : i < 2 ^ 16 := (h.lt_ninodes hg).trans_le hsb
  obtain ⟨hentry, hnode⟩ := (h.directory hf hd).addEntry hdp ha hi hlt hl
  have hne : dp ≠ i := by
    rintro rfl
    obtain rfl := Option.some.inj (hf.symm.trans hg)
    exact hn.ne' (hdir hd).1
  have hfst : (fs.link dp a i) dp =
      some ((f.addEntry a i).addNlink (if fs.isDir i then 1 else 0)) :=
    (Files.modify_of_ne hne).trans (Files.modify_self hf)
  have hsnd : (fs.link dp a i) i = some (g.addNlink 1) :=
    Files.modify_self ((Files.modify_of_ne hne.symm).trans hg)
  have hoff : ∀ m, m ≠ dp → m ≠ i → fs.link dp a i m = fs m :=
    fun m hm hm' => (Files.modify_of_ne hm').trans (Files.modify_of_ne hm)
  have hnamed : Named fs.nodes (fs.link dp a i).nodes dp i a f.node g.node := by
    refine ⟨Files.nodes_of_some hf, Files.nodes_of_some hg, ⟨File.isDir_node.mpr hd, hn⟩,
      h.tree.nonneg (Files.nodes_of_some hg), fun hgd => hdir (File.isDir_node.mp hgd), ?_, ?_,
      fun {m} hm hm' => congrArg (Option.map File.node) (hoff m hm hm')⟩
    · have hup := congrArg Node.up hnode
      have hkids := congrArg Node.kids hnode
      rw [Files.nodes_of_some hfst, Files.isDir_eq hg]
      exact congrArg some (Node.ext rfl hup hkids rfl)
    · rw [Files.nodes_of_some hsnd]
      rfl
  refine h.modify (h.tree.link hnamed ?_) hdp hi hoff (fun x hx _ => ?_) fun x hx hxd => ?_
  · intro hmem
    rw [File.kids_node hd, Multiset.map_coe, Multiset.mem_coe, List.map_map, List.mem_map] at hmem
    obtain ⟨e, he, hkey⟩ := hmem
    obtain ⟨hmem, hne⟩ := exists_of_mem_kids he
    exact lookup_eq_none.mp hl e hmem hne (Eq.trans hkey ha.cstr.symm)
  · obtain rfl := Option.some.inj (hfst.symm.trans hx)
    exact hentry.addNlink _
  · obtain rfl := Option.some.inj (hsnd.symm.trans hx)
    exact (h.directory hg hxd).addNlink _

/-- What has a name in a directory is another file with links; a directory without names has no
other link than this name, and is counted by its parent. -/
lemma kid (h : Tidy sb fs) (hf : fs dp = some f) (hd : f.type = T_DIR) (hn : 0 < f.nlink)
    (ha : IsName a) {e : Dirent} (he : lookup (dirents f.bytes) a = some (e, k)) (hdot : a ≠ dot)
    (hdotdot : a ≠ dotdot) (hg : fs e.inum.toNat = some g) :
    2 ≤ k ∧ dp ≠ e.inum.toNat ∧ 0 < g.nlink ∧
      (g.type = T_DIR → kids (dirents g.bytes) = [] →
        g.nlink = 1 ∧ g.node.up = dp ∧ g.node.kids = 0 ∧ 2 ≤ f.nlink) := by
  obtain ⟨-, hc, -⟩ | ⟨-, hc, -⟩ | ⟨h2, -, -, hmem⟩ := (h.directory hf hd).lookup_cases ha he
  · exact absurd hc hdot
  · exact absurd hc hdotdot
  have hx := Files.nodes_of_some hf
  have hy := Files.nodes_of_some hg
  have hl : f.node.Linked := ⟨File.isDir_node.mpr hd, hn⟩
  have hkid : (e.key, e.inum.toNat) ∈ f.node.kids := by
    rw [File.kids_node hd, Multiset.mem_coe]
    exact List.mem_map_of_mem (f := fun e => (e.key, e.inum.toNat)) hmem
  refine ⟨h2, (h.tree.kid_ne hx hl hkid).symm, h.tree.nlink_pos hx hl hkid hy,
    fun hgd hempty => ?_⟩
  have hkids : g.node.kids = 0 := by
    rw [File.kids_node hgd, hempty]
    rfl
  obtain ⟨hone, hup, htwo⟩ :=
    h.tree.nlink_of_empty hx hl hkid hy (File.isDir_node.mpr hgd) hkids
  exact ⟨hone, hup, hkids, htwo⟩

/-- **A name is removed.** -/
lemma unlink (h : Tidy sb fs) (hf : fs dp = some f) (hd : f.type = T_DIR) (hn : 0 < f.nlink)
    (ha : IsName a) {e : Dirent} (he : lookup (dirents f.bytes) a = some (e, k)) (hdot : a ≠ dot)
    (hdotdot : a ≠ dotdot) (hg : fs e.inum.toNat = some g)
    (hempty : g.type = T_DIR → kids (dirents g.bytes) = []) :
    Tidy sb (fs.unlink dp k e.inum.toNat) := by
  obtain ⟨h2, hij, hpos, hone⟩ := h.kid hf hd hn ha he hdot hdotdot hg
  have hone := fun hgd => hone hgd (hempty hgd)
  obtain ⟨hk, hne, -⟩ := lookup_eq_some he
  obtain ⟨hentry, hnode⟩ := (h.directory hf hd).emptyEntry h2 hk hne
  have hx := Files.nodes_of_some hf
  have hy := Files.nodes_of_some hg
  generalize hi : e.inum.toNat = i at *
  have hfst : fs.unlink dp k i dp =
      some ((f.putEntry k .zero).addNlink (if fs.isDir i then -1 else 0)) :=
    (Files.modify_of_ne hij).trans (Files.modify_self hf)
  have hsnd : fs.unlink dp k i i = some (g.addNlink (-1)) :=
    Files.modify_self ((Files.modify_of_ne hij.symm).trans hg)
  have hoff : ∀ m, m ≠ dp → m ≠ i → fs.unlink dp k i m = fs m :=
    fun m hm hm' => (Files.modify_of_ne hm').trans (Files.modify_of_ne hm)
  rw [Files.isDir_eq hg] at hfst
  have hnamed : Named (fs.unlink dp k i).nodes fs.nodes dp i e.key
      ((f.putEntry k .zero).addNlink (if decide (g.type = T_DIR) then -1 else 0)).node
      (g.addNlink (-1)).node := by
    refine ⟨Files.nodes_of_some hfst, Files.nodes_of_some hsnd,
      ⟨File.isDir_node.mpr hd, ?_⟩, ?_, fun hgd => ?_, ?_, ?_,
      fun {m} hm hm' => congrArg (Option.map File.node) (hoff m hm hm').symm⟩
    · show 0 < f.nlink + if decide (g.type = T_DIR) then -1 else 0
      by_cases hgd : g.type = T_DIR
      · have := (hone hgd).2.2.2
        simp only [hgd, decide_true, if_true]
        omega
      · simpa [hgd] using hn
    · show 0 ≤ g.nlink + -1
      omega
    · have hgd : g.type = T_DIR := File.isDir_node.mp hgd
      obtain ⟨hn₁, hup, hkids, -⟩ := hone hgd
      refine ⟨?_, hup, hkids⟩
      show g.nlink + -1 = 0
      omega
    · have hup := congrArg Node.up hnode
      have hkids := congrArg Node.kids hnode
      rw [hx]
      refine congrArg some (Node.ext rfl hup hkids ?_)
      show f.nlink = f.nlink + (if decide (g.type = T_DIR) then -1 else 0) +
        if decide (g.type = T_DIR) then 1 else 0
      split_ifs <;> omega
    · rw [hy]
      refine congrArg some (Node.ext rfl rfl rfl ?_)
      show g.nlink = g.nlink + -1 + 1
      omega
  refine h.modify (h.tree.unlink hnamed) (h.ne_zero hf) (h.ne_zero hg) hoff (fun x hx _ => ?_)
    fun x hx hxd => ?_
  · obtain rfl := Option.some.inj (hfst.symm.trans hx)
    exact hentry.addNlink _
  · obtain rfl := Option.some.inj (hsnd.symm.trans hx)
    exact (h.directory hg hxd).addNlink _

end Tidy

/-! ### Files come and go -/

lemma Files.nodes_update (fs : Files) (i : ℕ) (o : Option File) :
    Files.nodes (Function.update fs i o) = Function.update fs.nodes i (o.map File.node) := by
  funext m
  by_cases hm : m = i
  · rw [hm, Function.update_self, nodes, Function.update_self]
  · rw [Function.update_of_ne hm, nodes, Function.update_of_ne hm]
    rfl

/-- What is left when the files without links and references are freed. -/
def Files.sweep (fs : Files) (refs : Multiset ℕ) : Files := fun i =>
  (fs i).filter fun f => decide (f.nlink ≠ 0 ∨ i ∈ refs)

/-- One file is freed at most. -/
lemma Files.sweep_eq {fs : Files} {refs : Multiset ℕ} {i : ℕ} {f : File} (hf : fs i = some f)
    (hoff : ∀ j g, j ≠ i → fs j = some g → g.nlink = 0 → j ∈ refs) :
    fs.sweep refs = if f.nlink = 0 ∧ i ∉ refs then Function.update fs i none else fs := by
  have hother : ∀ j, j ≠ i → fs.sweep refs j = fs j := by
    intro j hj
    rw [sweep]
    cases hg : fs j with
    | none => rfl
    | some g =>
      refine Option.filter_some_pos (decide_eq_true ?_)
      by_cases hn : g.nlink = 0
      · exact Or.inr (hoff j g hj hg hn)
      · exact Or.inl hn
  have hself : fs.sweep refs i = if f.nlink = 0 ∧ i ∉ refs then none else some f := by
    rw [sweep, hf]
    by_cases hz : f.nlink = 0 ∧ i ∉ refs
    · rw [if_pos hz]
      refine Option.filter_some_neg ?_
      simpa using hz
    · rw [if_neg hz]
      refine Option.filter_some_pos (decide_eq_true ?_)
      by_contra hc
      rw [not_or, not_not] at hc
      exact hz hc
  funext j
  by_cases hj : j = i
  · rw [hj, hself]
    split_ifs
    · rw [Function.update_self]
    · rw [hf]
  · rw [hother j hj]
    split_ifs
    · rw [Function.update_of_ne hj]
    · rfl

namespace Tidy

variable {sb : Superblock} {fs : Files} {i : ℕ} {f : File}

/-- One file that has no links is added or removed. -/
lemma update (h : Tidy sb fs) {o : Option File} (hi : i ≠ 0) (hlt : i < sb.ninodes)
    (hold : ∀ f, fs i = some f → f.nlink = 0)
    (hnew : ∀ f, o = some f → f.nlink = 0 ∧ f.node.kids = 0 ∧
      (f.type = T_DIR → Directory i f)) : Tidy sb (Function.update fs i o) := by
  refine ⟨?_, fun {m x} hm hx => ?_, (Function.update_of_ne hi.symm ..).trans h.zero⟩
  · rw [Files.nodes_update]
    refine h.tree.update_of_unlinked (Finset.mem_range.mpr hlt) (fun x hx => ?_) fun x hx => ?_
    · obtain ⟨g, hg, rfl⟩ := Files.exists_of_nodes hx
      exact hold g hg
    · obtain ⟨g, rfl, rfl⟩ := Option.map_eq_some_iff.mp hx
      exact ⟨(hnew g rfl).1, (hnew g rfl).2.1⟩
  · by_cases hmi : m = i
    · subst hmi
      rw [Function.update_self] at hm
      exact (hnew x hm).2.2 hx
    · rw [Function.update_of_ne hmi] at hm
      exact h.directory hm hx

lemma sweep (h : Tidy sb fs) {refs : Multiset ℕ} (hf : fs i = some f)
    (hoff : ∀ j g, j ≠ i → fs j = some g → g.nlink = 0 → j ∈ refs) : Tidy sb (fs.sweep refs) := by
  rw [Files.sweep_eq hf hoff]
  split_ifs with hz
  · refine h.update (h.ne_zero hf) (h.lt_ninodes hf) (fun g hg => ?_)
      fun g hg => absurd hg (by simp)
    rw [← Option.some.inj (hf.symm.trans hg)]
    exact hz.1
  · exact h

/-- The bytes of a file that is no directory do not matter. -/
lemma write (h : Tidy sb fs) (hf : fs i = some f) (hd : f.type ≠ T_DIR) (off : ℕ)
    (src : List UInt8) : Tidy sb (Function.update fs i (some (f.write off src))) := by
  have hnode : (f.write off src).node = f.node := by
    rw [File.node_of_not_dir hd, File.node_of_not_dir (show (f.write off src).type ≠ T_DIR from hd)]
    rfl
  have hnodes : Files.nodes (Function.update fs i (some (f.write off src))) = fs.nodes := by
    rw [Files.nodes_update, Option.map_some, hnode, ← Files.nodes_of_some hf,
      Function.update_eq_self]
  refine ⟨hnodes ▸ h.tree, fun {m x} hm hx => ?_,
    (Function.update_of_ne (h.ne_zero hf).symm ..).trans h.zero⟩
  by_cases hmi : m = i
  · subst hmi
    rw [Function.update_self] at hm
    obtain rfl := Option.some.inj hm
    exact absurd hx hd
  · rw [Function.update_of_ne hmi] at hm
    exact h.directory hm hx

end Tidy

/-! ### Every file has a path -/

/-- An absolute path of names. -/
def absolute (l : List (List UInt8)) : List UInt8 := slash :: l.flatMap (slash :: ·)

lemma parts_flatMap (l : List (List UInt8)) (h : ∀ a ∈ l, IsName a) :
    parts (l.flatMap (slash :: ·)) = l := by
  induction l with
  | nil => rfl
  | cons a l ih =>
    rw [List.forall_mem_cons] at h
    rw [List.flatMap_cons, List.cons_append, parts_slash]
    cases l with
    | nil => rw [List.flatMap_nil, List.append_nil, parts_of_notMem h.1.slash h.1.ne_nil]
    | cons b l =>
      have hrest := ih h.2
      rw [List.flatMap_cons, List.cons_append, parts_slash] at hrest
      rw [List.flatMap_cons, List.cons_append, parts_append h.1.slash h.1.ne_nil, hrest]

/-- **Names are the elements of a path.** -/
theorem elems_absolute (l : List (List UInt8)) (h : ∀ a ∈ l, IsName a) :
    elems (absolute l) = l := by
  have hstr : str (absolute l) = absolute l := by
    refine List.takeWhile_eq_self_iff.mpr fun c hc => ?_
    have hz : (0 : UInt8) ≠ slash := by decide
    suffices hne : c ≠ 0 by simpa using hne
    rintro rfl
    obtain hc | hc := List.mem_cons.mp hc
    · exact hz hc
    · obtain ⟨a, ha, hc⟩ := List.mem_flatMap.mp hc
      obtain hc | hc := List.mem_cons.mp hc
      · exact hz hc
      · exact (h a ha).zero hc
  rw [elems_eq, hstr, absolute, parts_slash, parts_flatMap l h]
  conv_rhs => rw [← List.map_id l]
  exact List.map_congr_left fun a ha => List.take_of_length_le (h a ha).length_le

lemma Files.walk_append (fs : Files) (a : List UInt8) (l : List (List UInt8)) :
    ∀ i, fs.walk i (l ++ [a]) = (fs.walk i l).bind fun j => fs.child j a := by
  induction l with
  | nil =>
    intro i
    show (fs.child i a).bind (fun j => some j) = fs.child i a
    cases fs.child i a with
    | none => rfl
    | some j => rfl
  | cons b l ih =>
    intro i
    rw [List.cons_append, walk, walk, Option.bind_assoc]
    exact congrArg _ (funext fun j => ih j)

namespace Tidy

variable {sb : Superblock} {fs : Files} {i : ℕ}

/-- Who follows the names of a path finds the node. -/
lemma walk_of_path (h : Tidy sb fs) {l : List (List UInt8)}
    (hp : NameTree.Path fs.nodes ROOTINO l i) :
    fs.walk ROOTINO l = some i ∧ ∀ a ∈ l, IsName a := by
  induction hp with
  | nil => exact ⟨rfl, fun a ha => absurd ha List.not_mem_nil⟩
  | @snoc l i x e _ hx hl he ih =>
    obtain ⟨f, hf, rfl⟩ := Files.exists_of_nodes hx
    have hd := File.isDir_node.mp hl.1
    rw [File.kids_node hd, Multiset.mem_coe, List.mem_map] at he
    obtain ⟨de, hde, rfl⟩ := he
    have hdir := h.directory hf hd
    obtain ⟨k, -, hlook⟩ := hdir.lookup_of_mem (h.tree.names hx) hde
    have hchild : fs.child i de.key = some de.inum.toNat := by
      rw [Files.child, Files.find_of_dir hf hd, hlook, Option.map_some]
    refine ⟨?_, fun a ha => ?_⟩
    · rw [Files.walk_append, ih.1, Option.bind_some, hchild]
    · obtain ha | ha := List.mem_append.mp ha
      · exact ih.2 a ha
      · rw [List.mem_singleton.mp ha]
        exact (hdir.names de hde).1

/-- **Every file with links is at the end of an absolute path.** -/
lemma exists_absolute (h : Tidy sb fs) (hi : fs.Linked i) :
    ∃ l, fs.walk ROOTINO (elems (absolute l)) = some i := by
  obtain ⟨f, hf, hn⟩ := hi
  obtain ⟨l, hp⟩ := h.tree.exists_path (Files.nodes_of_some hf) hn
  obtain ⟨hw, hl⟩ := h.walk_of_path hp
  exact ⟨l, by rw [elems_absolute l hl, hw]⟩

end Tidy

end Xv6Projects.Fs
