import Mathlib.Algebra.Order.BigOperators.Group.Finset
import Mathlib.Data.Multiset.Count
import Xv6Projects.Library.Count

/-!
# Trees of names with link counts

A node is a directory or not; a directory has a parent and gives names to nodes, and each node
counts the names and the parents that refer to it.  In a tree each directory but the root has one
name, in its parent, and every node that is counted has a path from the root.  Names can be added
and removed.
-/

namespace Xv6Projects.Library

variable {ι κ : Type*} [DecidableEq ι]

/-- A node with its parent `up`, which matters for directories only. -/
@[ext]
structure Node (ι κ : Type*) where
  isDir : Bool
  up : ι
  kids : Multiset (κ × ι)
  nlink : ℤ

namespace Node

/-- A directory whose names count. -/
def Linked (x : Node ι κ) : Prop := x.isDir = true ∧ 0 < x.nlink

instance (x : Node ι κ) : Decidable x.Linked := inferInstanceAs (Decidable (_ ∧ _))

/-- How often a node refers to `k`. -/
def out (x : Node ι κ) (k : ι) : ℕ :=
  if x.Linked then x.kids.countP (·.2 = k) + if x.up = k then 1 else 0 else 0

lemma out_of_linked {x : Node ι κ} (h : x.Linked) (k : ι) :
    x.out k = x.kids.countP (·.2 = k) + if x.up = k then 1 else 0 := if_pos h

lemma out_of_not_linked {x : Node ι κ} (h : ¬x.Linked) (k : ι) : x.out k = 0 := if_neg h

/-- A name counts. -/
lemma one_le_out {x : Node ι κ} (h : x.Linked) {e : κ × ι} (he : e ∈ x.kids) : 1 ≤ x.out e.2 := by
  rw [out_of_linked h]
  exact Nat.le_add_right_of_le (Multiset.countP_pos.mpr ⟨e, he, rfl⟩)

/-- The parent counts. -/
lemma one_le_out_up {x : Node ι κ} (h : x.Linked) : 1 ≤ x.out x.up := by
  rw [out_of_linked h, if_pos rfl]
  exact Nat.le_add_left ..

end Node

/-- Nodes, some of which are there. -/
abbrev Nodes (ι κ : Type*) := ι → Option (Node ι κ)

/-- How often the nodes of `s` refer to `k`. -/
def links (s : Finset ι) (t : Nodes ι κ) (k : ι) : ℕ := ∑ i ∈ s, (t i).elim 0 (·.out k)

variable {s : Finset ι} {t : Nodes ι κ} {r i j k : ι} {x y : Node ι κ} {a : κ}

lemma out_le_links (hi : i ∈ s) (hx : t i = some x) : x.out k ≤ links s t k := by
  have h := Finset.single_le_sum (f := fun i => (t i).elim 0 (·.out k))
    (fun _ _ => Nat.zero_le _) hi
  simp only [hx, Option.elim_some] at h
  exact h

/-- Two nodes that refer to the same one. -/
lemma two_le_links (hi : i ∈ s) (hj : j ∈ s) (hij : i ≠ j) (hx : t i = some x) (hy : t j = some y)
    (hxk : 1 ≤ x.out k) (hyk : 1 ≤ y.out k) : 2 ≤ links s t k := by
  have h := Finset.add_le_sum (f := fun i => (t i).elim 0 (·.out k)) (fun _ _ => Nat.zero_le _)
    hi hj hij
  simp only [hx, hy, Option.elim_some] at h
  exact le_trans (by omega) h

/-- When two nodes change. -/
lemma links_update (x y : Node ι κ) (hi : i ∈ s) (hj : j ∈ s) (hij : i ≠ j) :
    links s (Function.update (Function.update t i (some x)) j (some y)) k +
        (t i).elim 0 (·.out k) + (t j).elim 0 (·.out k) =
      links s t k + x.out k + y.out k := by
  have h₁ := sum_add_of_eq_off (f := fun m => (Function.update t i (some x) m).elim 0 (·.out k))
    (g := fun m => (t m).elim 0 (·.out k)) hi fun m _ hm => by
      rw [Function.update_of_ne hm]
  have h₂ := sum_add_of_eq_off
    (f := fun m => (Function.update (Function.update t i (some x)) j (some y) m).elim 0 (·.out k))
    (g := fun m => (Function.update t i (some x) m).elim 0 (·.out k)) hj fun m _ hm => by
      rw [Function.update_of_ne hm]
  simp only [Function.update_self, Function.update_of_ne hij.symm, Option.elim_some] at h₁ h₂
  rw [links, links]
  omega

/-- A tree of names. -/
structure NameTree (s : Finset ι) (r : ι) (t : Nodes ι κ) : Prop where
  mem {i : ι} {x : Node ι κ} : t i = some x → i ∈ s
  nonneg {i : ι} {x : Node ι κ} : t i = some x → 0 ≤ x.nlink
  root : ∃ x, t r = some x ∧ x.Linked ∧ x.up = r
  removed {i : ι} {x : Node ι κ} : t i = some x → x.isDir = true → x.nlink = 0 → x.kids = 0
  names {i : ι} {x : Node ι κ} : t i = some x → (x.kids.map Prod.fst).Nodup
  target {i : ι} {x : Node ι κ} {e : κ × ι} : t i = some x → x.Linked → e ∈ x.kids →
    ∃ y, t e.2 = some y
  kid {i : ι} {x y : Node ι κ} {e : κ × ι} : t i = some x → x.Linked → e ∈ x.kids →
    t e.2 = some y → y.isDir = true → y.up = i ∧ e.2 ≠ r ∧ x.kids.countP (·.2 = e.2) = 1
  parent {j : ι} {y : Node ι κ} : t j = some y → y.Linked → j ≠ r →
    ∃ x, t y.up = some x ∧ x.Linked ∧ ∃ e ∈ x.kids, e.2 = j
  count {i : ι} {x : Node ι κ} : t i = some x → x.nlink = links s t i
  depth : ∃ d : ι → ℕ, ∀ i x e y, t i = some x → x.Linked → e ∈ x.kids → t e.2 = some y →
    y.Linked → d i < d e.2

namespace NameTree

/-- Whoever has a name has links. -/
lemma nlink_pos (h : NameTree s r t) (hx : t i = some x) (hl : x.Linked) {e : κ × ι}
    (he : e ∈ x.kids) (hy : t e.2 = some y) : 0 < y.nlink := by
  have h₁ := Node.one_le_out hl he
  have h₂ : x.out e.2 ≤ links s t e.2 := out_le_links (h.mem hx) hx
  have h₃ := h.count hy
  omega

/-- The parent of a directory is a directory. -/
lemma exists_up (h : NameTree s r t) (hy : t j = some y) (hl : y.Linked) :
    ∃ x, t y.up = some x ∧ x.Linked := by
  by_cases hj : j = r
  · obtain ⟨x, hx, hxl, hup⟩ := h.root
    subst hj
    obtain rfl := Option.some.inj (hx.symm.trans hy)
    exact ⟨x, hup.symm ▸ hx, hxl⟩
  · obtain ⟨x, hx, hxl, -⟩ := h.parent hy hl hj
    exact ⟨x, hx, hxl⟩

/-- No directory has itself as a kid. -/
lemma kid_ne (h : NameTree s r t) (hx : t i = some x) (hl : x.Linked) {e : κ × ι}
    (he : e ∈ x.kids) : e.2 ≠ i := by
  intro hei
  obtain ⟨d, hd⟩ := h.depth
  have := hd i x e x hx hl he (hei ▸ hx) hl
  rw [hei] at this
  exact lt_irrefl _ this

/-- A node that is not there has no links. -/
lemma links_eq_zero (h : NameTree s r t) (hj : t j = none) : links s t j = 0 := by
  refine Finset.sum_eq_zero fun i _ => ?_
  cases hx : t i with
  | none => rfl
  | some x =>
    show x.out j = 0
    by_cases hl : x.Linked
    · rw [Node.out_of_linked hl, Nat.add_eq_zero_iff]
      constructor
      · rw [Multiset.countP_eq_zero]
        intro e he hej
        obtain ⟨y, hy⟩ := h.target hx hl he
        rw [hej, hj] at hy
        exact absurd hy (by simp)
      · refine if_neg fun hup => ?_
        obtain ⟨y, hy, -⟩ := h.exists_up hx hl
        rw [hup, hj] at hy
        exact absurd hy (by simp)
    · exact Node.out_of_not_linked hl j

lemma links_of_unlinked (h : NameTree s r t) (hj : ∀ y, t j = some y → y.nlink = 0) :
    links s t j = 0 := by
  cases hy : t j with
  | none => exact h.links_eq_zero hy
  | some y =>
    have := h.count hy
    have := hj y hy
    omega

/-- No node refers to one without links. -/
lemma ne_of_unlinked (h : NameTree s r t) (hj : ∀ y, t j = some y → y.nlink = 0)
    (hx : t i = some x) (hl : x.Linked) : x.up ≠ j ∧ ∀ e ∈ x.kids, e.2 ≠ j := by
  have hzero := h.links_of_unlinked hj
  have hle : x.out j ≤ links s t j := out_le_links (h.mem hx) hx
  constructor
  · rintro rfl
    have := Node.one_le_out_up hl
    omega
  · rintro e he rfl
    have := Node.one_le_out hl he
    omega

/-! ### Nodes without links come and go -/

/-- A node to which nothing refers is added or removed. -/
lemma update_of_unlinked (h : NameTree s r t) {x' : Option (Node ι κ)} (hi : i ∈ s)
    (hold : ∀ x, t i = some x → x.nlink = 0) (hnew : ∀ x, x' = some x → x.nlink = 0 ∧ x.kids = 0) :
    NameTree s r (Function.update t i x') := by
  have hne : ∀ m z, t m = some z → z.Linked → z.up ≠ i ∧ ∀ e ∈ z.kids, e.2 ≠ i :=
    fun m z hz hl => h.ne_of_unlinked hold hz hl
  have hof : ∀ m, m ≠ i → Function.update t i x' m = t m := fun m hm => Function.update_of_ne hm ..
  have hself : Function.update t i x' i = x' := Function.update_self ..
  -- the directories that count are as before
  have hlinked : ∀ m z, Function.update t i x' m = some z → z.Linked → m ≠ i ∧ t m = some z := by
    intro m z hz hl
    by_cases hm : m = i
    · rw [hm, hself] at hz
      exact absurd hl.2 (by rw [(hnew z hz).1]; exact lt_irrefl 0)
    · exact ⟨hm, (hof m hm).symm.trans hz⟩
  have hlinks : ∀ k, links s (Function.update t i x') k = links s t k := by
    refine fun k => Finset.sum_congr rfl fun m _ => ?_
    by_cases hm : m = i
    · have hout : ∀ z : Option (Node ι κ), (∀ y, z = some y → y.nlink = 0) →
          z.elim 0 (·.out k) = 0 := by
        intro z hz
        cases z with
        | none => rfl
        | some y =>
          refine Node.out_of_not_linked (fun hl => ?_) k
          exact absurd hl.2 (by rw [hz y rfl]; exact lt_irrefl 0)
      rw [hm, hself, hout _ hold, hout _ fun y hy => (hnew y hy).1]
    · rw [hof m hm]
  obtain ⟨d, hd⟩ := h.depth
  constructor
  · intro m z hz
    by_cases hm : m = i
    · exact hm ▸ hi
    · exact h.mem ((hof m hm).symm.trans hz)
  · intro m z hz
    by_cases hm : m = i
    · rw [hm, hself] at hz
      exact (hnew z hz).1.ge
    · exact h.nonneg ((hof m hm).symm.trans hz)
  · obtain ⟨x, hx, hl, hup⟩ := h.root
    have hr : r ≠ i := fun hri => (hne r x hx hl).1 (hup.trans hri)
    exact ⟨x, (hof r hr).trans hx, hl, hup⟩
  · intro m z hz hdir hn
    by_cases hm : m = i
    · rw [hm, hself] at hz
      exact (hnew z hz).2
    · exact h.removed ((hof m hm).symm.trans hz) hdir hn
  · intro m z hz
    by_cases hm : m = i
    · rw [hm, hself] at hz
      rw [(hnew z hz).2]
      exact Multiset.nodup_zero
    · exact h.names ((hof m hm).symm.trans hz)
  · intro m z e hz hl he
    obtain ⟨-, hz⟩ := hlinked m z hz hl
    obtain ⟨y, hy⟩ := h.target hz hl he
    exact ⟨y, (hof e.2 ((hne m z hz hl).2 e he)).trans hy⟩
  · intro m z y e hz hl he hy hdir
    obtain ⟨-, hz⟩ := hlinked m z hz hl
    exact h.kid hz hl he ((hof e.2 ((hne m z hz hl).2 e he)).symm.trans hy) hdir
  · intro m z hz hl hm
    obtain ⟨-, hz⟩ := hlinked m z hz hl
    obtain ⟨x, hx, hxl, hkid⟩ := h.parent hz hl hm
    exact ⟨x, (hof z.up (hne m z hz hl).1).trans hx, hxl, hkid⟩
  · intro m z hz
    rw [hlinks]
    by_cases hm : m = i
    · rw [hm, hself] at hz
      rw [hm, h.links_of_unlinked hold, (hnew z hz).1]
      rfl
    · exact h.count ((hof m hm).symm.trans hz)
  · refine ⟨d, fun m z e y hz hl he hy hyl => ?_⟩
    exact hd m z e y (hlinked m z hz hl).2 hl he (hlinked e.2 y hy hyl).2 hyl

/-- A root without names. -/
lemma single (hr : r ∈ s) (hroot : t r = some ⟨true, r, 0, 1⟩)
    (hoff : ∀ i, i ≠ r → t i = none) : NameTree s r t := by
  have hcases : ∀ i x, t i = some x → i = r ∧ x = ⟨true, r, 0, 1⟩ := by
    intro i x hx
    by_cases hi : i = r
    · subst hi
      exact ⟨rfl, Option.some.inj (hx.symm.trans hroot)⟩
    · exact absurd ((hoff i hi).symm.trans hx) (by simp)
  have hlinked : (⟨true, r, 0, 1⟩ : Node ι κ).Linked := ⟨rfl, Int.one_pos⟩
  have hno : ∀ i x (e : κ × ι), t i = some x → e ∉ x.kids := by
    intro i x e hx
    rw [(hcases i x hx).2]
    exact Multiset.notMem_zero e
  constructor
  · intro i x hx
    rw [(hcases i x hx).1]
    exact hr
  · intro i x hx
    rw [(hcases i x hx).2]
    exact Int.one_nonneg
  · exact ⟨_, hroot, hlinked, rfl⟩
  · intro i x hx _ hn
    rw [(hcases i x hx).2] at hn
    exact absurd hn (by simp)
  · intro i x hx
    rw [(hcases i x hx).2]
    exact Multiset.nodup_zero
  · exact fun hx _ he => absurd he (hno _ _ _ hx)
  · exact fun hx _ he => absurd he (hno _ _ _ hx)
  · exact fun hx _ hne => absurd (hcases _ _ hx).1 hne
  · intro i x hx
    obtain ⟨rfl, rfl⟩ := hcases i x hx
    rw [links, Finset.sum_eq_single i]
    · rw [hx, Option.elim_some, Node.out_of_linked hlinked]
      simp
    · intro j _ hj
      rw [hoff j hj]
      rfl
    · exact fun hi => absurd hr hi
  · exact ⟨fun _ => 0, fun i x e y hx _ he => absurd he (hno i x e hx)⟩

end NameTree

/-! ### Names come and go -/

/-- A directory with one more name.  It also counts one more when the name is that of a directory,
whose parent it is. -/
def Node.name (x : Node ι κ) (a : κ) (j : ι) (d : Bool) : Node ι κ :=
  { x with kids := (a, j) ::ₘ x.kids, nlink := x.nlink + if d then 1 else 0 }

/-- A node with one more link. -/
def Node.ref (y : Node ι κ) : Node ι κ := { y with nlink := y.nlink + 1 }

/-- In `t'` the directory `i` has one more name than in `t`, which is that of `j`. -/
structure Named (t t' : Nodes ι κ) (i j : ι) (a : κ) (x y : Node ι κ) : Prop where
  fst : t i = some x
  snd : t j = some y
  linked : x.Linked
  nonneg : 0 ≤ y.nlink
  dir : y.isDir = true → y.nlink = 0 ∧ y.up = i ∧ y.kids = 0
  fst' : t' i = some (x.name a j y.isDir)
  snd' : t' j = some y.ref
  off {m : ι} : m ≠ i → m ≠ j → t' m = t m

namespace Named

variable {t' : Nodes ι κ}

omit [DecidableEq ι] in
lemma ne (h : Named t t' i j a x y) : i ≠ j := by
  rintro rfl
  obtain rfl := Option.some.inj (h.fst.symm.trans h.snd)
  have hpos := h.linked.2
  have hzero := (h.dir h.linked.1).1
  omega

omit [DecidableEq ι] in
lemma linked_name (h : Named t t' i j a x y) : (x.name a j y.isDir).Linked := by
  refine ⟨h.linked.1, ?_⟩
  have hpos := h.linked.2
  show 0 < x.nlink + if y.isDir then 1 else 0
  split_ifs <;> omega

omit [DecidableEq ι] in
lemma not_linked (h : Named t t' i j a x y) : ¬y.Linked := fun hl => by
  have hpos := hl.2
  have hzero := (h.dir hl.1).1
  omega

/-- A node is one of the two, or as before. -/
lemma cases (h : Named t t' i j a x y) (m : ι) :
    (m = i ∧ t m = some x ∧ t' m = some (x.name a j y.isDir)) ∨
      (m = j ∧ t m = some y ∧ t' m = some y.ref) ∨ (m ≠ i ∧ m ≠ j ∧ t' m = t m) := by
  by_cases hmi : m = i
  · subst hmi
    exact Or.inl ⟨rfl, h.fst, h.fst'⟩
  · by_cases hmj : m = j
    · subst hmj
      exact Or.inr (Or.inl ⟨rfl, h.snd, h.snd'⟩)
    · exact Or.inr (Or.inr ⟨hmi, hmj, h.off hmi hmj⟩)

/-- Kinds and parents stay. -/
lemma same (h : Named t t' i j a x y) (m : ι) :
    (∀ z', t' m = some z' → ∃ z, t m = some z ∧ z.up = z'.up ∧ z.isDir = z'.isDir) ∧
      ∀ z, t m = some z → ∃ z', t' m = some z' ∧ z'.up = z.up ∧ z'.isDir = z.isDir := by
  obtain ⟨-, hm, hm'⟩ | ⟨-, hm, hm'⟩ | ⟨-, -, hm⟩ := h.cases m
  · rw [hm, hm']
    exact ⟨fun z' hz => ⟨x, rfl, Option.some.inj hz ▸ ⟨rfl, rfl⟩⟩,
      fun z hz => ⟨_, rfl, Option.some.inj hz ▸ ⟨rfl, rfl⟩⟩⟩
  · rw [hm, hm']
    exact ⟨fun z' hz => ⟨y, rfl, Option.some.inj hz ▸ ⟨rfl, rfl⟩⟩,
      fun z hz => ⟨_, rfl, Option.some.inj hz ▸ ⟨rfl, rfl⟩⟩⟩
  · rw [hm]
    exact ⟨fun z' hz => ⟨z', hz, rfl, rfl⟩, fun z hz => ⟨z, hz, rfl, rfl⟩⟩

/-- Directories that count still do, with the names they had. -/
lemma forth (h : Named t t' i j a x y) {m : ι} {z : Node ι κ} (hz : t m = some z)
    (hl : z.Linked) :
    ∃ z', t' m = some z' ∧ z'.Linked ∧ z'.up = z.up ∧ ∀ e ∈ z.kids, e ∈ z'.kids := by
  obtain ⟨-, hm, hm'⟩ | ⟨-, hm, hm'⟩ | ⟨-, -, hm⟩ := h.cases m
  · obtain rfl := Option.some.inj (hm.symm.trans hz)
    exact ⟨_, hm', h.linked_name, rfl, fun e he => Multiset.mem_cons_of_mem he⟩
  · obtain rfl := Option.some.inj (hm.symm.trans hz)
    exact absurd hl h.not_linked
  · exact ⟨z, hm.trans hz, hl, rfl, fun e he => he⟩

/-- Names were there before, but for the new one. -/
lemma back (h : Named t t' i j a x y) {m : ι} {z' : Node ι κ} (hz : t' m = some z')
    (hl : z'.Linked) : (m = j ∧ z'.up = i ∧ z'.kids = 0) ∨
    ∃ z, t m = some z ∧ z.Linked ∧ z.up = z'.up ∧
      ∀ e ∈ z'.kids, e ∈ z.kids ∨ m = i ∧ e = (a, j) := by
  obtain ⟨hmi, hm, hm'⟩ | ⟨hmj, -, hm'⟩ | ⟨-, -, hm⟩ := h.cases m
  · obtain rfl := Option.some.inj (hm'.symm.trans hz)
    exact Or.inr ⟨x, hm, h.linked, rfl, fun e he =>
      (Multiset.mem_cons.mp he).symm.imp_right fun he => ⟨hmi, he⟩⟩
  · obtain rfl := Option.some.inj (hm'.symm.trans hz)
    exact Or.inl ⟨hmj, (h.dir hl.1).2⟩
  · exact Or.inr ⟨z', hm.symm.trans hz, hl, rfl, fun e he => Or.inl he⟩

/-- The new name counts, and so does the parent of a directory that gets it. -/
lemma links_eq (h : Named t t' i j a x y) (hi : i ∈ s) (hj : j ∈ s) (k : ι) :
    links s t' k = links s t k + (if j = k then 1 else 0) +
      if y.isDir = true ∧ i = k then 1 else 0 := by
  have ht' : t' = Function.update (Function.update t i (some (x.name a j y.isDir))) j
      (some y.ref) := by
    funext m
    obtain ⟨rfl, -, hm'⟩ | ⟨rfl, -, hm'⟩ | ⟨hmi, hmj, hm⟩ := h.cases m
    · rw [Function.update_of_ne h.ne, Function.update_self, hm']
    · rw [Function.update_self, hm']
    · rw [Function.update_of_ne hmj, Function.update_of_ne hmi, hm]
  have hsum := links_update (t := t) (k := k) (x.name a j y.isDir) y.ref hi hj h.ne
  rw [← ht', h.fst, h.snd] at hsum
  simp only [Option.elim_some] at hsum
  have hx : (x.name a j y.isDir).out k = x.out k + if j = k then 1 else 0 := by
    rw [Node.out_of_linked h.linked_name, Node.out_of_linked h.linked]
    show ((a, j) ::ₘ x.kids).countP (·.2 = k) + _ = _
    rw [Multiset.countP_cons, Nat.add_right_comm]
    rfl
  have hy : y.ref.out k = y.out k + if y.isDir = true ∧ i = k then 1 else 0 := by
    have hzero : y.out k = 0 := Node.out_of_not_linked h.not_linked k
    rw [hzero, Nat.zero_add]
    by_cases hd : y.isDir = true
    · obtain ⟨hn, hup, hk⟩ := h.dir hd
      have hl : y.ref.Linked := by
        refine ⟨hd, ?_⟩
        show 0 < y.nlink + 1
        omega
      rw [Node.out_of_linked hl]
      show y.kids.countP (·.2 = k) + (if y.up = k then 1 else 0) = _
      simp [hk, hup, hd]
    · have hl : ¬y.ref.Linked := fun hl => hd hl.1
      rw [Node.out_of_not_linked hl]
      simp [hd]
  omega

end Named

namespace NameTree

variable {t' : Nodes ι κ}

/-- **A name is added.** -/
theorem link (h : NameTree s r t) (hn : Named t t' i j a x y) (ha : a ∉ x.kids.map Prod.fst) :
    NameTree s r t' := by
  -- a directory that gets a name had none
  have hfresh : ∀ m z e w, t m = some z → z.Linked → e ∈ z.kids → t e.2 = some w →
      w.isDir = true → e.2 ≠ j := by
    rintro m z e w hz hl he hw hd rfl
    obtain rfl := Option.some.inj (hn.snd.symm.trans hw)
    have hpos := h.nlink_pos hz hl he hw
    have hzero := (hn.dir hd).1
    omega
  have hlinks := hn.links_eq (h.mem hn.fst) (h.mem hn.snd)
  obtain ⟨d, hd⟩ := h.depth
  constructor
  · intro m z hz
    obtain ⟨z₀, hz₀, -⟩ := (hn.same m).1 z hz
    exact h.mem hz₀
  · intro m z hz
    obtain ⟨-, hm, hm'⟩ | ⟨-, hm, hm'⟩ | ⟨-, -, hm⟩ := hn.cases m
    · obtain rfl := Option.some.inj (hm'.symm.trans hz)
      exact hn.linked_name.2.le
    · obtain rfl := Option.some.inj (hm'.symm.trans hz)
      exact hn.nonneg.trans (Int.le_add_one le_rfl)
    · exact h.nonneg (hm.symm.trans hz)
  · obtain ⟨z, hz, hl, hup⟩ := h.root
    obtain ⟨z', hz', hl', hup', -⟩ := hn.forth hz hl
    exact ⟨z', hz', hl', hup'.trans hup⟩
  · intro m z hz hdir hzero
    obtain ⟨-, hm, hm'⟩ | ⟨-, hm, hm'⟩ | ⟨-, -, hm⟩ := hn.cases m
    · obtain rfl := Option.some.inj (hm'.symm.trans hz)
      exact absurd hzero hn.linked_name.2.ne'
    · obtain rfl := Option.some.inj (hm'.symm.trans hz)
      have := hn.nonneg
      have : y.nlink + 1 = 0 := hzero
      omega
    · exact h.removed (hm.symm.trans hz) hdir hzero
  · intro m z hz
    obtain ⟨-, hm, hm'⟩ | ⟨-, hm, hm'⟩ | ⟨-, -, hm⟩ := hn.cases m
    · obtain rfl := Option.some.inj (hm'.symm.trans hz)
      show (((a, j) ::ₘ x.kids).map Prod.fst).Nodup
      rw [Multiset.map_cons]
      exact Multiset.nodup_cons.mpr ⟨ha, h.names hm⟩
    · obtain rfl := Option.some.inj (hm'.symm.trans hz)
      show (y.kids.map Prod.fst).Nodup
      exact h.names hm
    · exact h.names (hm.symm.trans hz)
  · intro m z e hz hl he
    obtain ⟨-, -, hk⟩ | ⟨z₀, hz₀, hl₀, -, hk⟩ := hn.back hz hl
    · rw [hk] at he
      exact absurd he (Multiset.notMem_zero e)
    · obtain he | ⟨-, rfl⟩ := hk e he
      · obtain ⟨w, hw⟩ := h.target hz₀ hl₀ he
        obtain ⟨w', hw', -⟩ := (hn.same e.2).2 w hw
        exact ⟨w', hw'⟩
      · exact ⟨_, hn.snd'⟩
  · intro m z w e hz hl he hw hdir
    obtain ⟨w₀, hw₀, hup, hdir₀⟩ := (hn.same e.2).1 w hw
    rw [← hup]
    rw [← hdir₀] at hdir
    obtain ⟨rfl, hm, hm'⟩ | ⟨rfl, hm, hm'⟩ | ⟨hmi, -, hm⟩ := hn.cases m
    · obtain rfl := Option.some.inj (hm'.symm.trans hz)
      show _ ∧ _ ∧ ((a, j) ::ₘ x.kids).countP (·.2 = e.2) = 1
      rw [Multiset.countP_cons]
      obtain rfl | he := Multiset.mem_cons.mp he
      · -- the new name
        obtain rfl := Option.some.inj (hn.snd.symm.trans hw₀)
        have hnone : x.kids.countP (·.2 = j) = 0 := Multiset.countP_eq_zero.mpr fun e he hej =>
          hfresh m x e y hm hn.linked he (by rw [hej]; exact hw₀) hdir hej
        refine ⟨(hn.dir hdir).2.1, ?_, by rw [if_pos rfl, hnone]⟩
        rintro rfl
        obtain ⟨z, hz, hl, -⟩ := h.root
        exact hn.not_linked (Option.some.inj (hw₀.symm.trans hz) ▸ hl)
      · obtain ⟨hup₀, hr, hcount⟩ := h.kid hm hn.linked he hw₀ hdir
        have hne := hfresh m x e w₀ hm hn.linked he hw₀ hdir
        exact ⟨hup₀, hr, by rw [hcount, if_neg hne.symm]⟩
    · obtain rfl := Option.some.inj (hm'.symm.trans hz)
      rw [show y.ref.kids = 0 from (hn.dir hl.1).2.2] at he
      exact absurd he (Multiset.notMem_zero e)
    · exact h.kid (hm.symm.trans hz) hl he hw₀ hdir
  · intro c z hz hl hc
    obtain ⟨rfl, hup, -⟩ | ⟨z₀, hz₀, hl₀, hup, -⟩ := hn.back hz hl
    · exact ⟨_, hup.symm ▸ hn.fst', hn.linked_name, (a, c), Multiset.mem_cons_self .., rfl⟩
    · obtain ⟨p, hp, hpl, e, he, hec⟩ := h.parent hz₀ hl₀ hc
      obtain ⟨p', hp', hpl', -, hk⟩ := hn.forth hp hpl
      exact ⟨p', hup ▸ hp', hpl', e, hk e he, hec⟩
  · intro m z hz
    rw [hlinks]
    obtain ⟨rfl, hm, hm'⟩ | ⟨rfl, hm, hm'⟩ | ⟨hmi, hmj, hm⟩ := hn.cases m
    · obtain rfl := Option.some.inj (hm'.symm.trans hz)
      have := h.count hm
      show x.nlink + (if y.isDir then 1 else 0) = _
      rw [if_neg hn.ne.symm]
      split_ifs <;> simp_all
    · obtain rfl := Option.some.inj (hm'.symm.trans hz)
      have := h.count hm
      show y.nlink + 1 = _
      rw [if_pos rfl, if_neg fun hc => hn.ne hc.2]
      omega
    · rw [if_neg (Ne.symm hmj), if_neg fun hc => hmi hc.2.symm]
      exact h.count (hm.symm.trans hz)
  · refine ⟨Function.update d j (d i + 1), fun m z e w hz hl he hw hwl => ?_⟩
    obtain ⟨-, -, hk⟩ | ⟨z₀, hz₀, hl₀, -, hk⟩ := hn.back hz hl
    · rw [hk] at he
      exact absurd he (Multiset.notMem_zero e)
    · have hmj : m ≠ j := by
        rintro rfl
        exact hn.not_linked (Option.some.inj (hn.snd.symm.trans hz₀) ▸ hl₀)
      rw [Function.update_of_ne hmj]
      obtain he | ⟨rfl, rfl⟩ := hk e he
      · obtain ⟨hej, -, -⟩ | ⟨w₀, hw₀, hwl₀, -⟩ := hn.back hw hwl
        · obtain ⟨w₀, hw₀, -, hdir₀⟩ := (hn.same e.2).1 w hw
          exact absurd hej (hfresh m z₀ e w₀ hz₀ hl₀ he hw₀ (hdir₀.trans hwl.1))
        · rw [Function.update_of_ne (hfresh m z₀ e w₀ hz₀ hl₀ he hw₀ hwl₀.1)]
          exact hd m z₀ e w₀ hz₀ hl₀ he hw₀ hwl₀
      · rw [Function.update_self]
        exact Nat.lt_succ_self _

/-- **A name is removed.** -/
theorem unlink (h : NameTree s r t') (hn : Named t t' i j a x y) : NameTree s r t := by
  have hlinks := hn.links_eq (h.mem hn.fst') (h.mem hn.snd')
  obtain ⟨d, hd⟩ := h.depth
  constructor
  · intro m z hz
    obtain ⟨z', hz', -⟩ := (hn.same m).2 z hz
    exact h.mem hz'
  · intro m z hz
    obtain ⟨-, hm, -⟩ | ⟨-, hm, -⟩ | ⟨-, -, hm⟩ := hn.cases m
    · obtain rfl := Option.some.inj (hm.symm.trans hz)
      exact hn.linked.2.le
    · obtain rfl := Option.some.inj (hm.symm.trans hz)
      exact hn.nonneg
    · exact h.nonneg (hm.trans hz)
  · obtain ⟨z', hz', hl', hup'⟩ := h.root
    obtain ⟨hr, hup, -⟩ | ⟨z, hz, hl, hup, -⟩ := hn.back hz' hl'
    · exact absurd (hup.symm.trans (hup'.trans hr)) hn.ne
    · exact ⟨z, hz, hl, hup.trans hup'⟩
  · intro m z hz hdir hzero
    obtain ⟨-, hm, -⟩ | ⟨-, hm, -⟩ | ⟨-, -, hm⟩ := hn.cases m
    · obtain rfl := Option.some.inj (hm.symm.trans hz)
      exact absurd hzero hn.linked.2.ne'
    · obtain rfl := Option.some.inj (hm.symm.trans hz)
      exact (hn.dir hdir).2.2
    · exact h.removed (hm.trans hz) hdir hzero
  · intro m z hz
    obtain ⟨-, hm, hm'⟩ | ⟨-, hm, hm'⟩ | ⟨-, -, hm⟩ := hn.cases m
    · obtain rfl := Option.some.inj (hm.symm.trans hz)
      have hnames : (((a, j) ::ₘ x.kids).map Prod.fst).Nodup := h.names hm'
      rw [Multiset.map_cons] at hnames
      exact (Multiset.nodup_cons.mp hnames).2
    · obtain rfl := Option.some.inj (hm.symm.trans hz)
      have hnames := h.names hm'
      exact hnames
    · exact h.names (hm.trans hz)
  · intro m z e hz hl he
    obtain ⟨z', hz', hl', -, hk⟩ := hn.forth hz hl
    obtain ⟨w', hw'⟩ := h.target hz' hl' (hk e he)
    obtain ⟨w, hw, -⟩ := (hn.same e.2).1 w' hw'
    exact ⟨w, hw⟩
  · intro m z w e hz hl he hw hdir
    obtain ⟨w', hw', hup, hdir'⟩ := (hn.same e.2).2 w hw
    rw [← hdir'] at hdir
    rw [← hup]
    have hpos : 0 < z.kids.countP (·.2 = e.2) := Multiset.countP_pos.mpr ⟨e, he, rfl⟩
    obtain ⟨rfl, hm, hm'⟩ | ⟨rfl, hm, hm'⟩ | ⟨hmi, -, hm⟩ := hn.cases m
    · obtain rfl := Option.some.inj (hm.symm.trans hz)
      obtain ⟨hup', hr, hcount⟩ := h.kid hm' hn.linked_name (Multiset.mem_cons_of_mem he) hw' hdir
      refine ⟨hup', hr, ?_⟩
      have hcount : ((a, j) ::ₘ x.kids).countP (·.2 = e.2) = 1 := hcount
      rw [Multiset.countP_cons] at hcount
      omega
    · obtain rfl := Option.some.inj (hm.symm.trans hz)
      exact absurd hl hn.not_linked
    · exact h.kid (hm.trans hz) hl he hw' hdir
  · intro c z hz hl hc
    obtain ⟨z', hz', hl', hup, -⟩ := hn.forth hz hl
    obtain ⟨p', hp', hpl', e, he, hec⟩ := h.parent hz' hl' hc
    rw [hup] at hp'
    obtain ⟨-, -, hk⟩ | ⟨p, hp, hpl, -, hk⟩ := hn.back hp' hpl'
    · rw [hk] at he
      exact absurd he (Multiset.notMem_zero e)
    · refine ⟨p, hp, hpl, e, (hk e he).resolve_right ?_, hec⟩
      rintro ⟨-, rfl⟩
      obtain rfl : j = c := hec
      exact hn.not_linked (Option.some.inj (hn.snd.symm.trans hz) ▸ hl)
  · intro m z hz
    have hm' := hlinks m
    obtain ⟨rfl, hm, hc⟩ | ⟨rfl, hm, hc⟩ | ⟨hmi, hmj, hm⟩ := hn.cases m
    · obtain rfl := Option.some.inj (hm.symm.trans hz)
      have hcount : x.nlink + (if y.isDir then 1 else 0) = _ := h.count hc
      rw [hm', if_neg hn.ne.symm] at hcount
      split_ifs at hcount <;> simp_all
    · obtain rfl := Option.some.inj (hm.symm.trans hz)
      have hcount : y.nlink + 1 = _ := h.count hc
      rw [hm', if_pos rfl, if_neg fun hc => hn.ne hc.2] at hcount
      omega
    · have hcount := h.count (hm.trans hz)
      rwa [hm', if_neg (Ne.symm hmj), if_neg fun hc => hmi hc.2.symm] at hcount
  · refine ⟨d, fun m z e w hz hl he hw hwl => ?_⟩
    obtain ⟨z', hz', hl', -, hk⟩ := hn.forth hz hl
    obtain ⟨w', hw', hwl', -⟩ := hn.forth hw hwl
    exact hd m z' e w' hz' hl' (hk e he) hw' hwl'

/-- A directory without names has one link, which is its name in its parent. -/
lemma nlink_of_empty (h : NameTree s r t) (hx : t i = some x) (hl : x.Linked) {e : κ × ι}
    (he : e ∈ x.kids) (hy : t e.2 = some y) (hd : y.isDir = true) (hk : y.kids = 0) :
    y.nlink = 1 ∧ y.up = i ∧ 2 ≤ x.nlink := by
  obtain ⟨hup, hr, hcount⟩ := h.kid hx hl he hy hd
  have hyl : y.Linked := ⟨hd, h.nlink_pos hx hl he hy⟩
  -- it is nobody's parent
  have hnup : ∀ m z, t m = some z → z.Linked → z.up ≠ e.2 := by
    intro m z hz hzl hze
    by_cases hm : m = r
    · obtain ⟨w, hw, -, hwup⟩ := h.root
      subst hm
      obtain rfl := Option.some.inj (hz.symm.trans hw)
      exact hr (hze.symm.trans hwup)
    · obtain ⟨p, hp, -, e', he', -⟩ := h.parent hz hzl hm
      rw [hze] at hp
      obtain rfl := Option.some.inj (hy.symm.trans hp)
      rw [hk] at he'
      exact absurd he' (Multiset.notMem_zero e')
  refine ⟨?_, hup, ?_⟩
  · have hone : links s t e.2 = x.out e.2 := by
      have hsum := Finset.sum_eq_single (f := fun m => (t m).elim 0 (·.out e.2)) (s := s) i
        (fun m _ hmi => ?_) fun hi => absurd (h.mem hx) hi
      · rw [links, hsum, hx]
        rfl
      · cases hz : t m with
        | none => rfl
        | some z =>
          by_cases hzl : z.Linked
          · show z.out e.2 = 0
            rw [Node.out_of_linked hzl, if_neg (hnup m z hz hzl), Nat.add_zero,
              Multiset.countP_eq_zero]
            intro e' he' hee
            rw [← hee] at hy
            exact hmi ((h.kid hz hzl he' hy hd).1.symm.trans hup)
          · exact Node.out_of_not_linked hzl _
    rw [h.count hy, hone, Node.out_of_linked hl, hcount, if_neg (hnup i x hx hl)]
    rfl
  · have hyout : 1 ≤ y.out i := hup ▸ Node.one_le_out_up hyl
    have htwo : 2 ≤ links s t i := by
      by_cases hi : i = r
      · obtain ⟨w, hw, -, hwup⟩ := h.root
        have hxout : 1 ≤ x.out i := by
          rw [hi] at hx
          obtain rfl := Option.some.inj (hx.symm.trans hw)
          rw [hi, ← hwup]
          exact hwup.symm ▸ Node.one_le_out_up hl
        exact two_le_links (h.mem hx) (h.mem hy) (h.kid_ne hx hl he).symm hx hy hxout hyout
      · obtain ⟨p, hp, hpl, e', he', hei⟩ := h.parent hx hl hi
        have hpout : 1 ≤ p.out i := hei ▸ Node.one_le_out hpl he'
        exact two_le_links (h.mem hp) (h.mem hy) (hnup i x hx hl) hp hy hpout hyout
    rw [h.count hx]
    exact_mod_cast htwo

/-! ### Paths -/

/-- The node at the end of a path of names. -/
inductive Path (t : Nodes ι κ) (r : ι) : List κ → ι → Prop
  | nil : Path t r [] r
  | snoc {l : List κ} {i : ι} {x : Node ι κ} {e : κ × ι} : Path t r l i → t i = some x →
      x.Linked → e ∈ x.kids → Path t r (l ++ [e.1]) e.2

/-- **Every node with links has a path from the root.** -/
theorem exists_path (h : NameTree s r t) (hx : t i = some x) (hn : 0 < x.nlink) :
    ∃ l, Path t r l i := by
  obtain ⟨d, hd⟩ := h.depth
  -- first the directories, by their depth
  have hdir : ∀ n i x, d i = n → t i = some x → x.Linked → ∃ l, Path t r l i := by
    intro n
    induction n using Nat.strong_induction_on with
    | _ n ih =>
    intro i x hdi hx hl
    by_cases hi : i = r
    · exact ⟨[], hi ▸ .nil⟩
    · obtain ⟨p, hp, hpl, e, he, hei⟩ := h.parent hx hl hi
      have hlt := hd x.up p e x hp hpl he (by rw [hei]; exact hx) hl
      rw [hei, hdi] at hlt
      obtain ⟨l, hpath⟩ := ih (d x.up) hlt x.up p rfl hp hpl
      exact ⟨l ++ [e.1], hei ▸ .snoc hpath hp hpl he⟩
  by_cases hd : x.isDir = true
  · exact hdir (d i) i x rfl hx ⟨hd, hn⟩
  · have hpos : 0 < links s t i := by
      have := h.count hx
      omega
    obtain ⟨m, -, hm⟩ := Finset.exists_ne_zero_of_sum_ne_zero hpos.ne'
    cases hz : t m with
    | none => exact absurd (by rw [hz]; rfl) hm
    | some z =>
      rw [hz] at hm
      have hzl : z.Linked := by
        by_contra hzl
        exact hm (Node.out_of_not_linked hzl i)
      have hup : z.up ≠ i := by
        intro hup
        obtain ⟨p, hp, hpl⟩ := h.exists_up hz hzl
        rw [hup, hx] at hp
        exact hd (Option.some.inj hp ▸ hpl.1)
      have hcount : 0 < z.kids.countP (·.2 = i) := by
        have hout : z.out i ≠ 0 := hm
        rw [Node.out_of_linked hzl, if_neg hup] at hout
        omega
      obtain ⟨e, he, hei⟩ := Multiset.countP_pos.mp hcount
      obtain ⟨l, hpath⟩ := hdir (d m) m z rfl hz hzl
      exact ⟨l ++ [e.1], hei ▸ .snoc hpath hz hzl he⟩

end NameTree

end Xv6Projects.Library
