import Mathlib.Data.List.TakeWhile
import Xv6Projects.Fs.Directory

/-!
# Paths

`skipelem` takes the first element off a path.  Applied again and again it splits the path at its
slashes: slashes at the beginning, at the end and next to each other do not matter, and a long
element is cut.
-/

namespace Xv6Projects.Fs

/-- The character `/`. -/
def slash : UInt8 := 47

/-- The name of a directory in itself. -/
def dot : List UInt8 := [46]

/-- The name of the parent in a directory. -/
def dotdot : List UInt8 := [46, 46]

/-- Skip slashes. -/
def skip (path : List UInt8) : List UInt8 := path.dropWhile fun c => c == slash

/-- A character of an element. -/
def inElem (c : UInt8) : Bool := c != slash && c != 0

/-- Copy the next path element from `path`: the element, and the path that follows it. -/
def skipelem (path : List UInt8) : Option (List UInt8 × List UInt8) :=
  if (skip path).headD 0 = 0 then none
  else some (((skip path).takeWhile inElem).take DIRSIZ, skip ((skip path).dropWhile inElem))

lemma skip_slash (s : List UInt8) : skip (slash :: s) = skip s :=
  List.dropWhile_cons_of_pos (beq_self_eq_true slash)

lemma skip_of_ne {c : UInt8} (hc : c ≠ slash) (s : List UInt8) : skip (c :: s) = c :: s :=
  List.dropWhile_cons_of_neg (by simpa using hc)

lemma skip_skip (s : List UInt8) : skip (skip s) = skip s := by
  induction s with
  | nil => rfl
  | cons c s ih =>
    by_cases hc : c = slash
    · rw [hc, skip_slash, ih]
    · rw [skip_of_ne hc, skip_of_ne hc]

lemma length_skip_le (path : List UInt8) : (skip path).length ≤ path.length :=
  List.length_dropWhile_le ..

/-- The next element begins a path that does not begin with a slash. -/
lemma skip_cons {path : List UInt8} (h : (skip path).headD 0 ≠ 0) :
    ∃ c s, skip path = c :: s ∧ inElem c = true := by
  cases hs : skip path with
  | nil => exact absurd (by rw [hs]; rfl) h
  | cons c s =>
    have hne : c ≠ 0 := by rwa [hs] at h
    have hc : (c == slash) = false := by
      have := List.head?_dropWhile_not (fun c => c == slash) path
      rw [skip] at hs
      rwa [hs, List.head?_cons] at this
    exact ⟨c, s, rfl, by simp [inElem, hne, bne, hc]⟩

lemma length_of_skipelem {path name rest : List UInt8} (h : skipelem path = some (name, rest)) :
    rest.length < path.length := by
  rw [skipelem] at h
  split_ifs at h with hz
  obtain ⟨-, rfl⟩ := Prod.mk.inj (Option.some.inj h)
  obtain ⟨c, s, hs, hc⟩ := skip_cons hz
  have hle := length_skip_le path
  have hrest := length_skip_le (s.dropWhile inElem)
  have hs' : (s.dropWhile inElem).length ≤ s.length := List.length_dropWhile_le ..
  rw [hs, List.length_cons] at hle
  rw [hs, List.dropWhile_cons_of_pos hc]
  omega

/-- The elements of a path. -/
def elems (path : List UInt8) : List (List UInt8) :=
  match _h : skipelem path with
  | none => []
  | some (name, rest) => name :: elems rest
termination_by path.length
decreasing_by exact length_of_skipelem _h

lemma elems_of_none {path : List UInt8} (h : skipelem path = none) : elems path = [] := by
  rw [elems]
  split
  · rfl
  · next h' => exact absurd (h.symm.trans h') (by simp)

lemma elems_of_some {path name rest : List UInt8} (h : skipelem path = some (name, rest)) :
    elems path = name :: elems rest := by
  rw [elems]
  split
  · next h' => exact absurd (h.symm.trans h') (by simp)
  · next name' rest' h' =>
    obtain ⟨rfl, rfl⟩ := Prod.mk.inj (Option.some.inj (h.symm.trans h'))
    rfl

/-- After the last element the path is empty. -/
lemma elems_rest {path name rest : List UInt8} (h : skipelem path = some (name, rest)) :
    rest.headD 0 = 0 ↔ elems rest = [] := by
  have hskip : skip rest = rest := by
    rw [skipelem] at h
    split_ifs at h
    obtain ⟨-, rfl⟩ := Prod.mk.inj (Option.some.inj h)
    exact skip_skip _
  constructor
  · intro hz
    refine elems_of_none ?_
    rw [skipelem, hskip, if_pos hz]
  · intro hnil
    by_contra hne
    have hsome : elems rest = _ := elems_of_some (by rw [skipelem, hskip, if_neg hne])
    rw [hnil] at hsome
    exact absurd hsome (by simp)

/-! ### Splitting -/

/-- What is between slashes, but for the empty parts. -/
def parts (s : List UInt8) : List (List UInt8) := (s.splitOn slash).filter fun p => !p.isEmpty

lemma parts_slash (s : List UInt8) : parts (slash :: s) = parts s := by
  have h := List.splitOn_append_cons_self [] s (a := slash)
  rw [List.nil_append] at h
  rw [parts, h, List.filter_append]
  rfl

lemma parts_skip (s : List UInt8) : parts (skip s) = parts s := by
  induction s with
  | nil => rfl
  | cons c s ih =>
    by_cases hc : c = slash
    · rw [hc, skip_slash, parts_slash, ih]
    · rw [skip_of_ne hc]

lemma parts_of_notMem {p : List UInt8} (hp : slash ∉ p) (hne : p ≠ []) : parts p = [p] := by
  rw [parts, List.splitOn_eq_singleton hp]
  cases p with
  | nil => exact absurd rfl hne
  | cons c p => rfl

lemma parts_append {p : List UInt8} (hp : slash ∉ p) (hne : p ≠ []) (s : List UInt8) :
    parts (p ++ slash :: s) = p :: parts s := by
  rw [parts, List.splitOn_append_cons_self, List.filter_append]
  exact congrArg (· ++ parts s) (parts_of_notMem hp hne)

/-- The bytes of a string before the zero byte. -/
def str (s : List UInt8) : List UInt8 := s.takeWhile fun c => c != 0

lemma str_of_headD {s : List UInt8} (h : s.headD 0 = 0) : str s = [] := by
  cases s with
  | nil => rfl
  | cons c s =>
    have hc : c = 0 := h
    rw [str, List.takeWhile_cons_of_neg (by simp [hc])]

lemma str_cons {c : UInt8} (hc : c ≠ 0) (s : List UInt8) : str (c :: s) = c :: str s :=
  List.takeWhile_cons_of_pos (by simp [hc])

lemma str_skip (s : List UInt8) : str (skip s) = skip (str s) := by
  have hz : slash ≠ 0 := by decide
  induction s with
  | nil => rfl
  | cons c s ih =>
    by_cases hc : c = slash
    · rw [hc, str_cons hz, skip_slash, skip_slash, ih]
    · rw [skip_of_ne hc]
      by_cases h0 : c = 0
      · rw [h0, str_of_headD rfl]
        rfl
      · rw [str_cons h0, skip_of_ne hc]

/-- An element ends at a slash or at the end of the string. -/
lemma str_split (s : List UInt8) : str s = s.takeWhile inElem ++ str (s.dropWhile inElem) := by
  induction s with
  | nil => rfl
  | cons c s ih =>
    by_cases hc : inElem c = true
    · have h0 : c ≠ 0 := by
        rintro rfl
        exact absurd hc (by decide)
      rw [str_cons h0, List.takeWhile_cons_of_pos hc, List.dropWhile_cons_of_pos hc, ih,
        List.cons_append]
    · rw [List.takeWhile_cons_of_neg hc, List.dropWhile_cons_of_neg hc, List.nil_append]

/-- **The elements of a path** are what is between its slashes, and nothing else. -/
theorem elems_eq (path : List UInt8) : elems path = (parts (str path)).map (·.take DIRSIZ) := by
  induction hn : path.length using Nat.strong_induction_on generalizing path with
  | _ n ih =>
  subst hn
  rw [← parts_skip, ← str_skip]
  cases he : skipelem path with
  | none =>
    have hz : (skip path).headD 0 = 0 := by
      by_contra hz
      rw [skipelem, if_neg hz] at he
      exact absurd he (by simp)
    rw [elems_of_none he, str_of_headD hz]
    rfl
  | some r =>
    obtain ⟨name, rest⟩ := r
    rw [elems_of_some he, ih rest.length (length_of_skipelem he) rest rfl]
    rw [skipelem] at he
    split_ifs at he with hz
    obtain ⟨rfl, rfl⟩ := Prod.mk.inj (Option.some.inj he)
    obtain ⟨c, s, hs, hc⟩ := skip_cons hz
    generalize skip path = q at hs
    have hne : q.takeWhile inElem ≠ [] := by
      rw [hs, List.takeWhile_cons_of_pos hc]
      exact List.cons_ne_nil _ _
    have hmem : slash ∉ q.takeWhile inElem := by
      intro hm
      have := List.mem_takeWhile_imp hm
      exact absurd this (by decide)
    -- what follows the element
    have hend : str (q.dropWhile inElem) = [] ∨
        ∃ r, str (q.dropWhile inElem) = slash :: r := by
      cases hd : q.dropWhile inElem with
      | nil => exact Or.inl rfl
      | cons x r =>
        have hx := List.head?_dropWhile_not inElem q
        rw [hd, List.head?_cons] at hx
        by_cases h0 : x = 0
        · exact Or.inl (str_of_headD h0)
        · obtain rfl : x = slash := by simpa [inElem, h0] using hx
          exact Or.inr ⟨str r, str_cons h0 r⟩
    rw [str_skip, parts_skip]
    rw [str_split q]
    obtain hend | ⟨r, hend⟩ := hend
    · rw [hend, List.append_nil, parts_of_notMem hmem hne]
      rfl
    · rw [hend, parts_append hmem hne, parts_slash, List.map_cons]

end Xv6Projects.Fs
