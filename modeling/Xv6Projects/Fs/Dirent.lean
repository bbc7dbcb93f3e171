import Xv6Projects.Fs.Filewrite

/-!
# Directory entries

A directory is a file of entries of sixteen bytes: the number of an inode, which is zero in an
empty entry, and a name of at most `DIRSIZ` bytes.  What is written as an entry is read as that
entry, and changes no other one.
-/

namespace Xv6Projects.Fs

open Disk

/-- A directory. -/
def T_DIR : ℤ := 1

/-- A file that is no directory and no device. -/
def T_FILE : ℤ := 2

/-- The length of the longest name in a directory. -/
def DIRSIZ : ℕ := 14

/-- The size of an entry. -/
def DESIZE : ℕ := 2 + DIRSIZ

/-! ### Strings -/

/-- `strncmp` of two strings that end with a zero byte or with the list. -/
def strncmp : List UInt8 → List UInt8 → ℕ → ℤ
  | _, _, 0 => 0
  | p, q, n + 1 =>
    if p.headD 0 ≠ 0 ∧ p.headD 0 = q.headD 0 then strncmp p.tail q.tail n
    else (p.headD 0).toNat - (q.headD 0).toNat

/-- The bytes that `strncpy` writes. -/
def strncpy (t : List UInt8) : ℕ → List UInt8
  | 0 => []
  | n + 1 => if t.headD 0 ≠ 0 then t.headD 0 :: strncpy t.tail n else List.replicate (n + 1) 0

/-- The first `n` bytes of a string, up to the first zero byte. -/
def cstr : List UInt8 → ℕ → List UInt8
  | _, 0 => []
  | t, n + 1 => if t.headD 0 ≠ 0 then t.headD 0 :: cstr t.tail n else []

lemma length_strncpy (n : ℕ) : ∀ t, (strncpy t n).length = n := by
  induction n with
  | zero => exact fun _ => rfl
  | succ n ih =>
    intro t
    rw [strncpy]
    split_ifs
    · rw [List.length_cons, ih]
    · rw [List.length_replicate]

/-- Strings are equal for `strncmp` if they are equal up to the first zero byte. -/
lemma strncmp_eq_zero (n : ℕ) : ∀ p q, strncmp p q n = 0 ↔ cstr p n = cstr q n := by
  induction n with
  | zero => exact fun _ _ => ⟨fun _ => rfl, fun _ => rfl⟩
  | succ n ih =>
    intro p q
    generalize ha : p.headD 0 = a
    generalize hb : q.headD 0 = b
    rw [strncmp, cstr, cstr, ha, hb]
    by_cases hab : a = b
    · subst hab
      by_cases hz : a = 0
      · simp [hz]
      · simp [hz, ih]
    · have hne : ¬(a ≠ 0 ∧ a = b) := fun h => hab h.2
      have hsub : ¬(a.toNat : ℤ) - b.toNat = 0 := by
        intro h
        exact hab (UInt8.toNat_inj.mp (by omega))
      rw [if_neg hne]
      constructor
      · exact fun h => absurd h hsub
      · intro h
        split_ifs at h with h₁ h₂ h₂
        · exact absurd (List.cons.inj h).1 hab
        · exact absurd ((not_not.mp h₁).trans (not_not.mp h₂).symm) hab

/-- A string that has been copied is the same string. -/
lemma cstr_strncpy (n : ℕ) : ∀ t, cstr (strncpy t n) n = cstr t n := by
  induction n with
  | zero => exact fun _ => rfl
  | succ n ih =>
    intro t
    by_cases h : t.headD 0 ≠ 0
    · rw [strncpy, if_pos h, cstr, cstr, if_pos h, List.headD_cons, if_pos h, List.tail_cons, ih]
    · rw [strncpy, if_neg h, cstr, cstr, if_neg h, List.replicate_succ, List.headD_cons,
        if_neg (not_not.mpr rfl)]

/-! ### Entries -/

/-- An entry of a directory. -/
structure Dirent where
  inum : UInt16
  name : List UInt8
  length_name : name.length = DIRSIZ
deriving DecidableEq

namespace Dirent

lemma ext {e e' : Dirent} (hinum : e.inum = e'.inum) (hname : e.name = e'.name) : e = e' := by
  cases e
  cases e'
  congr

/-- An entry after `memset`. -/
def zero : Dirent := ⟨0, List.replicate DIRSIZ 0, List.length_replicate⟩

/-- The entry that `dirlink` writes. -/
def link (name : List UInt8) (inum : ℕ) : Dirent :=
  ⟨UInt16.ofNat inum, strncpy name DIRSIZ, length_strncpy DIRSIZ name⟩

/-- The name of an entry. -/
def key (e : Dirent) : List UInt8 := cstr e.name DIRSIZ

/-- The bytes of an entry. -/
def bytes (e : Dirent) : List UInt8 :=
  UInt8.ofNat e.inum.toNat :: UInt8.ofNat (e.inum.toNat / 256) :: e.name

/-- The entry at the beginning of a list of bytes. -/
def decode (b : List UInt8) : Dirent where
  inum := UInt16.ofNat ((b.getD 0 0).toNat + 256 * (b.getD 1 0).toNat)
  name := (List.range DIRSIZ).map fun o => b.getD (2 + o) 0
  length_name := by rw [List.length_map, List.length_range]

lemma length_bytes (e : Dirent) : e.bytes.length = DESIZE := by
  rw [bytes, List.length_cons, List.length_cons, e.length_name, DESIZE]
  omega

/-- Decoding looks at the first sixteen bytes. -/
lemma decode_congr {b b' : List UInt8} (h : ∀ o, o < DESIZE → b.getD o 0 = b'.getD o 0) :
    decode b = decode b' := by
  refine ext ?_ ?_
  · rw [decode, decode, h 0 (by decide), h 1 (by decide)]
  · refine List.map_congr_left fun o ho => h (2 + o) ?_
    have := List.mem_range.mp ho
    rw [DESIZE]
    omega

lemma decode_take (b : List UInt8) : decode (b.take DESIZE) = decode b := by
  refine decode_congr fun o ho => ?_
  rw [List.getD_eq_getElem?_getD, List.getElem?_take_of_lt ho, List.getD_eq_getElem?_getD]

/-- An entry that has been written is read. -/
lemma decode_bytes (e : Dirent) : decode e.bytes = e := by
  refine ext ?_ ?_
  · show UInt16.ofNat ((UInt8.ofNat e.inum.toNat).toNat +
      256 * (UInt8.ofNat (e.inum.toNat / 256)).toNat) = e.inum
    have hlt := e.inum.toNat_lt
    refine UInt16.toNat_inj.mp ?_
    rw [UInt8.toNat_ofNat', UInt8.toNat_ofNat', UInt16.toNat_ofNat']
    omega
  · have hname : (List.range DIRSIZ).map (fun o => e.bytes.getD (2 + o) 0) = e.name := by
      refine List.ext_getElem ?_ fun o h₁ h₂ => ?_
      · rw [List.length_map, List.length_range, e.length_name]
      · rw [List.getElem_map, List.getElem_range, Nat.add_comm, bytes, List.getD_cons_succ,
          List.getD_cons_succ, List.getD_eq_getElem _ _ h₂]
    exact hname

lemma namecmp_key (e : Dirent) (name : List UInt8) :
    strncmp name e.name DIRSIZ = 0 ↔ cstr name DIRSIZ = e.key := strncmp_eq_zero ..

lemma key_link (name : List UInt8) (inum : ℕ) : (link name inum).key = cstr name DIRSIZ :=
  cstr_strncpy ..

end Dirent

/-! ### Directories -/

/-- The entries of a directory. -/
def dirents (c : List UInt8) : List Dirent :=
  (List.range (c.length / DESIZE)).map fun k => Dirent.decode (c.drop (DESIZE * k))

@[simp] lemma length_dirents (c : List UInt8) : (dirents c).length = c.length / DESIZE := by
  rw [dirents, List.length_map, List.length_range]

lemma getElem_dirents {c : List UInt8} {k : ℕ} (h : k < (dirents c).length) :
    (dirents c)[k] = Dirent.decode (c.drop (DESIZE * k)) := by
  simp [dirents]

/-- Entry `k` is written, or added at the end. -/
def putEntry (es : List Dirent) (k : ℕ) (e : Dirent) : List Dirent :=
  es.take k ++ e :: es.drop (k + 1)

lemma length_putEntry {es : List Dirent} {k : ℕ} (e : Dirent) (hk : k ≤ es.length) :
    (putEntry es k e).length = max es.length (k + 1) := by
  rw [putEntry, List.length_append, List.length_take, List.length_cons, List.length_drop]
  omega

lemma getElem?_putEntry {es : List Dirent} {k : ℕ} (e : Dirent) (hk : k ≤ es.length) (j : ℕ) :
    (putEntry es k e)[j]? = if j = k then some e else es[j]? := by
  have htake : (es.take k).length = k := by
    rw [List.length_take]
    omega
  rw [putEntry]
  obtain hj | rfl | hj := lt_trichotomy j k
  · rw [List.getElem?_append_left (by omega), if_neg hj.ne, List.getElem?_take_of_lt hj]
  · rw [List.getElem?_append_right (by omega), if_pos rfl, htake, Nat.sub_self,
      List.getElem?_cons_zero]
  · obtain ⟨m, rfl⟩ : ∃ m, j = k + 1 + m := ⟨j - (k + 1), by omega⟩
    rw [List.getElem?_append_right (by omega), if_neg (by omega), htake,
      show k + 1 + m - k = m + 1 by omega, List.getElem?_cons_succ, List.getElem?_drop]

lemma getD_drop (c : List UInt8) (m o : ℕ) : (c.drop m).getD o 0 = c.getD (m + o) 0 := by
  rw [List.getD_eq_getElem?_getD, List.getElem?_drop, List.getD_eq_getElem?_getD]

/-- Writing the bytes of an entry writes the entry. -/
lemma dirents_overwrite {c : List UInt8} {n k : ℕ} (e : Dirent) (hc : c.length = DESIZE * n)
    (hk : k ≤ n) : dirents (overwrite c (DESIZE * k) e.bytes) = putEntry (dirents c) k e := by
  have hpos : 0 < DESIZE := by decide
  have hmul : DESIZE * k ≤ DESIZE * n := Nat.mul_le_mul_left _ hk
  have hn : (dirents c).length = n := by rw [length_dirents, hc, Nat.mul_div_cancel_left n hpos]
  have hlen : (overwrite c (DESIZE * k) e.bytes).length = DESIZE * max n (k + 1) := by
    rw [length_overwrite (by omega), e.length_bytes, hc, ← Nat.mul_max_mul_left, Nat.mul_add,
      Nat.mul_one]
  have hn' : (dirents (overwrite c (DESIZE * k) e.bytes)).length = max n (k + 1) := by
    rw [length_dirents, hlen, Nat.mul_div_cancel_left _ hpos]
  refine List.ext_getElem? fun j => ?_
  rw [getElem?_putEntry e (by omega)]
  by_cases hj : j < max n (k + 1)
  · rw [List.getElem?_eq_getElem (by omega), getElem_dirents]
    have hbyte : ∀ o, o < DESIZE → ((overwrite c (DESIZE * k) e.bytes).drop (DESIZE * j)).getD o 0 =
        if j = k then e.bytes.getD o 0 else (c.drop (DESIZE * j)).getD o 0 := by
      intro o ho
      rw [getD_drop, getD_drop, getD_overwrite (by omega), e.length_bytes]
      obtain hjk | rfl | hjk := lt_trichotomy j k
      · have := Nat.mul_le_mul_left DESIZE (show j + 1 ≤ k by omega)
        rw [Nat.mul_add] at this
        rw [if_neg (by omega), if_neg hjk.ne]
      · rw [if_pos (by omega), if_pos rfl, Nat.add_sub_cancel_left]
      · have := Nat.mul_le_mul_left DESIZE (show k + 1 ≤ j by omega)
        rw [Nat.mul_add] at this
        rw [if_neg (by omega), if_neg hjk.ne']
    by_cases hjk : j = k
    · simp only [if_pos hjk] at hbyte ⊢
      exact congrArg some ((Dirent.decode_congr hbyte).trans e.decode_bytes)
    · simp only [if_neg hjk] at hbyte ⊢
      rw [List.getElem?_eq_getElem (by omega), getElem_dirents]
      exact congrArg some (Dirent.decode_congr hbyte)
  · rw [List.getElem?_eq_none (by omega), if_neg (by omega), List.getElem?_eq_none (by omega)]

/-! ### Searching -/

/-- The first entry that satisfies `stop`, and its index. -/
def first (stop : Dirent → Bool) : List Dirent → ℕ → Option (Dirent × ℕ)
  | [], _ => none
  | e :: es, k => if stop e then some (e, k) else first stop es (k + 1)

lemma first_eq_none {stop : Dirent → Bool} (es : List Dirent) :
    ∀ k, first stop es k = none ↔ ∀ e ∈ es, stop e = false := by
  induction es with
  | nil => simp [first]
  | cons e es ih =>
    intro k
    rw [first]
    cases he : stop e with
    | false => simp [he, ih]
    | true => simp [he]

lemma first_eq_some {stop : Dirent → Bool} {e : Dirent} {j : ℕ} (es : List Dirent) :
    ∀ k, first stop es k = some (e, j) → ∃ m, j = k + m ∧ es[m]? = some e ∧ stop e = true ∧
      ∀ l, l < m → ∀ x, es[l]? = some x → stop x = false := by
  induction es with
  | nil => exact fun k h => absurd h (by simp [first])
  | cons a es ih =>
    intro k h
    rw [first] at h
    by_cases ha : stop a = true
    · rw [if_pos ha] at h
      obtain ⟨rfl, rfl⟩ := Prod.mk.inj (Option.some.inj h)
      exact ⟨0, rfl, rfl, ha, fun l hl => absurd hl (Nat.not_lt_zero l)⟩
    · rw [if_neg ha] at h
      obtain ⟨m, rfl, hm, he, hlt⟩ := ih (k + 1) h
      refine ⟨m + 1, by omega, by rwa [List.getElem?_cons_succ], he, fun l hl x hx => ?_⟩
      cases l with
      | zero =>
        rw [List.getElem?_cons_zero] at hx
        rw [← Option.some.inj hx]
        simpa using ha
      | succ l =>
        rw [List.getElem?_cons_succ] at hx
        exact hlt l (by omega) x hx

/-- The entry of a name. -/
def lookup (es : List Dirent) (name : List UInt8) : Option (Dirent × ℕ) :=
  first (fun e => decide (e.inum ≠ 0 ∧ strncmp name e.name DIRSIZ = 0)) es 0

lemma lookup_eq_none {es : List Dirent} {name : List UInt8} :
    lookup es name = none ↔ ∀ e ∈ es, e.inum ≠ 0 → e.key ≠ cstr name DIRSIZ := by
  rw [lookup, first_eq_none]
  refine forall₂_congr fun e _ => ?_
  rw [decide_eq_false_iff_not, Dirent.namecmp_key, not_and]
  exact imp_congr_right fun _ => ⟨fun h he => h he.symm, fun h he => h he.symm⟩

lemma lookup_eq_some {es : List Dirent} {name : List UInt8} {e : Dirent} {k : ℕ}
    (h : lookup es name = some (e, k)) :
    es[k]? = some e ∧ e.inum ≠ 0 ∧ e.key = cstr name DIRSIZ := by
  obtain ⟨m, hk, hm, he, -⟩ := first_eq_some es 0 h
  rw [Nat.zero_add] at hk
  subst hk
  rw [decide_eq_true_eq, Dirent.namecmp_key] at he
  exact ⟨hm, he.1, he.2.symm⟩

/-- The index of the first empty entry, or of the end. -/
def freeEntry (es : List Dirent) : ℕ :=
  ((first (fun e => decide (e.inum = 0)) es 0).map Prod.snd).getD es.length

/-- There is no entry at the index, or an empty one. -/
lemma freeEntry_spec (es : List Dirent) :
    freeEntry es ≤ es.length ∧ (∀ e, es[freeEntry es]? = some e → e.inum = 0) ∧
      ∀ l, l < freeEntry es → ∀ e, es[l]? = some e → e.inum ≠ 0 := by
  rw [freeEntry]
  cases h : first (fun e => decide (e.inum = 0)) es 0 with
  | none =>
    refine ⟨le_rfl, fun e he => absurd he (by simp), fun l _ e he hz => ?_⟩
    have := (first_eq_none es 0).mp h e (List.mem_of_getElem? he)
    simp [hz] at this
  | some r =>
    obtain ⟨m, hr, hm, he, hlt⟩ := first_eq_some es 0 h
    rw [Nat.zero_add] at hr
    have hle := (List.getElem?_eq_some_iff.mp hm).1
    simp only [Option.map_some, Option.getD_some, hr]
    refine ⟨hle.le, fun e he' => ?_, fun l hl e he' hz => ?_⟩
    · rw [hm] at he'
      rw [← Option.some.inj he']
      simpa using he
    · have := hlt l hl e he'
      simp [hz] at this

/-! ### The entries after `.` and `..` -/

/-- The entries that are not empty, but for the first two. -/
def kids (es : List Dirent) : List Dirent := (es.drop 2).filter fun e => decide (e.inum ≠ 0)

/-- What is before and after an entry stays when it is written. -/
lemma kids_putEntry {es : List Dirent} {k : ℕ} (e : Dirent) (h2 : 2 ≤ k) (hk : k ≤ es.length) :
    ∃ A B, kids es = A ++ es[k]?.toList.filter (fun e => decide (e.inum ≠ 0)) ++ B ∧
      kids (putEntry es k e) = A ++ [e].filter (fun e => decide (e.inum ≠ 0)) ++ B := by
  refine ⟨((es.drop 2).take (k - 2)).filter fun e => decide (e.inum ≠ 0),
    (es.drop (k + 1)).filter fun e => decide (e.inum ≠ 0), ?_, ?_⟩
  · rw [kids, ← List.filter_append, ← List.filter_append, List.append_assoc,
      ← List.drop_eq_getElem?_toList_append]
    conv_lhs => rw [← List.take_append_drop (k - 2) (es.drop 2), List.drop_drop,
      Nat.add_sub_cancel' h2]
  · have htake : (es.take k).length = k := by
      rw [List.length_take]
      omega
    rw [kids, ← List.filter_append, ← List.filter_append, putEntry,
      List.drop_append_of_le_length (by omega), List.drop_take, List.append_assoc,
      List.singleton_append]

/-- An entry is added. -/
lemma kids_link {es : List Dirent} {k : ℕ} {e : Dirent} (h2 : 2 ≤ k) (hk : k ≤ es.length)
    (hold : ∀ x, es[k]? = some x → x.inum = 0) (he : e.inum ≠ 0) :
    (kids (putEntry es k e)).Perm (e :: kids es) := by
  obtain ⟨A, B, hA, hB⟩ := kids_putEntry e h2 hk
  have hnil : es[k]?.toList.filter (fun e => decide (e.inum ≠ 0)) = [] := by
    cases hx : es[k]? with
    | none => rfl
    | some x => simp [hold x hx]
  have hone : [e].filter (fun e => decide (e.inum ≠ 0)) = [e] := by simp [he]
  rw [hA, hB, hnil, hone, List.append_nil, List.append_assoc, List.singleton_append]
  exact List.perm_middle

/-- An entry is emptied. -/
lemma kids_unlink {es : List Dirent} {k : ℕ} {e : Dirent} (h2 : 2 ≤ k) (hk : es[k]? = some e)
    (he : e.inum ≠ 0) : (kids es).Perm (e :: kids (putEntry es k .zero)) := by
  obtain ⟨A, B, hA, hB⟩ := kids_putEntry .zero h2 (List.getElem?_eq_some_iff.mp hk).1.le
  have hnil : [Dirent.zero].filter (fun e => decide (e.inum ≠ 0)) = [] := rfl
  have hone : es[k]?.toList.filter (fun e => decide (e.inum ≠ 0)) = [e] := by simp [hk, he]
  rw [hA, hB, hnil, hone, List.append_nil, List.append_assoc, List.singleton_append]
  exact List.perm_middle

end Xv6Projects.Fs
