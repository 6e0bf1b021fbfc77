import Mathlib.Algebra.Order.Ring.Nat
import Mathlib.Data.Nat.Find
import Mathlib.Data.List.DropRight
import Mathlib.Data.List.TakeWhile

/-!
# Texts as lists: substring search, marker overlap, trimming

A text is the list of its characters and a position counts characters.  The search functions
work over any alphabet with decidable equality.

* `find m s` — position of the first occurrence of `m` in `s`.
* `stripPrefix m s` — what follows the prefix `m`.
* `overlap s m` — length of the longest proper prefix of `m` that is a suffix of `s`: what a
  scanner that reads `s` piece by piece must hold back.
* `trimStart`, `trimEnd`, `trim`, `utf8Len` — Unicode white space and byte length.

Principal result: `find_append_of_overlap` (searching a text that arrives in pieces: after a
piece without an occurrence only the overlap matters).
-/

set_option autoImplicit false

namespace Text

section Search

variable {α : Type} [DecidableEq α]

/-- Position of the first occurrence of `m` in `s`. -/
def find (m : List α) : List α → Option Nat
  | [] => if m = [] then some 0 else none
  | c :: s => if m <+: c :: s then some 0 else (find m s).map (· + 1)

/-- What follows the prefix `m` of `s`. -/
def stripPrefix (m s : List α) : Option (List α) :=
  if m <+: s then some (s.drop m.length) else none

/-- What precedes the suffix `m` of `s`. -/
def stripSuffix (m s : List α) : Option (List α) :=
  if m <:+ s then some (s.take (s.length - m.length)) else none

/-- Length of the longest proper prefix of `m` that is a suffix of `s`. -/
def overlap (s m : List α) : Nat :=
  Nat.findGreatest (fun n => m.take n <:+ s) (min (m.length - 1) s.length)

theorem find_eq_none {m : List α} :
    ∀ {s : List α}, find m s = none ↔ ∀ j ≤ s.length, ¬ m <+: s.drop j
  | [] => by
    by_cases hm : m = [] <;> simp [find, hm]
  | c :: s => by
    unfold find
    by_cases hp : m <+: c :: s
    · simp only [hp, if_true]
      constructor
      · intro h; cases h
      · intro h; exact absurd hp (h 0 (Nat.zero_le _))
    · simp only [hp, if_false, Option.map_eq_none_iff, find_eq_none]
      constructor
      · intro h j hj
        cases j with
        | zero => exact hp
        | succ j => exact h j (by simpa using hj)
      · intro h j hj
        exact h (j + 1) (by simpa using hj)

theorem find_eq_some {m : List α} :
    ∀ {s : List α} {i : Nat}, find m s = some i ↔
      i ≤ s.length ∧ m <+: s.drop i ∧ ∀ j < i, ¬ m <+: s.drop j
  | [], i => by
    by_cases hm : m = []
    · simp only [find, hm, if_true, Option.some.injEq, List.length_nil]
      constructor
      · rintro rfl; simp
      · rintro ⟨h, -, -⟩; omega
    · simp [find, hm]
  | c :: s, i => by
    unfold find
    by_cases hp : m <+: c :: s
    · simp only [hp, if_true, Option.some.injEq]
      constructor
      · rintro rfl; simp [hp]
      · rintro ⟨-, -, h⟩
        by_contra hi
        exact h 0 (by omega) hp
    · simp only [hp, if_false, Option.map_eq_some_iff, find_eq_some]
      constructor
      · rintro ⟨i, ⟨hi, hm, hmin⟩, rfl⟩
        refine ⟨by simpa using hi, by simpa using hm, ?_⟩
        intro j hj
        cases j with
        | zero => exact hp
        | succ j => exact hmin j (by omega)
      · rintro ⟨hi, hm, hmin⟩
        cases i with
        | zero => exact absurd hm hp
        | succ i =>
          exact ⟨i, ⟨by simpa using hi, by simpa using hm,
            fun j hj => by simpa using hmin (j + 1) (by omega)⟩, rfl⟩

/-- An occurrence splits the text at its position. -/
theorem find_split {m s : List α} {i : Nat} (h : find m s = some i) :
    s = s.take i ++ m ++ s.drop (i + m.length) := by
  obtain ⟨-, ⟨t, ht⟩, -⟩ := find_eq_some.1 h
  have hd : s.drop (i + m.length) = t := by rw [← List.drop_drop, ← ht, List.drop_left]
  rw [hd, List.append_assoc, ht, List.take_append_drop]

theorem find_le {m s : List α} {i : Nat} (h : find m s = some i) : i + m.length ≤ s.length := by
  obtain ⟨hi, hm, -⟩ := find_eq_some.1 h
  have := hm.length_le
  rw [List.length_drop] at this
  omega

/-- The search succeeds exactly on what is contained. -/
theorem find_isSome {m s : List α} : (find m s).isSome ↔ m <:+: s := by
  constructor
  · intro h
    obtain ⟨i, hi⟩ := Option.isSome_iff_exists.1 h
    exact ⟨s.take i, s.drop (i + m.length), (find_split hi).symm⟩
  · rintro ⟨u, v, rfl⟩
    by_contra hnone
    have hnone : find m (u ++ m ++ v) = none := by simpa using hnone
    refine find_eq_none.1 hnone u.length (by simp) ?_
    rw [List.append_assoc, List.drop_left]
    exact List.prefix_append m v

theorem find_of_length_lt {m s : List α} (h : s.length < m.length) : find m s = none := by
  cases hf : find m s with
  | none => rfl
  | some i => have := find_le hf; omega

/-- A first occurrence stays the first one when text is appended. -/
theorem find_append_left {m s : List α} {i : Nat} (h : find m s = some i) (q : List α) :
    find m (s ++ q) = some i := by
  have hl := find_le h
  obtain ⟨hi, hm, hmin⟩ := find_eq_some.1 h
  refine find_eq_some.2 ⟨by simp; omega, ?_, ?_⟩
  · rw [List.drop_append_of_le_length hi]
    exact hm.trans (List.prefix_append _ _)
  · intro j hj hp
    apply hmin j hj
    rw [List.drop_append_of_le_length (by omega)] at hp
    exact List.prefix_of_prefix_length_le hp (List.prefix_append _ _)
      (by rw [List.length_drop]; omega)

/-- A marker whose first element is none of its later ones is found where a text without it
ends. -/
theorem find_append_marker {m s : List α} (hfirst : ∀ k < m.length, 0 < k → m[k]? ≠ m[0]?)
    (h : ¬ m <:+: s) (q : List α) : find m (s ++ (m ++ q)) = some s.length := by
  rw [find_eq_some]
  refine ⟨?_, ?_, fun j hj hpre => ?_⟩
  · rw [List.length_append]
    omega
  · rw [List.drop_left]
    exact List.prefix_append _ _
  · by_cases hfits : j + m.length ≤ s.length
    · apply h
      rw [List.drop_append_of_le_length (by omega)] at hpre
      have hin : m <+: s.drop j :=
        List.prefix_of_prefix_length_le hpre (List.prefix_append _ _) (by
          rw [List.length_drop]
          omega)
      exact hin.isInfix.trans (List.drop_suffix j s).isInfix
    · -- an earlier occurrence would hold the first element again
      obtain ⟨k, hk⟩ : ∃ k, s.length = j + k := ⟨s.length - j, by omega⟩
      obtain ⟨t, ht⟩ := hpre
      refine hfirst k (by omega) (by omega) ?_
      have hget : (m ++ t)[k]? = m[k]? := List.getElem?_append_left (by omega)
      rw [← hget, ht, List.getElem?_drop, ← hk, List.getElem?_append_right (Nat.le_refl _),
        Nat.sub_self, List.getElem?_append_left (by omega)]

/-- With no occurrence before position `n` the search may start there. -/
theorem find_drop {m s : List α} {n : Nat} (hn : n ≤ s.length)
    (h : ∀ j < n, ¬ m <+: s.drop j) : find m s = (find m (s.drop n)).map (· + n) := by
  cases hf : find m (s.drop n) with
  | none =>
    rw [Option.map_none, find_eq_none]
    intro j hj hp
    rcases Nat.lt_or_ge j n with hjn | hjn
    · exact h j hjn hp
    · refine find_eq_none.1 hf (j - n) (by rw [List.length_drop]; omega) ?_
      rwa [List.drop_drop, Nat.add_sub_cancel' hjn]
  | some i =>
    obtain ⟨hi, hm, hmin⟩ := find_eq_some.1 hf
    rw [List.length_drop] at hi
    rw [Option.map_some, find_eq_some]
    refine ⟨by omega, by rwa [List.drop_drop, Nat.add_comm] at hm, ?_⟩
    intro j hj hp
    rcases Nat.lt_or_ge j n with hjn | hjn
    · exact h j hjn hp
    · refine hmin (j - n) (by omega) ?_
      rwa [List.drop_drop, Nat.add_sub_cancel' hjn]

theorem overlap_le_length (s m : List α) : overlap s m ≤ s.length :=
  Nat.le_trans (Nat.findGreatest_le _) (Nat.min_le_right _ _)

theorem overlap_lt {s m : List α} (hm : m ≠ []) : overlap s m < m.length := by
  have h1 : overlap s m ≤ m.length - 1 := Nat.le_trans (Nat.findGreatest_le _) (Nat.min_le_left _ _)
  have h2 := List.length_pos_iff.2 hm
  omega

theorem overlap_nil (s : List α) : overlap s [] = 0 := by simp [overlap]

theorem take_overlap_suffix (s m : List α) : m.take (overlap s m) <:+ s :=
  Nat.findGreatest_spec (P := fun n => m.take n <:+ s) (Nat.zero_le _) (by simp)

/-- The held-back end of the text is a prefix of the marker. -/
theorem drop_overlap (s m : List α) :
    s.drop (s.length - overlap s m) = m.take (overlap s m) := by
  obtain ⟨t, ht⟩ := take_overlap_suffix s m
  have hle : overlap s m ≤ m.length :=
    Nat.le_trans (Nat.findGreatest_le _) (Nat.le_trans (Nat.min_le_left _ _) (Nat.sub_le _ _))
  have hlen : s.length = t.length + overlap s m := by
    have := congrArg List.length ht
    rw [List.length_append, List.length_take, Nat.min_eq_left hle] at this
    exact this.symm
  have hdrop : (t ++ m.take (overlap s m)).drop t.length = m.take (overlap s m) :=
    List.drop_left
  rw [ht] at hdrop
  rwa [hlen, Nat.add_sub_cancel]

theorem le_overlap {s m : List α} {n : Nat} (hn : n < m.length) (h : m.take n <:+ s) :
    n ≤ overlap s m := by
  refine Nat.le_findGreatest (Nat.le_min.2 ⟨by omega, ?_⟩) h
  have := h.length_le
  rw [List.length_take, Nat.min_eq_left (by omega)] at this
  exact this

/-- A text that is itself a proper prefix of the marker is held back whole. -/
theorem overlap_take {m : List α} {n : Nat} (hn : n < m.length) :
    overlap (m.take n) m = n := by
  apply Nat.le_antisymm
  · have := overlap_le_length (m.take n) m
    rwa [List.length_take, Nat.min_eq_left (by omega)] at this
  · exact le_overlap hn (List.suffix_refl _)

/-- Searching a text that arrives in pieces: after a first piece `s` without an occurrence
the search goes on from the overlap that was held back. -/
theorem find_append_of_overlap {m s : List α} (h : find m s = none) (q : List α) :
    find m (s ++ q) =
      (find m (s.drop (s.length - overlap s m) ++ q)).map (· + (s.length - overlap s m)) := by
  have hk := overlap_le_length s m
  rw [← List.drop_append_of_le_length (Nat.sub_le _ _)]
  refine find_drop (by simp; omega) ?_
  intro j hj hp
  -- an occurrence that starts before the overlap either lies inside `s` or ends in `q`
  have hjs : j ≤ s.length := by omega
  rw [List.drop_append_of_le_length hjs] at hp
  rcases Nat.lt_or_ge (s.length - j) m.length with hlt | hge
  · have hpre : s.drop j = m.take (s.length - j) := by
      obtain ⟨t, ht⟩ := hp
      have hlen : (s.drop j).length = s.length - j := List.length_drop
      have := congrArg (List.take (s.length - j)) ht
      rw [List.take_append_of_le_length (Nat.le_of_lt hlt), ← hlen, List.take_left, hlen] at this
      exact this.symm
    have := le_overlap hlt (hpre ▸ List.drop_suffix j s)
    omega
  · exact find_eq_none.1 h j hjs
      (List.prefix_of_prefix_length_le hp (List.prefix_append _ _)
        (by rw [List.length_drop]; omega))

theorem stripPrefix_eq_some {m s t : List α} : stripPrefix m s = some t ↔ s = m ++ t := by
  unfold stripPrefix
  constructor
  · intro h
    split at h
    · rename_i hp
      obtain ⟨t', rfl⟩ := hp
      rw [List.drop_left] at h
      rw [Option.some.inj h]
    · cases h
  · rintro rfl
    simp

theorem stripPrefix_eq_none {m s : List α} : stripPrefix m s = none ↔ ¬ m <+: s := by
  unfold stripPrefix
  split <;> simp_all

theorem stripSuffix_eq_some {m s t : List α} : stripSuffix m s = some t ↔ s = t ++ m := by
  unfold stripSuffix
  constructor
  · intro h
    split at h
    · rename_i hs
      obtain ⟨u, rfl⟩ := hs
      rw [List.length_append, Nat.add_sub_cancel, List.take_left] at h
      rw [Option.some.inj h]
    · cases h
  · rintro rfl
    rw [if_pos (List.suffix_append _ _), List.length_append, Nat.add_sub_cancel, List.take_left]

theorem stripSuffix_eq_none {m s : List α} : stripSuffix m s = none ↔ ¬ m <:+ s := by
  unfold stripSuffix
  split <;> simp_all

theorem stripPrefix_append_left {m s t : List α} (h : stripPrefix m s = some t) (q : List α) :
    stripPrefix m (s ++ q) = some (t ++ q) := by
  rw [stripPrefix_eq_some] at h ⊢
  rw [h, List.append_assoc]

end Search

/-! ## Characters -/

/-- The `White_Space` property of Unicode. -/
def isWhitespace (c : Char) : Bool :=
  let n := c.toNat
  (9 ≤ n && n ≤ 13) || n == 0x20 || n == 0x85 || n == 0xA0 || n == 0x1680 ||
    (0x2000 ≤ n && n ≤ 0x200A) || n == 0x2028 || n == 0x2029 || n == 0x202F || n == 0x205F ||
    n == 0x3000

/-- The text without its leading white space. -/
def trimStart (s : List Char) : List Char := s.dropWhile isWhitespace

/-- The text without its trailing white space. -/
def trimEnd (s : List Char) : List Char := (s.reverse.dropWhile isWhitespace).reverse

/-- The text without white space at either end. -/
def trim (s : List Char) : List Char := trimEnd (trimStart s)

/-- Number of bytes of the UTF-8 encoding. -/
def utf8Len (s : List Char) : Nat := (s.map Char.utf8Size).sum

@[simp] theorem utf8Len_nil : utf8Len [] = 0 := rfl

@[simp] theorem utf8Len_append (s t : List Char) : utf8Len (s ++ t) = utf8Len s + utf8Len t := by
  simp [utf8Len]

theorem utf8Len_eq_zero {s : List Char} : utf8Len s = 0 ↔ s = [] := by
  cases s with
  | nil => simp
  | cons c s => simp [utf8Len, Nat.ne_of_gt (Char.utf8Size_pos c)]

/-- The leading white space and the rest. -/
theorem takeWhile_append_trimStart (s : List Char) :
    s.takeWhile isWhitespace ++ trimStart s = s :=
  List.takeWhile_append_dropWhile

theorem trimStart_of_all {w : List Char} (h : ∀ c ∈ w, isWhitespace c) (s : List Char) :
    trimStart (w ++ s) = trimStart s := by
  unfold trimStart
  rw [List.dropWhile_append_of_pos h]

theorem trimStart_eq_nil {s : List Char} : trimStart s = [] ↔ ∀ c ∈ s, isWhitespace c :=
  List.dropWhile_eq_nil_iff

theorem trimStart_trimStart (s : List Char) : trimStart (trimStart s) = trimStart s :=
  List.dropWhile_idempotent _ _

/-- Text after the first non-space character does not change what is trimmed. -/
theorem trimStart_append {s : List Char} (h : trimStart s ≠ []) (q : List Char) :
    trimStart (s ++ q) = trimStart s ++ q := by
  unfold trimStart at *
  rw [List.dropWhile_append]
  simp [h]

theorem trim_eq_nil {s : List Char} : trim s = [] ↔ ∀ c ∈ s, isWhitespace c := by
  unfold trim trimEnd
  rw [List.reverse_eq_nil_iff, List.dropWhile_eq_nil_iff]
  constructor
  · intro h
    rw [← trimStart_eq_nil, ← trimStart_trimStart, trimStart_eq_nil]
    intro c hc
    exact h c (List.mem_reverse.2 hc)
  · intro h
    rw [trimStart_eq_nil.2 h]
    simp

end Text
