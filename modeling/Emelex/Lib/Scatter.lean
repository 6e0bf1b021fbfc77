import Mathlib.Algebra.BigOperators.Group.List.Basic
import Mathlib.Algebra.Order.Ring.Int
import Mathlib.Tactic.Ring

/-!
# Values put at the marked places of a list

* `cumsum` — the sums of the beginnings of a list.
* `broadcast` — every item, as often as a row is wide.
* `rank` — the marked places before a place.

Principal results: `cumsum_getElem?`, `broadcast_getElem?`, `sum_take_broadcast`,
`rank_broadcast`.
-/

set_option autoImplicit false

namespace Scatter

variable {α : Type}

/-- The sum up to each place, with it. -/
def cumsum (values : List ℤ) : List ℤ :=
  (List.range values.length).map fun i => (values.take (i + 1)).sum

/-- Every item `width` times. -/
def broadcast (width : ℕ) (items : List α) : List α := items.flatMap (List.replicate width)

/-- A mark as a number. -/
def ofMark (mark : Bool) : ℤ := if mark then 1 else 0

/-- The marked places before a place. -/
def rank (marks : List Bool) (place : ℕ) : ℕ := (marks.take place).count true

theorem cumsum_getElem? {values : List ℤ} {i : ℕ} (h : i < values.length) :
    (cumsum values)[i]? = some (values.take (i + 1)).sum := by
  rw [cumsum, List.getElem?_map, List.getElem?_range h]
  rfl

theorem cumsum_length (values : List ℤ) : (cumsum values).length = values.length := by
  rw [cumsum, List.length_map, List.length_range]

theorem broadcast_length (width : ℕ) (items : List α) :
    (broadcast width items).length = items.length * width := by
  induction items with
  | nil => simp [broadcast]
  | cons item items ih =>
    rw [broadcast, List.flatMap_cons, List.length_append, List.length_replicate, ← broadcast, ih,
      List.length_cons, Nat.add_mul, Nat.one_mul, Nat.add_comm]

/-- The item of a row is at all of its columns. -/
theorem broadcast_getElem? {width column : ℕ} {items : List α} {row : ℕ} (h : column < width) :
    (broadcast width items)[row * width + column]? = items[row]? := by
  induction items generalizing row with
  | nil => simp [broadcast]
  | cons item items ih =>
    rw [broadcast, List.flatMap_cons, ← broadcast]
    cases row with
    | zero =>
      rw [Nat.zero_mul, Nat.zero_add, List.getElem?_append_left (by rwa [List.length_replicate]),
        List.getElem?_replicate_of_lt h]
      rfl
    | succ row =>
      have hplace : (row + 1) * width + column =
          (List.replicate width item).length + (row * width + column) := by
        rw [List.length_replicate]
        ring
      rw [hplace, List.getElem?_append_right (Nat.le_add_right _ _), Nat.add_sub_cancel_left, ih,
        List.getElem?_cons_succ]

/-- The sum of a beginning: the whole rows, and the columns of the last one. -/
theorem sum_take_broadcast {width column : ℕ} {values : List ℤ} {row : ℕ} {value : ℤ}
    (hrow : values[row]? = some value) (hcolumn : column ≤ width) :
    ((broadcast width values).take (row * width + column)).sum =
      (values.take row).sum * width + column * value := by
  induction values generalizing row with
  | nil => simp at hrow
  | cons first values ih =>
    rw [broadcast, List.flatMap_cons, ← broadcast]
    cases row with
    | zero =>
      obtain rfl : first = value := by simpa using hrow
      rw [Nat.zero_mul, Nat.zero_add,
        List.take_append_of_le_length (by rwa [List.length_replicate]), List.take_replicate,
        Nat.min_eq_left hcolumn, List.sum_replicate, nsmul_eq_mul]
      simp
    | succ row =>
      have hplace : (row + 1) * width + column =
          (List.replicate width first).length + (row * width + column) := by
        rw [List.length_replicate]
        ring
      rw [hplace, List.take_length_add_append, List.sum_append, List.sum_replicate,
        ih (by simpa using hrow), List.take_succ_cons, List.sum_cons, nsmul_eq_mul]
      ring

theorem sum_ofMark (marks : List Bool) : (marks.map ofMark).sum = marks.count true := by
  induction marks with
  | nil => rfl
  | cons mark marks ih =>
    rw [List.map_cons, List.sum_cons, ih]
    cases mark
    · simp [ofMark]
    · rw [List.count_cons_self, ofMark, if_pos rfl, Nat.cast_add, Nat.cast_one, Int.add_comm]

theorem sum_take_ofMark (marks : List Bool) (place : ℕ) :
    ((marks.map ofMark).take place).sum = rank marks place := by
  rw [← List.map_take, sum_ofMark, rank]

/-- A marked place is one of the places that are counted. -/
theorem rank_lt {marks : List Bool} {place : ℕ} (h : marks[place]? = some true) :
    rank marks place < marks.count true := by
  obtain ⟨hlt, hmark⟩ := List.getElem?_eq_some_iff.1 h
  have hsplit := List.take_append_drop place marks
  rw [List.drop_eq_getElem_cons hlt, hmark] at hsplit
  rw [rank]
  conv_rhs => rw [← hsplit]
  rw [List.count_append, List.count_cons_self]
  omega

theorem broadcast_map {β : Type} (f : α → β) (width : ℕ) (items : List α) :
    (broadcast width items).map f = broadcast width (items.map f) := by
  rw [broadcast, broadcast, List.map_flatMap, List.flatMap_map]
  simp only [List.map_replicate]

/-- In a marked row, the marked places before a column are those of the rows and columns before. -/
theorem rank_broadcast {width column row : ℕ} {marks : List Bool} (hmark : marks[row]? = some true)
    (hcolumn : column < width) :
    rank (broadcast width marks) (row * width + column) = rank marks row * width + column := by
  have hvalue : (marks.map ofMark)[row]? = some 1 := by
    rw [List.getElem?_map, hmark]
    rfl
  have hsum := sum_take_broadcast hvalue hcolumn.le
  rw [← broadcast_map, sum_take_ofMark, sum_take_ofMark, mul_one] at hsum
  exact_mod_cast hsum

theorem count_broadcast (width : ℕ) (marks : List Bool) :
    (broadcast width marks).count true = marks.count true * width := by
  induction marks with
  | nil => simp [broadcast]
  | cons mark marks ih =>
    rw [broadcast, List.flatMap_cons, ← broadcast, List.count_append, ih, List.count_replicate]
    cases mark
    · simp
    · rw [List.count_cons_self, Nat.add_mul, Nat.one_mul, Nat.add_comm]
      rfl

end Scatter
