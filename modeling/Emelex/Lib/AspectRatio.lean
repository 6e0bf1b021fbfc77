import Mathlib.Analysis.Real.Sqrt
import Mathlib.Tactic.FieldSimp
import Mathlib.Tactic.Linarith
import Mathlib.Tactic.Positivity

/-!
# Two sides and their product

The sides of a rectangle whose ratio is bounded, rounded to whole units or scaled to a given area.

* `half_lt_floor`, `div_four_lt_floor_mul_floor` — rounding down does not lose much of a long side.
* `one_le_of_ratio`, `add_le_of_ratio` — bounds on the sides from their product and ratio.
* `shrunk_mul_shrunk`, `grown_mul_grown` — the area after scaling by a square root.
-/

set_option autoImplicit false

namespace AspectRatio

variable {x y r : ℝ}

/-! ## Rounding -/

theorem half_lt_floor (hx : 1 ≤ x) : x / 2 < ⌊x⌋ := by
  have hone : (1 : ℝ) ≤ ⌊x⌋ := by exact_mod_cast Int.le_floor.2 (by exact_mod_cast hx)
  have hlt := Int.lt_floor_add_one x
  linarith

theorem div_four_lt_floor_mul_floor (hx : 1 ≤ x) (hy : 1 ≤ y) : x * y / 4 < ⌊x⌋ * ⌊y⌋ := by
  have hx' := half_lt_floor hx
  have hy' := half_lt_floor hy
  calc x * y / 4 = x / 2 * (y / 2) := by ring
    _ < ⌊x⌋ * ⌊y⌋ := mul_lt_mul'' hx' hy' (by linarith) (by linarith)

theorem floor_mul_floor_le (hx : 0 ≤ x) (hy : 0 ≤ y) : (⌊x⌋ : ℝ) * ⌊y⌋ ≤ x * y :=
  mul_le_mul (Int.floor_le x) (Int.floor_le y) (by exact_mod_cast Int.floor_nonneg.2 hy) hx

theorem le_ceil_mul_ceil (hx : 0 ≤ x) (hy : 0 ≤ y) : x * y ≤ ⌈x⌉ * ⌈y⌉ :=
  mul_le_mul (Int.le_ceil x) (Int.le_ceil y) hy (hx.trans (Int.le_ceil x))

theorem ceil_mul_ceil_lt (hx : 0 < x) (hy : 0 < y) :
    (⌈x⌉ : ℝ) * ⌈y⌉ < x * y + (x + y) + 1 := by
  have hpos : (0 : ℝ) < ⌈y⌉ := by exact_mod_cast Int.ceil_pos.2 hy
  calc (⌈x⌉ : ℝ) * ⌈y⌉ < (x + 1) * ⌈y⌉ := mul_lt_mul_of_pos_right (Int.ceil_lt_add_one x) hpos
    _ ≤ (x + 1) * (y + 1) :=
      mul_le_mul_of_nonneg_left (Int.ceil_lt_add_one y).le (by linarith)
    _ = x * y + (x + y) + 1 := by ring

/-! ## Bounds on the sides -/

/-- Where the area is at least the ratio, the short side is at least one. -/
theorem one_le_of_ratio (hr : 0 < r) (hy : 0 < y) (hratio : x ≤ r * y) (harea : r ≤ x * y) :
    1 ≤ y := by
  by_contra hlt
  rw [not_le] at hlt
  have hle : x * y ≤ r * y * y := mul_le_mul_of_nonneg_right hratio hy.le
  have hsquare : r * y * y < r := by
    calc r * y * y ≤ r * y * 1 := mul_le_mul_of_nonneg_left hlt.le (by positivity)
      _ = r * y := mul_one _
      _ < r * 1 := mul_lt_mul_of_pos_left hlt hr
      _ = r := mul_one r
  linarith

/-- The short side is within the root of the area, the long one within that of `r` times it. -/
theorem add_le_of_ratio {s t : ℝ} (hx : 0 < x) (hy : 0 < y) (hs : 0 ≤ s) (ht : 0 ≤ t)
    (hxy : x ≤ r * y) (hyx : y ≤ r * x) (hlong : r * (x * y) ≤ s ^ 2) (hshort : x * y ≤ t ^ 2) :
    x + y ≤ s + t := by
  have hlongSide : ∀ a b : ℝ, 0 < a → a ≤ r * b → a * b = x * y → a ≤ s := by
    intro a b ha hab hprod
    refine (sq_le_sq₀ ha.le hs).1 ?_
    calc a ^ 2 = a * a := sq a
      _ ≤ a * (r * b) := mul_le_mul_of_nonneg_left hab ha.le
      _ = r * (a * b) := by ring
      _ ≤ s ^ 2 := by rw [hprod]; exact hlong
  have hshortSide : ∀ a b : ℝ, 0 < a → a ≤ b → a * b = x * y → a ≤ t := by
    intro a b ha hab hprod
    refine (sq_le_sq₀ ha.le ht).1 ?_
    calc a ^ 2 = a * a := sq a
      _ ≤ a * b := mul_le_mul_of_nonneg_left hab ha.le
      _ ≤ t ^ 2 := by rw [hprod]; exact hshort
  rcases le_total x y with hle | hle
  · have hxt := hshortSide x y hx hle rfl
    have hys := hlongSide y x hy hyx (mul_comm y x)
    linarith
  · have hyt := hshortSide y x hy hle (mul_comm y x)
    have hxs := hlongSide x y hx hxy rfl
    linarith

/-! ## Scaling -/

theorem shrunk_mul_shrunk {h w area : ℝ} (hh : 0 < h) (hw : 0 < w) (harea : 0 < area) :
    h / Real.sqrt (h * w / area) * (w / Real.sqrt (h * w / area)) = area := by
  have hpos : 0 < h * w / area := by positivity
  rw [div_mul_div_comm, Real.mul_self_sqrt hpos.le]
  field_simp

theorem grown_mul_grown {h w area : ℝ} (hh : 0 < h) (hw : 0 < w) (harea : 0 < area) :
    h * Real.sqrt (area / (h * w)) * (w * Real.sqrt (area / (h * w))) = area := by
  have hpos : 0 < area / (h * w) := by positivity
  rw [mul_mul_mul_comm, Real.mul_self_sqrt hpos.le]
  field_simp

end AspectRatio
