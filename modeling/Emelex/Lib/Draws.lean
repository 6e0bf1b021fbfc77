import Mathlib.MeasureTheory.Integral.Lebesgue.Add
import Mathlib.MeasureTheory.Measure.Lebesgue.Basic

/-!
# Programs over ideal uniforms

`Draw K α` is a computation that may ask for uniform numbers of type `K`: it returns, or it
draws one number and goes on.  The same term is run on a stream of numbers (`run`) and, over the
reals, has a law: every draw is an independent uniform number of `[0, 1)`.

* `expect m f` — the expected weight `f` of the outcome, by one integral for each draw.
* `run m g` — the outcome on the stream `g`, with what is left of the stream.

Principal results: `expect_bind` (the law of a sequence), `expect_const` (the law has mass one),
`lintegral_below` (a comparison with a uniform number), `run_bind`.
-/

set_option autoImplicit false

namespace Draws

open MeasureTheory Set
open scoped ENNReal

/-- A computation that may draw uniform numbers. -/
inductive Draw (K α : Type) : Type
  | ret (a : α)
  | draw (k : K → Draw K α)

variable {K α β γ : Type}

namespace Draw

/-- Run `m`, then `f` on its outcome. -/
def andThen : Draw K α → (α → Draw K β) → Draw K β
  | ret a, f => f a
  | draw k, f => draw fun u => (k u).andThen f

instance : Monad (Draw K) where
  pure := ret
  bind := andThen

/-- One uniform number. -/
def uniform : Draw K K := draw ret

@[simp] theorem pure_bind (a : α) (f : α → Draw K β) : (pure a : Draw K α) >>= f = f a := rfl

@[simp] theorem draw_bind (k : K → Draw K α) (f : α → Draw K β) :
    draw k >>= f = draw fun u => k u >>= f := rfl

theorem bind_assoc (m : Draw K α) (f : α → Draw K β) (g : β → Draw K γ) :
    (m >>= f) >>= g = m >>= fun a => f a >>= g := by
  induction m with
  | ret a => rfl
  | draw k ih =>
    rw [draw_bind, draw_bind, draw_bind]
    exact congrArg draw (funext ih)

/-! ## Runs -/

/-- The outcome on a stream of numbers, and the rest of the stream. -/
def run : Draw K α → (Nat → K) → α × (Nat → K)
  | ret a, g => (a, g)
  | draw k, g => (k (g 0)).run fun n => g (n + 1)

@[simp] theorem run_pure (a : α) (g : Nat → K) : (pure a : Draw K α).run g = (a, g) := rfl

theorem run_bind (m : Draw K α) (f : α → Draw K β) (g : Nat → K) :
    (m >>= f).run g = (f (m.run g).1).run (m.run g).2 := by
  induction m generalizing g with
  | ret a => rfl
  | draw k ih => exact ih (g 0) _

/-! ## Laws -/

/-- The expected weight of the outcome. -/
noncomputable def expect : Draw ℝ α → (α → ℝ≥0∞) → ℝ≥0∞
  | ret a, f => f a
  | draw k, f => ∫⁻ u in Ico (0 : ℝ) 1, (k u).expect f

@[simp] theorem expect_pure (a : α) (f : α → ℝ≥0∞) : (pure a : Draw ℝ α).expect f = f a := rfl

@[simp] theorem expect_draw (k : ℝ → Draw ℝ α) (f : α → ℝ≥0∞) :
    (draw k).expect f = ∫⁻ u in Ico (0 : ℝ) 1, (k u).expect f := rfl

theorem expect_bind (m : Draw ℝ α) (g : α → Draw ℝ β) (f : β → ℝ≥0∞) :
    (m >>= g).expect f = m.expect fun a => (g a).expect f := by
  induction m with
  | ret a => rfl
  | draw k ih =>
    rw [draw_bind, expect_draw, expect_draw]
    exact lintegral_congr fun u => ih u

theorem expect_const (m : Draw ℝ α) (c : ℝ≥0∞) : (m.expect fun _ => c) = c := by
  induction m with
  | ret a => rfl
  | draw k ih =>
    rw [expect_draw, lintegral_congr ih, setLIntegral_const, Real.volume_Ico, sub_zero,
      ENNReal.ofReal_one, mul_one]

theorem expect_affine (m : Draw ℝ α) {c : ℝ≥0∞} (hc : c ≠ ∞) (f : α → ℝ≥0∞) (d : ℝ≥0∞) :
    (m.expect fun a => c * f a + d) = c * m.expect f + d := by
  induction m with
  | ret a => rfl
  | draw k ih =>
    rw [expect_draw, expect_draw, lintegral_congr ih, lintegral_add_right _ measurable_const,
      lintegral_const_mul' _ _ hc, setLIntegral_const, Real.volume_Ico, sub_zero,
      ENNReal.ofReal_one, mul_one]

end Draw

/-- A number below the threshold `a` with probability `a`. -/
theorem lintegral_below {a : ℝ} (h0 : 0 ≤ a) (h1 : a ≤ 1) (x y : ℝ≥0∞) :
    (∫⁻ u in Ico (0 : ℝ) 1, if u < a then x else y) =
      ENNReal.ofReal a * x + ENNReal.ofReal (1 - a) * y := by
  have hsplit : Ico (0 : ℝ) 1 = Ico 0 a ∪ Ico a 1 := (Ico_union_Ico_eq_Ico h0 h1).symm
  have hdisj : Disjoint (Ico (0 : ℝ) a) (Ico a 1) := Ico_disjoint_Ico_same
  rw [hsplit, lintegral_union measurableSet_Ico hdisj]
  congr 1
  · rw [setLIntegral_congr_fun measurableSet_Ico fun u hu => if_pos hu.2, setLIntegral_const,
      Real.volume_Ico, sub_zero, mul_comm]
  · rw [setLIntegral_congr_fun measurableSet_Ico fun u hu => if_neg (not_lt.2 hu.1),
      setLIntegral_const, Real.volume_Ico, mul_comm]

/-- A function that is constant on `(a, b]` and given on `(b, c]`. -/
theorem lintegral_step {a b c : ℝ} (hab : a ≤ b) (hbc : b ≤ c) {f g : ℝ → ℝ≥0∞} {x : ℝ≥0∞}
    (hf : ∀ u ∈ Ioc a b, f u = x) (hg : ∀ u ∈ Ioc b c, f u = g u) :
    (∫⁻ u in Ioc a c, f u) = ENNReal.ofReal (b - a) * x + ∫⁻ u in Ioc b c, g u := by
  rw [← Ioc_union_Ioc_eq_Ioc hab hbc, lintegral_union measurableSet_Ioc (Ioc_disjoint_Ioc_of_le le_rfl)]
  congr 1
  · rw [setLIntegral_congr_fun measurableSet_Ioc hf, setLIntegral_const, Real.volume_Ioc, mul_comm]
  · exact setLIntegral_congr_fun measurableSet_Ioc hg

end Draws
