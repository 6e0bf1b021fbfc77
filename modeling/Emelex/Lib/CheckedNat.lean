import Mathlib.Algebra.BigOperators.Group.List.Basic
import Mathlib.Algebra.Order.BigOperators.GroupWithZero.List
import Mathlib.Algebra.Order.Ring.Nat
import Mathlib.Tactic.Common

/-!
# Checked arithmetic on machine words

* `checkedAdd`, `checkedMul`, `checkedProduct` — `none` where the result is not below the limit.

Principal results: `checkedAdd_eq_some`, `checkedProduct_eq` (a product of positive numbers
overflows nowhere if it does not in the end).
-/

set_option autoImplicit false

namespace Emelex

namespace Checked

variable (limit : Nat)

def checkedAdd (a b : Nat) : Option Nat := if a + b < limit then some (a + b) else none

def checkedMul (a b : Nat) : Option Nat := if a * b < limit then some (a * b) else none

/-- The product from left to right. -/
def checkedProduct (values : List Nat) : Option Nat := values.foldlM (checkedMul limit) 1

variable {limit}

theorem checkedAdd_eq_some {a b c : Nat} :
    checkedAdd limit a b = some c ↔ a + b < limit ∧ a + b = c := by
  unfold checkedAdd
  split <;> simp_all

theorem checkedMul_eq_some {a b c : Nat} :
    checkedMul limit a b = some c ↔ a * b < limit ∧ a * b = c := by
  unfold checkedMul
  split <;> simp_all

/-- What is multiplied by positive numbers only grows. -/
theorem foldlM_checkedMul {values : List Nat} (hpos : ∀ v ∈ values, 0 < v) (a : Nat)
    (ha : a < limit) :
    values.foldlM (checkedMul limit) a =
      if a * values.prod < limit then some (a * values.prod) else none := by
  induction values generalizing a with
  | nil => rw [List.prod_nil, Nat.mul_one, if_pos ha]; rfl
  | cons v values ih =>
    obtain ⟨hv, hvalues⟩ := List.forall_mem_cons.1 hpos
    have hprod : 0 < values.prod := List.prod_pos hvalues
    rw [List.foldlM_cons, List.prod_cons, ← Nat.mul_assoc]
    unfold checkedMul
    by_cases hstep : a * v < limit
    · rw [if_pos hstep]
      exact ih hvalues _ hstep
    · have hle : a * v ≤ a * v * values.prod := Nat.le_mul_of_pos_right _ hprod
      rw [if_neg hstep, if_neg (by omega)]
      rfl

/-- Only the first two factors may be zero. -/
theorem checkedProduct_eq {a b : Nat} {values : List Nat} (ha : a < limit)
    (hpos : ∀ v ∈ values, 0 < v) :
    checkedProduct limit (a :: b :: values) =
      if a * b * values.prod < limit then some (a * b * values.prod) else none := by
  unfold checkedProduct
  rw [List.foldlM_cons]
  have hfirst : checkedMul limit 1 a = some a := by rw [checkedMul_eq_some]; omega
  rw [hfirst]
  show (checkedMul limit a b >>= fun c => values.foldlM (checkedMul limit) c) = _
  unfold checkedMul
  by_cases hstep : a * b < limit
  · rw [if_pos hstep]
    exact foldlM_checkedMul hpos _ hstep
  · have hle : a * b ≤ a * b * values.prod := Nat.le_mul_of_pos_right _ (List.prod_pos hpos)
    rw [if_neg hstep, if_neg (by omega)]
    rfl

end Checked

end Emelex
