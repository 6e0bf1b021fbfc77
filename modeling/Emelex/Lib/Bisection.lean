import Mathlib.Order.Basic
import Mathlib.Tactic.Common

/-!
# Bisection

* `bisect` — halves an interval between a number with a property and one without it; a test may
  fail.

Principal results: `test_of_bisect_eq_ok`, `bisect_eq_ok` (where no test fails, the last number with
the property before one without it).
-/

set_option autoImplicit false

namespace Emelex

namespace Bisection

variable {ε : Type}

/-- Halves the interval until its ends are neighbours. -/
def bisect (test : Nat → Except ε Bool) (low high : Nat) : Except ε Nat :=
  if low + 1 < high then
    match test (low + (high - low) / 2) with
    | .error error => .error error
    | .ok true => bisect test (low + (high - low) / 2) high
    | .ok false => bisect test low (low + (high - low) / 2)
  else .ok low
termination_by high - low

variable {test : Nat → Except ε Bool} {p : Nat → Prop} [DecidablePred p]

/-- What is found lies in the interval and has been tested. -/
theorem test_of_bisect_eq_ok {low high n : Nat} (hle : low ≤ high) (hlow : test low = .ok true)
    (h : bisect test low high = .ok n) : low ≤ n ∧ n ≤ high ∧ test n = .ok true := by
  fun_induction bisect test low high with
  | case1 => cases h
  | case2 low high hwide hok ih =>
    obtain ⟨hbelow, habove, htest⟩ := ih (by omega) hok h
    exact ⟨by omega, habove, htest⟩
  | case3 low high hwide hok ih =>
    obtain ⟨hbelow, habove, htest⟩ := ih (by omega) hlow h
    exact ⟨hbelow, by omega, htest⟩
  | case4 low high hnarrow =>
    obtain rfl := Except.ok.inj h
    exact ⟨Nat.le_refl _, hle, hlow⟩

theorem bisect_eq_ok {low high : Nat} (hlt : low < high) (hlow : p low) (hhigh : ¬ p high)
    (htest : ∀ n, low < n → n < high → test n = .ok (decide (p n))) :
    ∃ n, bisect test low high = .ok n ∧ low ≤ n ∧ n < high ∧ p n ∧ ¬ p (n + 1) := by
  fun_induction bisect test low high with
  | case1 low high hwide error herror =>
    rw [htest _ (by omega) (by omega)] at herror
    cases herror
  | case2 low high hwide hok ih =>
    rw [htest _ (by omega) (by omega)] at hok
    have hmiddle : p (low + (high - low) / 2) := of_decide_eq_true (Except.ok.inj hok)
    obtain ⟨n, hn, hle, hrest⟩ := ih (by omega) hmiddle hhigh fun n hn => htest n (by omega)
    exact ⟨n, hn, by omega, hrest⟩
  | case3 low high hwide hok ih =>
    rw [htest _ (by omega) (by omega)] at hok
    have hmiddle : ¬ p (low + (high - low) / 2) := of_decide_eq_false (Except.ok.inj hok)
    obtain ⟨n, hn, hle, hbelow, hrest⟩ := ih (by omega) hlow hmiddle fun n hn hlt =>
      htest n hn (by omega)
    exact ⟨n, hn, hle, by omega, hrest⟩
  | case4 low high hnarrow =>
    have hnext : low + 1 = high := by omega
    exact ⟨low, rfl, Nat.le_refl _, hlt, hlow, hnext ▸ hhigh⟩

end Bisection

end Emelex
