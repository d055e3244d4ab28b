import Mathlib.Data.Int.Notation
import Mathlib.Tactic.Basic

set_option autoImplicit false

/-!
# Bisection with the midpoint rounded up

The loop `while low < high` that keeps the upper part of an interval of integers where a test passes
at its midpoint, and the lower part where it fails. It ends next to a failure of the test, wherever
else the test passes or fails.
-/
namespace SorobanKit.HostBisection

def bisect (p : ℤ → Bool) (low high : ℤ) : ℤ :=
  if low < high then
    let mid := low + (high - low + 1) / 2
    if p mid then bisect p mid high else bisect p low (mid - 1)
  else low
termination_by (high - low).toNat

variable {p : ℤ → Bool} {low high : ℤ}

theorem bisect_bounds (h : low ≤ high) : low ≤ bisect p low high ∧ bisect p low high ≤ high := by
  fun_induction bisect p low high with
  | case1 low high hopen mid hmid ih =>
    have hbounds := ih (by omega)
    omega
  | case2 low high hopen mid hmid ih =>
    have hbounds := ih (by omega)
    omega
  | case3 low high hclosed => exact ⟨Int.le_refl low, h⟩

/-- The test passes at the result. -/
theorem bisect_passes (h : p low = true) : p (bisect p low high) = true := by
  fun_induction bisect p low high with
  | case1 low high hopen mid hmid ih => exact ih hmid
  | case2 low high hopen mid hmid ih => exact ih h
  | case3 low high hclosed => exact h

/-- The test fails right above the result, if it fails right above the interval. -/
theorem bisect_fails (hle : low ≤ high) (h : p (high + 1) = false) :
    p (bisect p low high + 1) = false := by
  fun_induction bisect p low high with
  | case1 low high hopen mid hmid ih => exact ih (by omega) h
  | case2 low high hopen mid hmid ih =>
    apply ih (by omega)
    rw [Int.sub_add_cancel]
    exact Bool.eq_false_iff.mpr hmid
  | case3 low high hclosed =>
    rw [show low = high by omega]
    exact h

end SorobanKit.HostBisection
