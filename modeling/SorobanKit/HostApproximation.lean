import Mathlib.Algebra.Order.Field.Basic
import Mathlib.Tactic.Linarith
import Mathlib.Tactic.Ring
import Mathlib.Tactic.FieldSimp

set_option autoImplicit false

/-!
# Errors of products and quotients

What is computed from values that are near the exact ones is near what is computed from those. A
quotient needs a divisor further from zero than the error it is known up to.
-/
namespace SorobanKit.HostApproximation

variable {K : Type} [Field K] [LinearOrder K] [IsStrictOrderedRing K]

/-- `a` is `x` up to an error of `δ`. -/
def Near (δ a x : K) : Prop := |a - x| ≤ δ

section Errors
variable {δ ε μ a b c x y : K}

theorem Near.refl (x : K) : Near 0 x x := by
  unfold Near
  rw [sub_self, abs_zero]

theorem Near.nonneg (h : Near δ a x) : 0 ≤ δ := le_trans (abs_nonneg _) h

/-- An error on top of another one. -/
theorem Near.trans (hca : Near μ c a) (hax : Near δ a x) : Near (δ + μ) c x := by
  have htriangle := abs_sub_le c a x
  unfold Near at hca hax ⊢
  linarith

theorem Near.abs_le (h : Near δ a x) : |a| ≤ |x| + δ := by
  have htriangle := abs_add_le x (a - x)
  rw [add_sub_cancel] at htriangle
  unfold Near at h
  linarith

theorem Near.le_abs (h : Near δ a x) : |x| - δ ≤ |a| := by
  have htriangle := abs_add_le a (x - a)
  rw [add_sub_cancel, abs_sub_comm] at htriangle
  unfold Near at h
  linarith

theorem Near.mul (ha : Near δ a x) (hb : Near ε b y) :
    Near (|x| * ε + |y| * δ + δ * ε) (a * b) (x * y) := by
  have hsplit : a * b - x * y = x * (b - y) + y * (a - x) + (a - x) * (b - y) := by ring
  have hfirst : |x * (b - y)| ≤ |x| * ε := by
    rw [abs_mul]
    exact mul_le_mul_of_nonneg_left hb (abs_nonneg x)
  have hsecond : |y * (a - x)| ≤ |y| * δ := by
    rw [abs_mul]
    exact mul_le_mul_of_nonneg_left ha (abs_nonneg y)
  have hboth : |(a - x) * (b - y)| ≤ δ * ε := by
    rw [abs_mul]
    exact mul_le_mul ha hb (abs_nonneg _) ha.nonneg
  unfold Near
  rw [hsplit]
  calc |x * (b - y) + y * (a - x) + (a - x) * (b - y)|
      ≤ |x * (b - y)| + |y * (a - x)| + |(a - x) * (b - y)| :=
        (abs_add_le _ _).trans (add_le_add_left (abs_add_le _ _) _)
    _ ≤ |x| * ε + |y| * δ + δ * ε := add_le_add (add_le_add hfirst hsecond) hboth

/-- The divisor keeps a distance from zero. -/
theorem Near.ne_zero (hb : Near ε b y) (hy : ε < |y|) : b ≠ 0 := by
  have hle := hb.le_abs
  rintro rfl
  rw [abs_zero] at hle
  linarith

theorem Near.div (ha : Near δ a x) (hb : Near ε b y) (hy : ε < |y|) :
    Near ((|x| * ε + |y| * δ) / (|y| * (|y| - ε))) (a / b) (x / y) := by
  have hb0 := hb.ne_zero hy
  have hy0 : y ≠ 0 := abs_pos.mp (lt_of_le_of_lt hb.nonneg hy)
  have hypos : 0 < |y| := abs_pos.mpr hy0
  have hgap : 0 < |y| - ε := sub_pos.mpr hy
  have hsplit : a / b - x / y = (y * (a - x) - x * (b - y)) / (y * b) := by
    field_simp
    ring
  have hnumerator : |y * (a - x) - x * (b - y)| ≤ |x| * ε + |y| * δ := by
    have hfirst : |y * (a - x)| ≤ |y| * δ := by
      rw [abs_mul]
      exact mul_le_mul_of_nonneg_left ha hypos.le
    have hsecond : |x * (b - y)| ≤ |x| * ε := by
      rw [abs_mul]
      exact mul_le_mul_of_nonneg_left hb (abs_nonneg x)
    have htriangle := abs_sub (y * (a - x)) (x * (b - y))
    linarith
  have hdenominator : |y| * (|y| - ε) ≤ |y * b| := by
    rw [abs_mul]
    exact mul_le_mul_of_nonneg_left hb.le_abs hypos.le
  unfold Near
  rw [hsplit, abs_div]
  exact div_le_div₀ ((abs_nonneg _).trans hnumerator) hnumerator (mul_pos hypos hgap) hdenominator

end Errors

end SorobanKit.HostApproximation
