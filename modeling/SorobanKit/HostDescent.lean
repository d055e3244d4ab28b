import Mathlib.Algebra.Order.Ring.Nat
import Mathlib.Algebra.Order.Ring.Unbundled.Basic
import Mathlib.Data.Nat.Sqrt
import Mathlib.Tactic.Ring

set_option autoImplicit false

/-!
# Loops that run as long as a value falls

The loop `loop { let next = step(x); if next >= x { break; } x = next; }` ends in a well-founded order,
at the first value that the step does not lower. Newton's iteration for the square root of a natural
number is such a loop: a step never falls below the root, and one that does not fall is at the root.
-/
namespace SorobanKit.HostDescent

def descend {α : Type} [LinearOrder α] [WellFoundedLT α] (step : α → α) (x : α) : α :=
  if step x < x then descend step (step x) else x
termination_by wellFounded_lt.wrap x

section Descent
variable {α : Type} [LinearOrder α] [WellFoundedLT α] {step : α → α} {x : α}

theorem descend_stops (step : α → α) (x : α) : descend step x ≤ step (descend step x) := by
  fun_induction descend step x with
  | case1 x hfalls ih => exact ih
  | case2 x hstops => exact not_lt.mp hstops

theorem descend_invariant {I : α → Prop} (hstep : ∀ y, I y → step y < y → I (step y)) (h : I x) :
    I (descend step x) := by
  fun_induction descend step x with
  | case1 x hfalls ih => exact ih (hstep x h hfalls)
  | case2 x hstops => exact h

end Descent

section Newton
variable {n x : ℕ}

def newtonStep (n x : ℕ) : ℕ := (x + n / x) / 2

theorem newtonStep_pos (hn : 0 < n) (hx : 0 < x) : 0 < newtonStep n x := by
  unfold newtonStep
  by_cases hone : x = 1
  · subst hone
    rw [Nat.div_one]
    omega
  · have hquotient : 0 ≤ n / x := Nat.zero_le _
    omega

theorem lt_newtonStep (hx : 0 < x) : n < (newtonStep n x + 1) * (newtonStep n x + 1) := by
  have hquotient : n < x * (n / x + 1) := Nat.lt_mul_div_succ n hx
  have hmean : 4 * x * (n / x + 1) ≤ (x + (n / x + 1)) ^ 2 := four_mul_le_sq_add x (n / x + 1)
  have hhalf : x + (n / x + 1) ≤ 2 * (newtonStep n x + 1) := by
    unfold newtonStep
    omega
  have hsquare : (x + (n / x + 1)) ^ 2 ≤ (2 * (newtonStep n x + 1)) ^ 2 := Nat.pow_le_pow_left hhalf 2
  have hfour : 4 * n < 4 * ((newtonStep n x + 1) * (newtonStep n x + 1)) := by
    calc 4 * n < 4 * (x * (n / x + 1)) := Nat.mul_lt_mul_of_pos_left hquotient (by decide)
      _ = 4 * x * (n / x + 1) := (Nat.mul_assoc _ _ _).symm
      _ ≤ (2 * (newtonStep n x + 1)) ^ 2 := hmean.trans hsquare
      _ = 4 * ((newtonStep n x + 1) * (newtonStep n x + 1)) := by ring
  omega

theorem sq_le_of_stops (hx : 0 < x) (h : x ≤ newtonStep n x) : x * x ≤ n := by
  unfold newtonStep at h
  have hquotient : x ≤ n / x := by omega
  exact (Nat.le_div_iff_mul_le hx).mp hquotient

/-- Above the root the quotient is close to the value it divides by. -/
theorem div_le_of_above (habove : n < (x + 1) * (x + 1)) : n / x ≤ x + 2 := by
  apply Nat.div_le_of_le_mul
  have hexpand : (x + 1) * (x + 1) = x * (x + 2) + 1 := by ring
  omega

/-- Where the iteration is: not at zero, and not below the root. -/
structure Above (n x : ℕ) : Prop where
  pos : 0 < x
  above : n < (x + 1) * (x + 1)

theorem Above.step (h : Above n x) (hn : 0 < n) : Above n (newtonStep n x) :=
  ⟨newtonStep_pos hn h.pos, lt_newtonStep h.pos⟩

/-- From above the root the iteration ends at the root. -/
theorem descend_newtonStep (hn : 0 < n) (h : Above n x) :
    descend (newtonStep n) x = Nat.sqrt n := by
  have hend : Above n (descend (newtonStep n) x) :=
    descend_invariant (fun _ hy _ => hy.step hn) h
  rw [Nat.eq_sqrt]
  exact ⟨sq_le_of_stops hend.pos (descend_stops _ _), hend.above⟩

end Newton

end SorobanKit.HostDescent
