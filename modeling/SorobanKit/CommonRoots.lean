import Mathlib.Algebra.Order.Ring.Int
import Mathlib.Tactic.Ring
import SorobanKit.CommonMath
import SorobanKit.HostBisection
import SorobanKit.HostInvocation

set_option autoImplicit false

/-!
# Integer square roots

The source has two functions of one name. This is the one of a single argument, a binary search. Its
interval starts at the value itself, so the squares of its midpoints can overflow, which counts as
too large. Everything else in the loop is plain arithmetic, where an overflow traps.
-/
namespace SorobanKit.CommonMath
open HostBisection HostInteger HostInvocation

def midpoint (low high : ℤ) : Option ℤ := do
  let width ← checkedSub high low
  let width ← checkedAdd width 1
  let half ← checkedDiv width 2
  checkedAdd low half

theorem midpoint_eq_some {low high mid : ℤ} (h : midpoint low high = some mid) :
    mid = low + (high - low + 1).tdiv 2 := by
  unfold midpoint at h
  simp only [Option.bind_eq_bind, Option.bind_eq_some_iff, checkedSub_eq_some, checkedAdd_eq_some,
    checkedDiv_eq_some] at h
  obtain ⟨_, ⟨_, rfl⟩, _, ⟨_, rfl⟩, _, ⟨_, _, rfl⟩, _, rfl⟩ := h
  rfl

theorem midpoint_bounds {low high mid : ℤ} (hopen : low < high) (h : midpoint low high = some mid) :
    low < mid ∧ mid ≤ high := by
  rw [midpoint_eq_some h, Int.tdiv_eq_ediv_of_nonneg (by omega)]
  omega

/-- The loop of the search. -/
def sqrtLoop (value low high : ℤ) : Option ℤ :=
  if _ : low < high then
    match _ : midpoint low high with
    | none => none
    | some mid =>
      if (checkedMul mid mid).any (· ≤ value) then sqrtLoop value mid high
      else
        match _ : checkedSub mid 1 with
        | none => none
        | some top => sqrtLoop value low top
  else some low
termination_by (high - low).toNat
decreasing_by
  · have hbounds := midpoint_bounds ‹low < high› ‹midpoint low high = some mid›
    omega
  · have hbounds := midpoint_bounds ‹low < high› ‹midpoint low high = some mid›
    have htop := checkedSub_eq_some.mp ‹checkedSub mid 1 = some top›
    omega

def fixedSqrt (value : ℤ) : Result FixedPointError ℤ := do
  rejectIf (value < 0) .negativeInput
  if value < 2 then return value
  else unwrap (sqrtLoop value 1 value)

theorem midpoint_of_inI128 {low high : ℤ} (hlow : 1 ≤ low) (hopen : low < high)
    (hhigh : InI128 high) : midpoint low high = some (low + (high - low + 1) / 2) := by
  have hhalf : (high - low + 1).tdiv 2 = (high - low + 1) / 2 :=
    Int.tdiv_eq_ediv_of_nonneg (by omega)
  unfold InI128 at hhigh
  unfold midpoint
  simp only [Option.bind_eq_bind, Option.bind_eq_some_iff, checkedSub_eq_some, checkedAdd_eq_some,
    checkedDiv_eq_some]
  refine ⟨_, ⟨?_, rfl⟩, _, ⟨?_, rfl⟩, _, ⟨by decide, ?_, hhalf⟩, ?_, rfl⟩
  · unfold InI128
    omega
  · unfold InI128
    omega
  · rw [hhalf]
    unfold InI128
    omega
  · unfold InI128
    omega

theorem square_any {value mid : ℤ} (hvalue : InI128 value) :
    (checkedMul mid mid).any (· ≤ value) = decide (mid * mid ≤ value) := by
  have hsquare := mul_self_nonneg mid
  unfold checkedMul checked
  by_cases hfits : InI128 (mid * mid)
  · rw [if_pos hfits]
    rfl
  · have hlarge : ¬ mid * mid ≤ value := by
      unfold InI128 at hfits hvalue
      omega
    rw [if_neg hfits, decide_eq_false hlarge]
    rfl

theorem sqrtLoop_eq {value low high : ℤ} (hvalue : InI128 value) (hlow : 1 ≤ low)
    (hhigh : InI128 high) :
    sqrtLoop value low high = some (bisect (fun mid => mid * mid ≤ value) low high) := by
  fun_induction bisect (fun mid => decide (mid * mid ≤ value)) low high with
  | case1 low high hopen mid hmid ih =>
    rw [sqrtLoop, dif_pos hopen]
    split
    · next hnone =>
      rw [midpoint_of_inI128 hlow hopen hhigh] at hnone
      cases hnone
    · next other hsome =>
      rw [midpoint_of_inI128 hlow hopen hhigh] at hsome
      cases hsome
      rw [square_any hvalue, if_pos hmid]
      exact ih (by omega) hhigh
  | case2 low high hopen mid hmid ih =>
    have htop : InI128 (mid - 1) := by
      unfold InI128 at hhigh ⊢
      omega
    rw [sqrtLoop, dif_pos hopen]
    split
    · next hnone =>
      rw [midpoint_of_inI128 hlow hopen hhigh] at hnone
      cases hnone
    · next other hsome =>
      rw [midpoint_of_inI128 hlow hopen hhigh] at hsome
      cases hsome
      rw [square_any hvalue, if_neg hmid]
      split
      · next hnone =>
        rw [checkedSub, checked, if_pos htop] at hnone
        cases hnone
      · next top hsome =>
        rw [checkedSub, checked, if_pos htop] at hsome
        cases hsome
        exact ih hlow htop
  | case3 low high hclosed => rw [sqrtLoop, dif_neg hclosed]

/-- The search finds the integer root of every value that is not negative, and refuses the others. -/
theorem fixedSqrt_spec (value : I128) :
    if value.1 < 0 then fixedSqrt value = .error (.error .negativeInput)
    else ∃ root, fixedSqrt value = .ok root ∧ 0 ≤ root ∧ root * root ≤ value ∧
      value < (root + 1) * (root + 1) := by
  obtain ⟨value, hvalue⟩ := value
  dsimp only
  unfold fixedSqrt
  split
  · next hneg =>
    rw [rejectIf_pos hneg]
    rfl
  · next hnonneg =>
    rw [rejectIf_neg hnonneg, ok_bind]
    by_cases hsmall : value < 2
    · rw [if_pos hsmall]
      refine ⟨value, rfl, by omega, ?_, ?_⟩
      · have hbit : value = 0 ∨ value = 1 := by omega
        rcases hbit with rfl | rfl <;> decide
      · have hbit : value = 0 ∨ value = 1 := by omega
        rcases hbit with rfl | rfl <;> decide
    · rw [if_neg hsmall, sqrtLoop_eq hvalue (le_refl 1) hvalue]
      let fits : ℤ → Bool := fun mid => mid * mid ≤ value
      have hbounds := @bisect_bounds fits 1 value (by omega)
      have hroot : fits (bisect fits 1 value) = true :=
        bisect_passes (decide_eq_true (by omega : (1 : ℤ) * 1 ≤ value))
      have habove : fits (value + 1) = false := by
        apply decide_eq_false
        have hlarge : value + 1 ≤ (value + 1) * (value + 1) :=
          le_mul_of_one_le_left (by omega) (by omega)
        omega
      have hnext : fits (bisect fits 1 value + 1) = false := bisect_fails (by omega) habove
      refine ⟨bisect fits 1 value, rfl, by omega, of_decide_eq_true hroot, ?_⟩
      exact not_le.mp (of_decide_eq_false hnext)

end SorobanKit.CommonMath
