import SorobanKit.HostInteger

set_option autoImplicit false

/-!
# Fixed-point arithmetic shared by the contracts
-/
namespace SorobanKit.CommonMath
open HostInteger

inductive FixedPointError where
  | overflow
  | divisionByZero
  | invalidScale
  | negativeInput
  deriving DecidableEq, Repr

/-- `(a * b) / denominator`, truncated toward zero. -/
def mulDiv (a b denominator : ℤ) : Except FixedPointError ℤ :=
  if denominator = 0 then .error .divisionByZero
  else match checkedMul a b with
    | none => .error .overflow
    | some product =>
      match checked (product.tdiv denominator) with
      | none => .error .overflow
      | some quotient => .ok quotient

theorem toOption_eq_some {ε α : Type} {x : Except ε α} {a : α} :
    x.toOption = some a ↔ x = .ok a := by
  cases x <;> simp [Except.toOption]

/-- A quotient is returned exactly when the product fits and the quotient does. -/
theorem mulDiv_spec {a b denominator quotient : ℤ} :
    mulDiv a b denominator = .ok quotient ↔
      denominator ≠ 0 ∧ InI128 (a * b) ∧ InI128 quotient ∧ quotient = (a * b).tdiv denominator := by
  unfold mulDiv checkedMul checked
  by_cases hzero : denominator = 0
  · simp [hzero]
  by_cases hproduct : InI128 (a * b)
  · by_cases hquotient : InI128 ((a * b).tdiv denominator)
    · simp only [hzero, hproduct, hquotient, if_true, if_false, Except.ok.injEq]
      constructor
      · rintro rfl
        exact ⟨hzero, trivial, hquotient, rfl⟩
      · rintro ⟨-, -, -, rfl⟩
        rfl
    · simp only [hzero, hproduct, hquotient, if_true, if_false, reduceCtorEq, false_iff]
      rintro ⟨-, -, hfits, rfl⟩
      exact hquotient hfits
  · simp [hzero, hproduct]

theorem mulDiv_ok_inI128 {a b denominator quotient : ℤ}
    (h : mulDiv a b denominator = .ok quotient) :
    InI128 (a * b) ∧ quotient = (a * b).tdiv denominator := by
  obtain ⟨-, hfits, -, hquotient⟩ := mulDiv_spec.mp h
  exact ⟨hfits, hquotient⟩

theorem mulDiv_ok {a b denominator quotient : ℤ} (h : mulDiv a b denominator = .ok quotient) :
    quotient = (a * b).tdiv denominator :=
  (mulDiv_ok_inI128 h).2

theorem mulDiv_inI128 {a b denominator quotient : ℤ}
    (h : mulDiv a b denominator = .ok quotient) : InI128 quotient :=
  (mulDiv_spec.mp h).2.2.1

/-- Of a product that is not negative the quotient fits wherever the product does. -/
theorem mulDiv_eq_ok_iff {a b denominator quotient : ℤ} (hproduct : 0 ≤ a * b)
    (hdenominator : 0 < denominator) :
    mulDiv a b denominator = .ok quotient ↔ InI128 (a * b) ∧ quotient = a * b / denominator := by
  rw [mulDiv_spec, Int.tdiv_eq_ediv_of_nonneg hproduct]
  constructor
  · rintro ⟨-, hfits, -, hquotient⟩
    exact ⟨hfits, hquotient⟩
  · rintro ⟨hfits, rfl⟩
    have hnonneg := Int.ediv_nonneg hproduct hdenominator.le
    have hle := Int.ediv_le_self denominator hproduct
    exact ⟨hdenominator.ne', hfits, ⟨by omega, hle.trans hfits.2⟩, rfl⟩

theorem mulDiv_toOption {a b denominator quotient : ℤ}
    (h : (mulDiv a b denominator).toOption = some quotient) :
    quotient = (a * b).tdiv denominator :=
  mulDiv_ok (toOption_eq_some.mp h)

/-- `BPS_DENOMINATOR` -/
def bpsDenominator : ℤ := 10000

def applyBpsFee (amount : ℤ) (bps : ℕ) : Option ℤ := (mulDiv amount bps bpsDenominator).toOption

/-- A fee of at most all of an amount is part of it. -/
theorem applyBpsFee_bounds {amount fee : ℤ} {bps : ℕ} (h : applyBpsFee amount bps = some fee)
    (hamount : 0 ≤ amount) (hbps : bps ≤ 10000) : 0 ≤ fee ∧ fee ≤ amount := by
  have hfee := mulDiv_toOption h
  have hbps_nonneg : (0 : ℤ) ≤ bps := Int.natCast_nonneg bps
  have hproduct : 0 ≤ amount * bps := Int.mul_nonneg hamount hbps_nonneg
  rw [bpsDenominator, Int.tdiv_eq_ediv_of_nonneg hproduct] at hfee
  have hle : amount * bps ≤ amount * 10000 := Int.mul_le_mul_of_nonneg_left (by omega) hamount
  omega

end SorobanKit.CommonMath
